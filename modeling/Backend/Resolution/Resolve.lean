import Backend.Resolution.Instantiate

/-!
Resolution of types. Each level of resolution may use the next one, and the session counts how
many are under way, so a chain of names that never ends is found and reported.
-/

namespace Backend

def Primitive.irType : Primitive → IrType
  | .i8 | .u8 => .int 8
  | .i16 | .u16 => .int 16
  | .i32 | .u32 => .int 32
  | .i64 | .u64 => .int 64
  | .f32 => .float
  | .f64 => .double
  | .bool => .int 1
  | .void => .void
  | .string | .null => .bytePtr

def DeclKind.irType (kind : DeclKind) (name : String) : IrType :=
  match kind with
  | .struct => .struct name
  | .enum => .enum name

namespace Resolution

def concreteType (resolve : Resolver) (kind : DeclKind) (name : String) (args : List TypeRef) :
    Gen IrType := do
  if args.isEmpty then return kind.irType name
  else return kind.irType (← instantiate resolve kind name args {})

def aliasTarget (name : String) (args : List TypeRef) : Gen TypeRef := do
  let a ← orFail ((← get).decls.aliases.find? name)
    (.unresolvedType name "no struct, enum or alias with this name")
  checkArity a.name a.typeParams args
  Gen.substitute (.ofParams a.typeParams args) a.target

def declaredType (resolve : Resolver) (name : String) (args : List TypeRef)
    (hint : Option DeclKind) (σ : Substitution) : Gen IrType := do
  let args ← Gen.substituteAll σ args
  match (← get).decls.kind? name hint with
  | some kind => concreteType resolve kind name args
  | none => resolve (← aliasTarget name args) σ

/-- A name without arguments may also be a primitive or a parameter. A parameter that stands for
itself is declared and not defined. -/
def simpleName (resolve : Resolver) (name : String) (hint : Option DeclKind) (σ : Substitution) :
    Gen IrType :=
  match Primitive.ofName? name with
  | some p => return p.irType
  | none =>
    if σ.isSelfMapped name then do
      Gen.modifyOutput fun o => o.addForward name
      return .forward name
    else match σ.find? name with
      | some mapped => resolve mapped σ
      | none => declaredType resolve name [] hint σ

def step (resolve : Resolver) : Resolver
  | .primitive p, _ => return p.irType
  | .pointer inner depth, σ => do
    let base ← resolve inner σ
    -- a pointer to nothing in particular points to bytes
    return (if base.isVoid then IrType.i8 else base).ptrs depth
  | .array inner dims, σ => return (← resolve inner σ).arrays dims
  | .tuple elems, σ => return .record (← elems.mapM fun e => resolve e σ)
  | .function params ret variadic, σ => do
    let ret ← resolve ret σ
    return .closure ret (← params.mapM fun p => resolve p σ) variadic
  | .named name [] hint, σ => simpleName resolve name hint σ
  | .named name (arg :: args) hint, σ => declaredType resolve name (arg :: args) hint σ

def nested {α : Type} (ty : TypeRef) (x : Gen α) : Gen α := do
  if maxResolveDepth ≤ (← get).resolveDepth then
    fail (.resolutionDepth ty.display maxResolveDepth)
  else
    modify fun s => { s with resolveDepth := s.resolveDepth + 1 }
    try x
    finally modify fun s => { s with resolveDepth := s.resolveDepth - 1 }

def resolveWithin : Nat → Resolver
  | 0 => fun _ _ => throw .exhausted
  | levels + 1 => fun ty σ => nested ty (step (resolveWithin levels) ty σ)

end Resolution

/-! ### The closed rules -/

namespace Gen

def resolve : Resolver := Resolution.resolveWithin (maxResolveDepth + 1)

def resolveAll (types : List TypeRef) (σ : Substitution) : Gen (List IrType) :=
  types.mapM fun ty => resolve ty σ

def structName (ty : TypeRef) (σ : Substitution) : Gen String :=
  Resolution.structName resolve ty σ

def define : Definer := Resolution.define resolve

def structLayout (name : String) : Gen StructLayout := Resolution.structLayout define name

def enumLayout (name : String) : Gen EnumLayout := Resolution.enumLayout define name

def instantiate (kind : DeclKind) (base : String) (args : List TypeRef) (context : Substitution) :
    Gen String :=
  Resolution.instantiate resolve kind base args context

def extent (ty : IrType) : Gen Extent := Resolution.extent define ty

def sizeOf (ty : IrType) : Gen Nat := return (← extent ty).size

def packedSize (fields : List IrType) : Gen Nat := Resolution.packedSize define fields

def aggregate (fields : List IrType) : Gen Extent := extent (.record fields)

def sizeInBits (ty : TypeRef) (σ : Substitution) : Gen Nat := do
  word ((← sizeOf (← resolve ty σ)) * 8)

def dispatchLayout (name : String) : Gen (List String) := Resolution.dispatchLayout resolve name

def dispatchSlot? (owner method : String) : Gen (Option Nat) := do
  return (← dispatchLayout owner).idxOf? method

def findMethod (name method : String) : Gen (Option (String × FunctionDecl)) :=
  Resolution.findMethod resolve name method

/-- The definition of a method and its owner. An enum has no parents to look at. -/
def lookupMethod (name method : String) : Gen (String × FunctionDecl) := do
  match (← get).decls.enums.find? name with
  | some e =>
    let m ← orFail (e.method? method) (.missingMethod name method)
    return (name, m)
  | none => orFail (← findMethod name method) (.missingMethod name method)

def methodType (owner : String) (m : FunctionDecl) (σ : Substitution) : Gen IrType :=
  Resolution.methodType resolve owner m σ

/-- Tells the collector about a function; the answer is the scope of its places. -/
def describeFunction (name : String) (ret : IrType) (location : Location) :
    Gen (Option Nat) := do
  if (← get).activeCollector?.isSome then
    let type := (← Resolution.describeType define ret).getD 0
    let file := (← tell (.file location.file)).getD 0
    tell (.subprogram name location.line file type)
  else return none

def describeLocation (location : Location) (scope : Nat) : Gen (Option Nat) :=
  if location.isUnknown then pure none
  else tell (.location location.line location.column scope)

end Gen

end Backend
