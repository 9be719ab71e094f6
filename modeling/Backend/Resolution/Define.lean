import Backend.Resolution.Describe
import Backend.Resolution.Dispatch

/-!
Laying out structs and enums. What a type holds by value is laid out before it, and meeting a type
again while it is being laid out means that it holds itself.
-/

namespace Backend

namespace Resolution

def whileDefining {α : Type} (name context : String) (x : Gen α) : Gen α := do
  if name ∈ (← get).defining then fail (.unresolvedType name context)
  else
    modify fun s => { s with defining := name :: s.defining }
    try x
    finally modify fun s => { s with defining := s.defining.erase name }

def structLayout (define : Definer) (name : String) : Gen StructLayout := do
  define .struct name
  orFail ((← get).layouts.structs.find? name) (.unresolvedType name "struct layout")

def enumLayout (define : Definer) (name : String) : Gen EnumLayout := do
  define .enum name
  orFail ((← get).layouts.enums.find? name) (.unresolvedType name "enum layout")

mutual

/-- Lays out what a type holds by value. Behind a pointer only a name is needed. -/
def defineEmbedded (define : Definer) : IrType → Gen Unit
  | .struct name => define .struct name
  | .enum name => define .enum name
  | .array _ elem => defineEmbedded define elem
  | .record fields => defineAllEmbedded define fields
  | _ => pure ()

def defineAllEmbedded (define : Definer) : List IrType → Gen Unit
  | [] => pure ()
  | ty :: rest => do
    defineEmbedded define ty
    defineAllEmbedded define rest

end

/-- An own field, whose type is named in the message if it does not resolve. -/
def ownField (resolve : Resolver) (define : Definer) (owner : String) (f : Field) :
    Gen (String × IrType) := do
  let inField : Cause → Cause
    | .unresolvedType name _ => .unresolvedType name s!"field '{f.name}' of '{owner}'"
    | cause => cause
  let ty ← Gen.mappingCause inField (resolve f.ty {})
  defineEmbedded define ty
  return (f.name, ty)

def inheritedFields (resolve : Resolver) (define : Definer) :
    Option TypeRef → Gen (List (String × IrType))
  | some parent => do
    let parentLayout ← structLayout define (← structName resolve parent {})
    return parentLayout.inherited
  | none => return []

def structFields (resolve : Resolver) (define : Definer) (name : String) (decl : StructDecl) :
    Gen (List (String × IrType)) := do
  let inherited ← inheritedFields resolve define decl.parent
  let isDispatched := !(← dispatchLayout resolve name).isEmpty
  let dispatch :=
    if isDispatched && inherited.all (fun f => f.1 ≠ dispatchField) then
      [(dispatchField, IrType.bytePtr)]
    else []
  let own ← decl.fields.mapM (ownField resolve define name)
  return inherited ++ dispatch ++ own ++ [(livenessField, .i1)]

def addStructLayout (layout : StructLayout) : Gen Unit := do
  Gen.modifyOutput fun o => o.addTypeDef layout.definition
  modify fun s => { s with layouts.structs := s.layouts.structs.insert layout.name layout }

def defineStruct (resolve : Resolver) (define : Definer) (name : String) : Gen Unit := do
  unless (← get).layouts.structs.contains name do
    let decl ← orFail ((← get).decls.structs.find? name)
      (.unresolvedType name "struct declaration")
    if decl.isTemplate then fail (.template name)
    else
      let fields ← whileDefining name "struct contains itself by value"
        (structFields resolve define name decl)
      let extent := (← get).layouts.aggregate (fields.map Prod.snd)
      addStructLayout { name, fields, extent }
      describeStruct define name fields decl.location
      unless (← dispatchLayout resolve name).isEmpty do
        emitDispatchTable resolve name

/-- The variants from `tag` on, after those in `done`, and the size of the largest payload. -/
def variantLayouts (resolve : Resolver) (define : Definer) :
    List Variant → Nat → Table VariantLayout → Nat → Gen (Table VariantLayout × Nat)
  | [], _, done, dataSize => return (done, dataSize)
  | v :: rest, tag, done, dataSize => do
    let payload ← v.payloadTypes.mapM fun ty => resolve ty {}
    let size ← packedSize define payload
    variantLayouts resolve define rest (tag + 1)
      (done.insert v.name { tag, payload, sources := v.payloadTypes, size }) (max dataSize size)

def addEnumLayout (layout : EnumLayout) : Gen Unit := do
  Gen.modifyOutput fun o => o.addTypeDef layout.definition
  modify fun s => { s with layouts.enums := s.layouts.enums.insert layout.name layout }

def defineEnum (resolve : Resolver) (define : Definer) (name : String) : Gen Unit := do
  unless (← get).layouts.enums.contains name do
    let decl ← orFail ((← get).decls.enums.find? name) (.unresolvedType name "enum declaration")
    if decl.isTemplate then fail (.template name)
    else
      let (variants, dataSize) ← whileDefining name "enum contains itself by value"
        (variantLayouts resolve define decl.variants 0 {} 0)
      let extent := (← get).layouts.aggregate (enumTypes dataSize)
      addEnumLayout { name, variants, dataSize, extent }

/-- Lays out a type, with at most `budget` layouts inside each other. -/
def defineWithin (resolve : Resolver) : Nat → Definer
  | 0 => fun _ _ => throw .exhausted
  | budget + 1 => fun kind name =>
    match kind with
    | .struct => defineStruct resolve (defineWithin resolve budget) name
    | .enum => defineEnum resolve (defineWithin resolve budget) name

/-- Layouts inside each other are of different types, so the declarations bound their number. -/
def define (resolve : Resolver) : Definer := fun kind name => do
  let decls := (← get).decls
  defineWithin resolve ((decls.structs.size + decls.enums.size + 1) * (maxResolveDepth + 1))
    kind name

end Resolution

end Backend
