import Backend.Session.Basic

/-!
Debug information about types. Asking for the extent of a type may lay it out; where a type has no
extent its size counts as zero.
-/

namespace Backend

abbrev Definer := DeclKind → String → Gen Unit

namespace Resolution

/-- The extent of a struct or enum, which is laid out if need be. -/
def namedExtent (define : Definer) (kind : DeclKind) (name : String) : Gen Extent := do
  define kind name
  MonadExcept.ofExcept ((← get).layouts.extent? kind name)

def extent (define : Definer) (ty : IrType) : Gen Extent := Extent.ofType (namedExtent define) ty

def packedSize (define : Definer) (fields : List IrType) : Gen Nat :=
  Extent.packed (namedExtent define) fields

def extentOrNone (define : Definer) (ty : IrType) : Gen Extent := do
  match ← Gen.attempt (extent define ty) with
  | .ok e => return e
  | .error _ => return ⟨0, 1⟩

def bitSize (define : Definer) (ty : IrType) : Gen Nat := do
  word ((← extentOrNone define ty).size * 8)

def describePlain (ty : IrType) (bits : Nat) : DebugCall :=
  match ty with
  | .int 1 => .basic "bool" 8 .boolean
  | .int n => .basic s!"i{n}" n .signed
  | .float => .basic "float" 32 .float
  | .double => .basic "double" 64 .float
  | other => .basic other.display bits .address

/-- The number of a type at the collector. Structs keep the number of their definition. -/
def describeType (define : Definer) : IrType → Gen (Option Nat)
  | .ptr inner => do
    let pointee ← describeType define inner
    Gen.tell (.pointer (pointee.getD 0))
  | .array length inner => do
    let bits ← bitSize define (.array length inner)
    let elem ← describeType define inner
    Gen.tell (.array (elem.getD 0) length bits)
  | .struct name => describeNamed (.struct name) name
  | .enum name => describeNamed (.enum name) name
  | ty => do Gen.tell (describePlain ty (← bitSize define ty))
where
  describeNamed (ty : IrType) (name : String) : Gen (Option Nat) := do
    match (← get).debugTypes.find? name with
    | some id => return some id
    | none => Gen.tell (describePlain ty (← bitSize define ty))

/-- The members of a struct from `offset` on, with the end and the strictest alignment. -/
def describeMembers (define : Definer) :
    List (String × IrType) → Nat → Nat → Gen (List DebugMember × Nat × Nat)
  | [], offset, align => return ([], offset, align)
  | (name, ty) :: rest, offset, align => do
    let e ← extentOrNone define ty
    let start ← word (alignTo offset e.align)
    let type := (← describeType define ty).getD 0
    let member := { name, type, offset := ← word (start * 8), size := ← word (e.size * 8) }
    let (members, last) ← describeMembers define rest (← word (start + e.size)) (max align e.align)
    return (member :: members, last)

/-- Tells the collector about a struct that has just been laid out. -/
def describeStruct (define : Definer) (name : String) (fields : List (String × IrType))
    (location : Location) : Gen Unit := do
  if (← get).activeCollector?.isSome then
    let (members, offset, align) ← describeMembers define fields 0 1
    let file := (← Gen.tell (.file location.file)).getD 0
    let bits ← word ((← word (alignTo offset align)) * 8)
    let id ← Gen.tell (.struct name bits file location.line members)
    modify fun s => { s with debugTypes := s.debugTypes.insert name (id.getD 0) }

end Resolution

end Backend
