import Backend.Lowering.Code

/-!
Structs, tuples and arrays. Access computes addresses by slot. A struct literal starts from zero,
gets its dispatch table, the fields that are given and last its liveness bit.
-/

namespace Backend

namespace Emit

/-! ### Access -/

def memberPlace (object : Code) (field : String) : Emit Place := do
  let base ← object.aggregate
  match base.ty with
  | .struct name =>
    let layout ← Gen.structLayout name
    let slot ← orFail (layout.slot? field) (.unknownField name field)
    let ty ← orFail (layout.type? slot) (.unknownField name field)
    let address ← slotAddress base.ty base.address slot ty
    return ⟨address.operand, ty⟩
  | other => fail (.notAddressable s!"field access '.{field}' on '{other.display}'")

def tuplePlace (object : Code) (position : Nat) : Emit Place := do
  let base ← object.aggregate
  match base.ty with
  | .record fields =>
    let ty ← orFail fields[position]? (.unknownField base.ty.display (toString position))
    let address ← slotAddress base.ty base.address position ty
    return ⟨address.operand, ty⟩
  | other => fail (.notAddressable s!"tuple index .{position} on '{other.display}'")

/-- What an index steps over: the start, the type the address is computed in, the type of the
elements, and the indices before the last. -/
def indexBase (object : Code) : Emit (Place × IrType × List Value) := do
  match ← resolve object.ty with
  | .ptr (.array ..) => ofArray
  | .ptr inner => return (⟨(← object.value).operand, inner⟩, inner, [])
  | _ => ofArray
where
  ofArray : Emit (Place × IrType × List Value) := do
    let base ← object.aggregate
    match base.ty with
    | .array _ elem => return (base, elem, [⟨.int 0, .i64⟩])
    | other => fail (.notAddressable s!"index into '{other.display}'")

def indexPlace (object position : Code) : Emit Place := do
  let (base, elem, before) ← indexBase object
  let i ← position.coerced .i64
  let address ← emitValue (.ptr elem) fun dst =>
    .address dst base.ty base.address (before ++ [⟨i.operand, .i64⟩])
  return ⟨address.operand, elem⟩

/-! ### Literals -/

def insertField (name : String) (layout : StructLayout) (field : String) (value : Code)
    (current : Value) : Emit Value := do
  if field = dispatchField || field = livenessField then fail (.unknownField name field)
  else
    let slot ← orFail (layout.slot? field) (.unknownField name field)
    let ty ← orFail (layout.type? slot) (.unknownField name field)
    let v ← value.coerced ty
    insertAt current v slot

/-- Sets the fields that are given, in the order of the literal. -/
def insertFields (name : String) (layout : StructLayout) :
    List (String × Code) → Value → Emit Value
  | [], current => return current
  | (field, value) :: rest, current => do
    insertFields name layout rest (← insertField name layout field value current)

def blankStruct (name : String) (layout : StructLayout) : Emit Value :=
  match layout.dispatchSlot? with
  | some slot => do
    let length := (← Gen.dispatchLayout name).length
    insertAt ⟨.zero, .struct name⟩ ⟨.dispatch name length, .bytePtr⟩ slot
  | none => return ⟨.zero, .struct name⟩

def structLiteral (ty : TypeRef) (fields : List (String × Code)) : Emit Value := do
  match ← resolve ty with
  | .struct name =>
    let layout ← Gen.structLayout name
    let start ← blankStruct name layout
    let filled ← insertFields name layout fields start
    insertAt filled ⟨.int 1, .i1⟩ layout.livenessSlot
  | other => fail (.unsupported s!"struct literal of type '{other.display}'")

def insertAll : List Value → Nat → Value → Emit Value
  | [], _, current => return current
  | v :: rest, i, current => do insertAll rest (i + 1) (← insertAt current v i)

def tupleLiteral (elems : List Code) : Emit Value := do
  let values ← elems.mapM Code.value
  let ty := IrType.record (values.map Value.ty)
  insertAll values 0 ⟨if values.isEmpty then .zero else .undef, ty⟩

/-- Elements evaluated and put into an array one after another. -/
def insertElems (elemType : IrType) : List Code → Nat → Value → Emit Value
  | [], _, current => return current
  | elem :: rest, i, current => do
    let v ← elem.coerced elemType
    insertElems elemType rest (i + 1) (← insertAt current v i)

def arrayLiteral (ty : TypeRef) (elems : List Code) : Emit Value := do
  let target ← resolve ty
  let mismatch : Cause :=
    .unsupported s!"array literal with {elems.length} element(s) of type '{target.display}'"
  match target with
  | .array length elemType =>
    if length ≠ elems.length then fail mismatch
    else insertElems elemType elems 0 ⟨if elems.isEmpty then .zero else .undef, target⟩
  | _ => fail mismatch

end Emit

namespace Code

def member (info : ExprInfo) (object : Code) (field : String) : Code :=
  ofPlace info.ty (Emit.memberPlace object field)

def index (info : ExprInfo) (object position : Code) : Code :=
  ofPlace info.ty (Emit.indexPlace object position)

def tupleIndex (info : ExprInfo) (object : Code) (position : Nat) : Code :=
  ofPlace info.ty (Emit.tuplePlace object position)

def structLiteral (info : ExprInfo) (fields : List (String × Code)) : Code :=
  ofValue "temporary value" info.ty (Emit.structLiteral info.ty fields)

def tupleLiteral (info : ExprInfo) (elems : List Code) : Code :=
  ofValue "temporary value" info.ty (Emit.tupleLiteral elems)

def arrayLiteral (info : ExprInfo) (elems : List Code) : Code :=
  ofValue "temporary value" info.ty (Emit.arrayLiteral info.ty elems)

end Code

end Backend
