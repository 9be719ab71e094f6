import Backend.Lowering.Code

/-!
Literals and operators. The sign of an operation is that of its left operand. `and`, `or` and the
conditional expression evaluate by branches that meet in a phi.
-/

namespace Backend

def intOp? (op : BinaryOp) (unsigned : Bool) : Option ArithOp :=
  match op with
  | .add => some .add
  | .sub => some .sub
  | .mul => some .mul
  | .div => some (if unsigned then .udiv else .sdiv)
  | .rem => some (if unsigned then .urem else .srem)
  | .bitAnd => some .and
  | .bitOr => some .or
  | .bitXor => some .xor
  | .shl => some .shl
  | .shr => some (if unsigned then .lshr else .ashr)
  | _ => none

def floatOp? : BinaryOp → Option ArithOp
  | .add => some .fadd
  | .sub => some .fsub
  | .mul => some .fmul
  | .div => some .fdiv
  | .rem => some .frem
  | _ => none

def intPredicate (op : BinaryOp) (unsigned : Bool) : Predicate :=
  match op with
  | .eq => .eq
  | .ne => .ne
  | .lt => if unsigned then .ult else .slt
  | .le => if unsigned then .ule else .sle
  | .gt => if unsigned then .ugt else .sgt
  | _ => if unsigned then .uge else .sge

def floatPredicate : BinaryOp → Predicate
  | .eq => .oeq
  | .ne => .one
  | .lt => .olt
  | .le => .ole
  | .gt => .ogt
  | _ => .oge

def predicate? (op : BinaryOp) (unsigned : Bool) : IrType → Option Predicate
  | .float | .double => some (floatPredicate op)
  | .int _ | .ptr _ => some (intPredicate op unsigned)
  | _ => none

namespace Emit

/-! ### Literals -/

def literal (ty : TypeRef) : Literal → Emit Value
  | .int n => do
    match ← resolve ty with
    | .int bits => return ⟨.int n, .int bits⟩
    | .float => return ⟨floatOperand (.ofInt n) .float, .float⟩
    | .double => return ⟨floatOperand (.ofInt n) .double, .double⟩
    | _ => return ⟨.int n, .i32⟩
  | .float x => do
    match ← resolve ty with
    | .float => return ⟨floatOperand x .float, .float⟩
    | _ => return ⟨floatOperand x .double, .double⟩
  | .bool b => return ⟨.bool b, .i1⟩
  | .string s => do return ⟨← Gen.internString s, .bytePtr⟩
  | .null => do
    match ← resolve ty with
    | .ptr inner => return ⟨.null, .ptr inner⟩
    | _ => return ⟨.null, .bytePtr⟩

/-! ### Binary operators -/

def livenessSubject? (lhs rhs : Value) : Option (String × Value) :=
  match lhs.ty, rhs.operand, rhs.ty, lhs.operand with
  | .struct name, .null, _, _ => some (name, lhs)
  | _, _, .struct name, .null => some (name, rhs)
  | _, _, _, _ => none

def compareLiveness (op : BinaryOp) (name : String) (subject : Value) : Emit Value := do
  let layout ← Gen.structLayout name
  let bit ← emitValue .i1 fun dst => .extract dst subject layout.livenessSlot
  emitValue .i1 fun dst => .compare dst (if op = .eq then .eq else .ne) bit (.bool false)

def compareValues (op : BinaryOp) (unsigned : Bool) (lhs rhs : Value) : Emit Value :=
  match predicate? op unsigned lhs.ty with
  | some p => emitValue .i1 fun dst => .compare dst p lhs rhs.operand
  | none => fail (.unsupported s!"comparison of '{lhs.ty.display}'")

def arithOp (op : BinaryOp) (unsigned : Bool) (ty : IrType) : Emit ArithOp :=
  if ty.isFloat then
    orFail (floatOp? op) (.unsupported s!"floating-point operator {op.title}")
  else if ty.isInt then
    orFail (intOp? op unsigned) (.unsupported s!"integer operator {op.title}")
  else fail (.unsupported s!"operator {op.title} on '{ty.display}'")

/-- An operator on two numbers, of which the right one is adapted to the left one. -/
def operate (op : BinaryOp) (lhs rhs : Value) (lhsType rhsType ty : TypeRef) : Emit Value := do
  let r ← coerce rhs rhsType lhs.ty
  let unsigned := (← concrete lhsType).isUnsigned
  if op.isComparison then compareValues op unsigned lhs r
  else
    let instr ← arithOp op unsigned lhs.ty
    let result ← emitValue lhs.ty fun dst => .arith dst instr lhs r.operand
    coerce result lhsType (← resolve ty)

def strict (op : BinaryOp) (lhs rhs : Code) (ty : TypeRef) : Emit Value := do
  let l ← lhs.value
  let r ← rhs.value
  match livenessSubject? l r, op with
  | some (name, subject), .eq | some (name, subject), .ne => compareLiveness op name subject
  | _, _ => operate op l r lhs.ty rhs.ty ty

/-- The right side is evaluated only if the left one is `continueOn`; otherwise that is the
result. -/
def shortCircuit (stem : String) (continueOn : Bool) (lhs rhs : Code) : Emit Value := do
  let rhsLabel ← freshLabel (stem ++ ".rhs")
  let endLabel ← freshLabel (stem ++ ".end")
  let l ← lhs.condition
  let leftBlock := (← get).block
  terminate (if continueOn then .branch l rhsLabel endLabel else .branch l endLabel rhsLabel)
  startBlock rhsLabel
  let r ← rhs.condition
  let rightBlock := (← get).block
  terminate (.jump endLabel)
  startBlock endLabel
  emitValue .i1 fun dst => .phi dst .i1 [(.bool !continueOn, leftBlock), (r, rightBlock)]

def binary (op : BinaryOp) (lhs rhs : Code) (ty : TypeRef) : Emit Value :=
  match op with
  | .and => shortCircuit "and" true lhs rhs
  | .or => shortCircuit "or" false lhs rhs
  | op => strict op lhs rhs ty

/-! ### The conditional expression -/

def ternaryBranch (label endLabel : Label) (branch : Code) (target : IrType) :
    Emit (Operand × Label) := do
  startBlock label
  let v ← branch.coerced target
  terminate (.jump endLabel)
  return (v.operand, (← get).block)

def ternary (condition thenValue elseValue : Code) (ty : TypeRef) : Emit Value := do
  let target ← resolve ty
  let test ← condition.condition
  let thenLabel ← freshLabel "ternary.then"
  let elseLabel ← freshLabel "ternary.else"
  let endLabel ← freshLabel "ternary.end"
  terminate (.branch test thenLabel elseLabel)
  let onTrue ← ternaryBranch thenLabel endLabel thenValue target
  let onFalse ← ternaryBranch elseLabel endLabel elseValue target
  startBlock endLabel
  if target.isVoid then return .void
  emitValue target fun dst => .phi dst target [onTrue, onFalse]

/-! ### Unary operators -/

def negate (operand : Code) : Emit Value := do
  let v ← operand.value
  emitValue v.ty fun dst =>
    if v.ty.isFloat then .negate dst v else .arith dst .sub ⟨.int 0, v.ty⟩ v.operand

def complement (operand : Code) : Emit Value := do
  let v ← operand.value
  let ones : Operand := if v.ty = .i1 then .bool true else .int (-1)
  emitValue v.ty fun dst => .arith dst .xor v ones

def addressOf (operand : Code) : Emit Value := do
  let p ← operand.lvalue
  return ⟨p.address, .ptr p.ty⟩

/-- The type of what a pointer points to; if the pointer's type does not tell, the type of the
expression does. -/
def pointeeType (pointer : Value) (ty : TypeRef) : Emit IrType :=
  match pointer.ty with
  | .ptr inner => return inner
  | _ => resolve ty

def dereference (operand : Code) (ty : TypeRef) : Emit Value := do
  let pointer ← operand.value
  let pointee ← pointeeType pointer ty
  load pointee pointer.operand

def pointeePlace (operand : Code) : Emit Place := do
  let pointer ← operand.value
  match pointer.ty with
  | .ptr inner => return ⟨pointer.operand, inner⟩
  | other => fail (.notAddressable s!"dereference of '{other.display}'")

/-! ### Assignment, casts and sizes -/

def assign (target value : Code) : Emit Value := do
  let p ← target.lvalue
  let v ← value.value
  let v ← coerce v target.ty p.ty
  store v p.address
  return v

def cast (value : Code) (ty : TypeRef) : Emit Value := do
  let sourceUnsigned := (← concrete value.ty).isUnsigned
  let targetUnsigned := (← concrete ty).isUnsigned
  let target ← resolve ty
  convert (← value.value) target sourceUnsigned targetUnsigned

def sizeof (ty : TypeRef) : Emit Value := do
  let size ← Gen.sizeOf (← resolve ty)
  return ⟨.int size, .i64⟩

end Emit

namespace Code

def literal (info : ExprInfo) (l : Literal) : Code :=
  ofValue "literal" info.ty (Emit.literal info.ty l)

def binary (info : ExprInfo) (op : BinaryOp) (lhs rhs : Code) : Code :=
  ofValue "operator result" info.ty (Emit.binary op lhs rhs info.ty)

def unary (info : ExprInfo) (op : UnaryOp) (operand : Code) : Code :=
  match op with
  | .neg => ofValue "operator result" info.ty (Emit.negate operand)
  | .not => ofValue "operator result" info.ty (Emit.complement operand)
  | .addressOf => ofValue "operator result" info.ty (Emit.addressOf operand)
  | .deref =>
    { ty := info.ty
      value := Emit.dereference operand info.ty
      lvalue := Emit.pointeePlace operand
      place := Emit.pointeePlace operand }

def assign (info : ExprInfo) (target value : Code) : Code :=
  ofValue "temporary value" info.ty (Emit.assign target value)

def ternary (info : ExprInfo) (condition thenValue elseValue : Code) : Code :=
  ofValue "temporary value" info.ty (Emit.ternary condition thenValue elseValue info.ty)

def cast (info : ExprInfo) (value : Code) : Code :=
  ofValue "temporary value" info.ty (Emit.cast value info.ty)

def sizeof (info : ExprInfo) (ty : TypeRef) : Code :=
  ofValue "temporary value" info.ty (Emit.sizeof ty)

end Code

end Backend
