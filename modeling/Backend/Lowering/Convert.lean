import Backend.Lowering.Frame

/-! Conversions between target types, and truth values. -/

namespace Backend

/-- The instruction that converts one type to another, if there is one. Truth values and unsigned
integers are extended by zeros. -/
def conversion? (source target : IrType) (sourceUnsigned targetUnsigned : Bool) : Option CastOp :=
  match source, target with
  | .int m, .int n =>
    if n < m then some .trunc
    else if m = 1 || sourceUnsigned then some .zext
    else some .sext
  | .int _, .float | .int _, .double => some (if sourceUnsigned then .uitofp else .sitofp)
  | .float, .int _ | .double, .int _ => some (if targetUnsigned then .fptoui else .fptosi)
  | .float, .double => some .fpext
  | .double, .float => some .fptrunc
  | .ptr _, .ptr _ => some .bitcast
  | .ptr _, .int _ => some .ptrtoint
  | .int _, .ptr _ => some .inttoptr
  | _, _ => none

namespace Emit

def convert (v : Value) (target : IrType) (sourceUnsigned targetUnsigned : Bool) : Emit Value := do
  if v.ty = target then return v
  match conversion? v.ty target sourceUnsigned targetUnsigned with
  | some op => emitValue target fun dst => .cast dst op v target
  | none =>
    fail (.unsupported ("conversion from '" ++ v.ty.display ++ "' to '" ++ target.display ++ "'"))

/-- Adapts a value of source type `source`. A null becomes a null of any pointer type, and a
struct that holds no value. -/
def coerce (v : Value) (source : TypeRef) (target : IrType) : Emit Value := do
  if v.ty = target || target.isVoid then return v
  match v.operand, target with
  | .null, .ptr _ => return ⟨.null, target⟩
  | .null, .struct _ => return ⟨.zero, target⟩
  | _, _ =>
    let unsigned := (← concrete source).isUnsigned
    convert v target unsigned unsigned

/-- A value as a condition: integers and pointers are compared with zero. -/
def truth (v : Value) : Emit Operand := do
  match v.ty with
  | .int 1 => return v.operand
  | .int _ | .ptr _ =>
    let test ← emitValue .i1 fun dst => .compare dst .ne v v.ty.zero
    return test.operand
  | other => fail (.unsupported ("condition of type '" ++ other.display ++ "'"))

end Emit

end Backend
