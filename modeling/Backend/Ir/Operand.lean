import Backend.Binary64
import Backend.Ir.Type

/-! Operands of instructions, and values: operands with their types. -/

namespace Backend

/-- A register, numbered by the generator or named by the signature. -/
inductive Register where
  | temp (n : Nat)
  | named (name : String)
  deriving DecidableEq

def Register.text : Register → String
  | .temp n => s!"%t{n}"
  | .named name => "%" ++ name

inductive Operand where
  | reg (r : Register)
  | int (n : Int)
  | float (x : Binary64)
  | floatZero
  | bool (b : Bool)
  | null
  /-- Every bit of an aggregate zero. -/
  | zero
  | undef
  /-- The operand of a value of type void. -/
  | nothing
  /-- Address of the first byte of a string constant. -/
  | stringStart (index length : Nat)
  /-- A dispatch table seen as bytes. -/
  | dispatch (owner : String) (length : Nat)
  | global (symbol : String)
  deriving DecidableEq

def stringGlobal (index : Nat) : String := s!"@.str.{index}"

def dispatchGlobal (owner : String) : String := "@" ++ owner ++ "_vtable"

def Operand.text : Operand → String
  | .reg r => r.text
  | .int n => toString n
  | .float x => "0x" ++ x.hex
  | .floatZero => "0.0"
  | .bool true => "true"
  | .bool false => "false"
  | .null => "null"
  | .zero => "zeroinitializer"
  | .undef => "undef"
  | .nothing => ""
  | .stringStart index length =>
    let array := s!"[{length} x i8]"
    "getelementptr inbounds (" ++ array ++ ", " ++ array ++ "* " ++ stringGlobal index ++
      ", i64 0, i64 0)"
  | .dispatch owner length => s!"bitcast ([{length} x i8*]* " ++ dispatchGlobal owner ++ " to i8*)"
  | .global symbol => "@" ++ symbol

structure Value where
  operand : Operand
  ty : IrType
  deriving DecidableEq

namespace Value

def void : Value := ⟨.nothing, .void⟩

def temp (n : Nat) (ty : IrType) : Value := ⟨.reg (.temp n), ty⟩

def text (v : Value) : String := v.ty.display ++ " " ++ v.operand.text

end Value

def IrType.zero : IrType → Operand
  | .int _ => .int 0
  | .float | .double => .floatZero
  | .ptr _ => .null
  | _ => .zero

/-- A floating constant. A single-precision one must be exact in single precision. -/
def floatOperand (x : Binary64) : IrType → Operand
  | .float => .float x.toSingle
  | _ => .float x

end Backend
