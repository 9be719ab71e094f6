import Backend.Ir.Instruction

/-! The parts of an IR module: type definitions, constants, declarations and functions. -/

namespace Backend

inductive TypeDef where
  | struct (name : String) (fields : List IrType)
  | enum (name : String) (fields : List IrType)

def TypeDef.text : TypeDef → String
  | .struct name fields => "%struct." ++ name ++ " = type " ++ (IrType.record fields).display
  | .enum name fields => "%enum." ++ name ++ " = type " ++ (IrType.record fields).display

/-- The methods of a struct by slot, each with its function type and symbol. -/
structure DispatchTable where
  owner : String
  entries : List (IrType × String)

def DispatchTable.text (t : DispatchTable) : String :=
  let entries := t.entries.map fun (ty, symbol) =>
    "i8* bitcast (" ++ ty.display ++ "* @" ++ symbol ++ " to i8*)"
  dispatchGlobal t.owner ++ s!" = constant [{t.entries.length} x i8*] [" ++
    commaJoin entries ++ "]"

/-- A function that the module uses and does not define. -/
structure Declaration where
  name : String
  ret : IrType
  params : List IrType := []
  variadic : Bool := false

def Declaration.text (d : Declaration) : String :=
  let dots := if d.variadic then (if d.params.isEmpty then "..." else ", ...") else ""
  "declare " ++ d.ret.display ++ " @" ++ d.name ++
    "(" ++ commaJoin (d.params.map IrType.display) ++ dots ++ ")"

structure FunctionDef where
  symbol : String
  returnType : IrType
  params : List (IrType × String)
  /-- Debug id of the function itself. -/
  scope : Option Nat := none
  /-- Stack slots, all of them in the entry block. -/
  slots : List (Register × IrType) := []
  body : List Line

def FunctionDef.text (f : FunctionDef) : String :=
  let params := f.params.map fun (ty, name) => ty.display ++ " %" ++ name
  let scope := match f.scope with
    | some id => s!" !dbg !{id}"
    | none => ""
  let slots := f.slots.map fun (r, ty) => "  " ++ r.text ++ " = alloca " ++ ty.display
  "define " ++ f.returnType.display ++ " @" ++ f.symbol ++ "(" ++ commaJoin params ++ ")" ++
    scope ++ " \x7b\nentry:\n" ++
    String.join ((slots ++ f.body.map Line.text).map (· ++ "\n")) ++ "\x7d\n"

/-! ### String constants -/

def upperHexDigit (n : Nat) : Char := (Nat.digitChar n).toUpper

/-- Printable ASCII stands for itself; any other byte, a quote and a backslash are written as a
backslash and two hexadecimal digits. -/
def escapeByte (b : UInt8) : List Char :=
  if 0x20 ≤ b ∧ b < 0x7f ∧ b ≠ 0x22 ∧ b ≠ 0x5c then [Char.ofNat b.toNat]
  else ['\\', upperHexDigit (b.toNat / 16), upperHexDigit (b.toNat % 16)]

def escapeString (s : String) : String := String.ofList (s.toUTF8.toList.flatMap escapeByte)

def stringLength (s : String) : Nat := s.utf8ByteSize + 1

def stringConstantText (index : Nat) (s : String) : String :=
  stringGlobal index ++ s!" = private unnamed_addr constant [{stringLength s} x i8] c\"" ++
    escapeString s ++ "\\00\", align 1"

end Backend
