import Backend.Ir.Operand

/-! Instructions, terminators and the lines of a function body. -/

namespace Backend

/-- A block label. Numbers are given out once in a function, so labels with different numbers
differ whatever they are called. -/
inductive Label where
  | entry
  | fresh (stem : String) (n : Nat)
  deriving DecidableEq

def Label.text : Label → String
  | .entry => "entry"
  | .fresh stem n => s!"{stem}.{n}"

inductive CastOp where
  | trunc | zext | sext | uitofp | sitofp | fptoui | fptosi | fpext | fptrunc
  | bitcast | ptrtoint | inttoptr
  deriving DecidableEq

def CastOp.text : CastOp → String
  | .trunc => "trunc"
  | .zext => "zext"
  | .sext => "sext"
  | .uitofp => "uitofp"
  | .sitofp => "sitofp"
  | .fptoui => "fptoui"
  | .fptosi => "fptosi"
  | .fpext => "fpext"
  | .fptrunc => "fptrunc"
  | .bitcast => "bitcast"
  | .ptrtoint => "ptrtoint"
  | .inttoptr => "inttoptr"

inductive ArithOp where
  | add | sub | mul | udiv | sdiv | urem | srem | and | or | xor | shl | lshr | ashr
  | fadd | fsub | fmul | fdiv | frem
  deriving DecidableEq

def ArithOp.text : ArithOp → String
  | .add => "add"
  | .sub => "sub"
  | .mul => "mul"
  | .udiv => "udiv"
  | .sdiv => "sdiv"
  | .urem => "urem"
  | .srem => "srem"
  | .and => "and"
  | .or => "or"
  | .xor => "xor"
  | .shl => "shl"
  | .lshr => "lshr"
  | .ashr => "ashr"
  | .fadd => "fadd"
  | .fsub => "fsub"
  | .fmul => "fmul"
  | .fdiv => "fdiv"
  | .frem => "frem"

/-- Integer predicates, signed and unsigned, and ordered floating ones. -/
inductive Predicate where
  | eq | ne | ult | ule | ugt | uge | slt | sle | sgt | sge
  | oeq | one | olt | ole | ogt | oge
  deriving DecidableEq

def Predicate.text : Predicate → String
  | .eq => "icmp eq"
  | .ne => "icmp ne"
  | .ult => "icmp ult"
  | .ule => "icmp ule"
  | .ugt => "icmp ugt"
  | .uge => "icmp uge"
  | .slt => "icmp slt"
  | .sle => "icmp sle"
  | .sgt => "icmp sgt"
  | .sge => "icmp sge"
  | .oeq => "fcmp oeq"
  | .one => "fcmp one"
  | .olt => "fcmp olt"
  | .ole => "fcmp ole"
  | .ogt => "fcmp ogt"
  | .oge => "fcmp oge"

inductive Instr where
  | store (value : Value) (address : Operand)
  | load (dst : Register) (ty : IrType) (address : Operand)
  | cast (dst : Register) (op : CastOp) (value : Value) (target : IrType)
  /-- Address arithmetic from a base type along constant and computed indices. -/
  | address (dst : Register) (base : IrType) (start : Operand) (indices : List Value)
  | arith (dst : Register) (op : ArithOp) (lhs : Value) (rhs : Operand)
  | compare (dst : Register) (predicate : Predicate) (lhs : Value) (rhs : Operand)
  | negate (dst : Register) (value : Value)
  | extract (dst : Register) (aggregate : Value) (position : Nat)
  | insert (dst : Register) (aggregate : Value) (elem : Value) (position : Nat)
  | phi (dst : Register) (ty : IrType) (incoming : List (Operand × Label))
  /-- A call; `ty` is the result type, or the whole function type of a variadic callee. -/
  | call (dst : Option Register) (ty : IrType) (callee : Operand) (args : List Value)

inductive Terminator where
  | ret (value : Value)
  | retVoid
  | jump (target : Label)
  | branch (condition : Operand) (onTrue onFalse : Label)
  | switch (value : Value) (default : Label) (cases : List (Int × Label))
  | unreachable

def commaJoin (parts : List String) : String := ", ".intercalate parts

def Instr.text : Instr → String
  | .store v p => "store " ++ v.text ++ ", " ++ v.ty.display ++ "* " ++ p.text
  | .load dst ty p =>
    dst.text ++ " = load " ++ ty.display ++ ", " ++ ty.display ++ "* " ++ p.text
  | .cast dst op v target =>
    dst.text ++ " = " ++ op.text ++ " " ++ v.text ++ " to " ++ target.display
  | .address dst base start indices =>
    dst.text ++ " = getelementptr inbounds " ++
      commaJoin ([base.display, base.display ++ "* " ++ start.text] ++ indices.map Value.text)
  | .arith dst op lhs rhs => dst.text ++ " = " ++ op.text ++ " " ++ lhs.text ++ ", " ++ rhs.text
  | .compare dst p lhs rhs => dst.text ++ " = " ++ p.text ++ " " ++ lhs.text ++ ", " ++ rhs.text
  | .negate dst v => dst.text ++ " = fneg " ++ v.text
  | .extract dst v i => dst.text ++ " = extractvalue " ++ v.text ++ s!", {i}"
  | .insert dst v e i =>
    dst.text ++ " = insertvalue " ++ v.text ++ ", " ++ e.text ++ s!", {i}"
  | .phi dst ty incoming =>
    let arms := incoming.map fun (o, l) => "[ " ++ o.text ++ ", %" ++ l.text ++ " ]"
    dst.text ++ " = phi " ++ ty.display ++ " " ++ commaJoin arms
  | .call dst ty callee args =>
    let head := match dst with
      | some r => r.text ++ " = "
      | none => ""
    head ++ "call " ++ ty.display ++ " " ++ callee.text ++
      "(" ++ commaJoin (args.map Value.text) ++ ")"

def Terminator.text : Terminator → String
  | .ret v => "ret " ++ v.text
  | .retVoid => "ret void"
  | .jump l => "br label %" ++ l.text
  | .branch c t f => "br i1 " ++ c.text ++ ", label %" ++ t.text ++ ", label %" ++ f.text
  | .switch v d cases =>
    let arms := cases.map fun (n, l) => v.ty.display ++ s!" {n}, label %" ++ l.text
    "switch " ++ v.text ++ ", label %" ++ d.text ++ " [ " ++ " ".intercalate arms ++ " ]"
  | .unreachable => "unreachable"

/-- A line of a body; instructions may refer to a debug location. -/
inductive Line where
  | label (l : Label)
  | instr (i : Instr) (location : Option Nat)
  | term (t : Terminator) (location : Option Nat)

def locationSuffix : Option Nat → String
  | none => ""
  | some id => s!", !dbg !{id}"

def Line.text : Line → String
  | .label l => l.text ++ ":"
  | .instr i location => "  " ++ i.text ++ locationSuffix location
  | .term t location => "  " ++ t.text ++ locationSuffix location

end Backend
