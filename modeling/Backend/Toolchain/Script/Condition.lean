import Backend.Toolchain.Script.Number

/-! Conditions that a script can test for. -/

namespace Backend.Script.Condition

inductive FileQuestion where
  | exists | isFile | isDirectory | isDevice | isReadable | isWritable | isExecutable | isNonEmpty
  | isLink | other
  deriving DecidableEq

inductive Unary where
  | isEmpty
  | nonEmpty
  | isTerminal
  | file (q : FileQuestion)

inductive Operator where
  | unary (op : Unary)
  | binary (op : String)
  | negation
  | conjunction
  | disjunction
  | opening
  | closing

structure Answers where
  file : FileQuestion → String → Bool
  same : String → String → Bool

def unaryOperators : List (String × Unary) :=
  [("-z", .isEmpty), ("-n", .nonEmpty), ("-t", .isTerminal),
   ("-e", .file .exists), ("-f", .file .isFile), ("-d", .file .isDirectory),
   ("-c", .file .isDevice), ("-r", .file .isReadable), ("-w", .file .isWritable),
   ("-x", .file .isExecutable), ("-s", .file .isNonEmpty),
   ("-h", .file .isLink), ("-L", .file .isLink),
   ("-b", .file .other), ("-p", .file .other), ("-u", .file .other), ("-g", .file .other),
   ("-k", .file .other), ("-S", .file .other), ("-O", .file .exists), ("-G", .file .exists)]

def binaryOperators : List String :=
  ["=", "!=", "<", ">", "-eq", "-ne", "-ge", "-gt", "-le", "-lt", "-nt", "-ot", "-ef"]

def operator? (s : String) : Option Operator :=
  match s with
  | "!" => some .negation
  | "-a" => some .conjunction
  | "-o" => some .disjunction
  | "(" => some .opening
  | ")" => some .closing
  | s =>
    if s ∈ binaryOperators then some (.binary s)
    else (unaryOperators.lookup s).map .unary

def isBinary (s : String) : Bool := s ∈ binaryOperators

def isOperand : List String → Bool
  | [] => true
  | [_] => false
  | next :: _ => isBinary next

def lex : List String → Option Operator
  | [] => none
  | s :: rest =>
    match operator? s with
    | some (.unary op) => if isOperand rest then none else some (.unary op)
    | some .opening => if rest.isEmpty then none else some .opening
    | op => op

abbrev Result := Except String

def number (s : String) : Result Int :=
  match integer? s with
  | some n => .ok n
  | none => .error ("Illegal number: " ++ s)

def complaint (what message : String) : String :=
  if what = "" then message else what ++ ": " ++ message

def evalUnary (w : Answers) (op : Unary) (s : String) : Result Bool :=
  match op with
  | .isEmpty => .ok (s = "")
  | .nonEmpty => .ok (s ≠ "")
  | .isTerminal => do
    let _ ← number s
    return false
  | .file q => .ok (w.file q s)

def compare (w : Answers) (op a b : String) : Result Bool :=
  match op with
  | "=" => .ok (a = b)
  | "!=" => .ok (a ≠ b)
  | "<" => .ok (a < b)
  | ">" => .ok (b < a)
  | "-nt" | "-ot" => .ok false
  | "-ef" => .ok (w.same a b)
  | op => do
    let a ← number a
    let b ← number b
    return match op with
      | "-eq" => a = b
      | "-ne" => a ≠ b
      | "-ge" => b ≤ a
      | "-gt" => b < a
      | "-le" => a ≤ b
      | _ => a < b

abbrev Step := Result (Bool × List String)

def simple (w : Answers) (args : List String) : Step :=
  match lex args, args with
  | some (.unary op), name :: rest =>
    match rest with
    | [] => .error (complaint name "argument expected")
    | s :: _ => return (← evalUnary w op s, rest)
  | _, a :: op :: rest =>
    if isBinary op then
      match rest with
      | [] => .error (complaint op "argument expected")
      | b :: _ => return (← compare w op a b, rest)
    else .ok (a ≠ "", args)
  | _, a :: rest => .ok (a ≠ "", a :: rest)
  | _, [] => .ok (false, [])

mutual

def disjunction (w : Answers) : Nat → Bool → List String → Step
  | 0, _, args => .ok (false, args)
  | n + 1, isOperand, args => do
    let (a, args) ← conjunction w n isOperand args
    match lex (args.drop 1) with
    | some .disjunction =>
      let (b, args) ← disjunction w n false (args.drop 2)
      return (a || b, args)
    | _ => return (a, args)

def conjunction (w : Answers) : Nat → Bool → List String → Step
  | 0, _, args => .ok (false, args)
  | n + 1, isOperand, args => do
    let (a, args) ← negation w n isOperand args
    match lex (args.drop 1) with
    | some .conjunction =>
      let (b, args) ← conjunction w n false (args.drop 2)
      return (a && b, args)
    | _ => return (a, args)

def negation (w : Answers) : Nat → Bool → List String → Step
  | 0, _, args => .ok (false, args)
  | n + 1, isOperand, args => do
    match if isOperand then none else lex args with
    | some .negation =>
      match args.drop 1 with
      | [] => return (true, args)
      | rest =>
        let (a, rest) ← negation w n false rest
        return (!a, rest)
    | op => primary w n op args

def primary (w : Answers) : Nat → Option Operator → List String → Step
  | 0, _, args => .ok (false, args)
  | n + 1, op, args => do
    match op, args with
    | _, [] => return (false, [])
    | some .opening, _ :: inner =>
      match lex inner with
      | some .closing => return (false, inner)
      | _ =>
        let (a, rest) ← disjunction w n false inner
        match lex (rest.drop 1) with
        | some .closing => return (a, rest.drop 1)
        | _ => .error "closing paren expected"
    | _, args => simple w args

end

def whole (w : Answers) (isOperand : Bool) (args : List String) : Result Bool := do
  let (a, rest) ← disjunction w (4 * args.length + 4) isOperand args
  match rest with
  | first :: _ :: _ => .error (complaint first "unexpected operator")
  | _ => return a

def eval (w : Answers) (args : List String) : Result Bool :=
  match args with
  | [] => .ok false
  | [a, op, b] =>
    if isBinary op then whole w true args
    else if a = "(" && b = ")" then whole w false [op]
    else if a = "!" then return !(← whole w false [op, b])
    else whole w false args
  | [a, b, c, d] =>
    if a = "(" && d = ")" then whole w false [b, c]
    else if a = "!" then return !(← eval w [b, c, d])
    else whole w false args
  | args => whole w false args
termination_by args.length

end Backend.Script.Condition
