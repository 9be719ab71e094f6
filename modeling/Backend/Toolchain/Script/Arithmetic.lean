import Backend.Table
import Backend.Toolchain.Script.Basic
import Backend.Toolchain.Script.Number

/-!
Integer expressions of 64 bits. They are evaluated as they are read; a part that does not count is
read all the same, without its effects.
-/

namespace Backend.Script.Arith

inductive Token where
  | number (n : Int)
  | name (s : String)
  | operator (s : String)
  | unreadable

inductive Fault where
  | wrong (what : String)
  | notNumber (value : String)
  | readOnly (name : String)
  | overflow

def operators : List String :=
  ["<<=", ">>=", "+=", "-=", "*=", "/=", "%=", "&=", "|=", "^=",
   "<<", ">>", "<=", ">=", "==", "!=", "&&", "||",
   "+", "-", "*", "/", "%", "<", ">", "!", "~", "&", "|", "^", "(", ")", "?", ":", "="]

def tokens : Nat → List Char → List Token
  | _, [] => []
  | 0, _ => []
  | n + 1, c :: rest =>
    if isBlank c then tokens n rest
    else if c.isDigit then
      match takePrefixed (c :: rest) with
      | some (value, rest) => .number (clamp value) :: tokens n rest
      | none => [.unreadable]
    else if isNameStart c then
      let name := String.ofList (c :: rest.takeWhile isNameChar)
      .name name :: tokens n (rest.dropWhile isNameChar)
    else match operators.find? fun op => op.toList.isPrefixOf (c :: rest) with
      | some op => .operator op :: tokens n ((c :: rest).drop op.length)
      | none => [.unreadable]

def rank : String → Option Nat
  | "|" => some 1
  | "^" => some 2
  | "&" => some 3
  | "==" | "!=" => some 4
  | "<" | "<=" | ">" | ">=" => some 5
  | "<<" | ">>" => some 6
  | "+" | "-" => some 7
  | "*" | "/" | "%" => some 8
  | _ => none

def wrap (n : Int) : Int := n.bmod 18446744073709551616

def truth (b : Bool) : Int := if b then 1 else 0

def bits (n : Int) : BitVec 64 := BitVec.ofInt 64 n

def divide (op : String) (a b : Int) : Except Fault Int :=
  if b = 0 then .error (.wrong "division by zero")
  else if a = minInteger && b = -1 then .error .overflow
  else if op = "/" then .ok (a.tdiv b)
  else .ok (a.tmod b)

def apply (op : String) (a b : Int) : Except Fault Int :=
  match op with
  | "|" => .ok (bits a ||| bits b).toInt
  | "^" => .ok (bits a ^^^ bits b).toInt
  | "&" => .ok (bits a &&& bits b).toInt
  | "==" => .ok (truth (a = b))
  | "!=" => .ok (truth (a ≠ b))
  | "<" => .ok (truth (a < b))
  | "<=" => .ok (truth (a ≤ b))
  | ">" => .ok (truth (b < a))
  | ">=" => .ok (truth (b ≤ a))
  | "<<" => .ok (bits a <<< (b % 64).toNat).toInt
  | ">>" => .ok ((bits a).sshiftRight (b % 64).toNat).toInt
  | "+" => .ok (wrap (a + b))
  | "-" => .ok (wrap (a - b))
  | "*" => .ok (wrap (a * b))
  | op => divide op a b

structure Variables where
  value : String → Option String
  isReadOnly : String → Bool

structure Calc where
  tokens : List Token
  assigned : Table Int := {}

abbrev Step := StateT Calc (Except Fault)

def next : Step (Option Token) := do
  let c ← get
  set { c with tokens := c.tokens.drop 1 }
  return c.tokens.head?

def wrong {α : Type} (what : String) : Step α := throw (.wrong what)

def lookup (vars : Variables) (name : String) : Step Int := do
  match (← get).assigned.find? name with
  | some n => return n
  | none =>
    match vars.value name with
    | none => return 0
    | some v =>
      match takeInteger true v.toList with
      | some (n, rest) =>
        if rest.all isSpace && isInRange n then return n else throw (.notNumber v)
      | none => if v.toList.all isSpace then return 0 else throw (.notNumber v)

def assign (vars : Variables) (name : String) (n : Int) : Step Int := do
  if vars.isReadOnly name then throw (.readOnly name)
  modify fun c => { c with assigned := c.assigned.insert name n }
  return n

def combining? (op : String) : Option String :=
  match op.toList.reverse with
  | '=' :: rest =>
    let inner := String.ofList rest.reverse
    if inner ∈ ["+", "-", "*", "/", "%", "&", "|", "^", "<<", ">>"] then some inner else none
  | _ => none

mutual

def operand (vars : Variables) (counts : Bool) : Nat → Step Int
  | 0 => wrong "expecting primary"
  | n + 1 => do
    match ← next with
    | some (.number k) => return k
    | some (.name s) => if counts then lookup vars s else return 0
    | some (.operator "-") => return wrap (-(← operand vars counts n))
    | some (.operator "+") => operand vars counts n
    | some (.operator "!") => return truth ((← operand vars counts n) = 0)
    | some (.operator "~") => return -(← operand vars counts n) - 1
    | some (.operator "(") =>
      let a ← expression vars counts n
      match ← next with
      | some (.operator ")") => return a
      | _ => wrong "expecting ')'"
    | _ => wrong "expecting primary"

def joined (vars : Variables) (counts : Bool) (least : Nat) (a : Int) : Nat → Step Int
  | 0 => return a
  | n + 1 => do
    match (← get).tokens with
    | .operator op :: rest =>
      match rank op with
      | some r =>
        if r < least then return a
        else
          modify fun c => { c with tokens := rest }
          let b ← operand vars counts n
          let b ← joined vars counts (r + 1) b n
          let a ← if counts then apply op a b else pure b
          joined vars counts least a n
      | none => return a
    | _ => return a

def conjunction (vars : Variables) (counts : Bool) : Nat → Step Int
  | 0 => wrong "expecting primary"
  | n + 1 => do
    let a ← operand vars counts n
    let a ← joined vars counts 0 a n
    match (← get).tokens with
    | .operator "&&" :: rest =>
      modify fun c => { c with tokens := rest }
      let b ← conjunction vars (counts && a ≠ 0) n
      return truth (a ≠ 0 && b ≠ 0)
    | _ => return a

def disjunction (vars : Variables) (counts : Bool) : Nat → Step Int
  | 0 => wrong "expecting primary"
  | n + 1 => do
    let a ← conjunction vars counts n
    match (← get).tokens with
    | .operator "||" :: rest =>
      modify fun c => { c with tokens := rest }
      let b ← disjunction vars (counts && a = 0) n
      return truth (a ≠ 0 || b ≠ 0)
    | _ => return a

def conditional (vars : Variables) (counts : Bool) : Nat → Step Int
  | 0 => wrong "expecting primary"
  | n + 1 => do
    let a ← disjunction vars counts n
    match (← get).tokens with
    | .operator "?" :: rest =>
      modify fun c => { c with tokens := rest }
      let b ← expression vars (counts && a ≠ 0) n
      match ← next with
      | some (.operator ":") =>
        let d ← conditional vars (counts && a = 0) n
        return if a = 0 then d else b
      | _ => wrong "expecting ':'"
    | _ => return a

def expression (vars : Variables) (counts : Bool) : Nat → Step Int
  | 0 => wrong "expecting primary"
  | n + 1 => do
    match (← get).tokens with
    | .name s :: .operator "=" :: rest =>
      modify fun c => { c with tokens := rest }
      let a ← expression vars counts n
      if counts then assign vars s a else return a
    | .name s :: .operator op :: rest =>
      match combining? op with
      | some inner =>
        modify fun c => { c with tokens := rest }
        let b ← expression vars counts n
        if counts then assign vars s (← apply inner (← lookup vars s) b) else return b
      | none => conditional vars counts n
    | _ => conditional vars counts n

end

def eval (vars : Variables) (source : String) : Except Fault (Int × Table Int) := do
  let ts := tokens source.length source.toList
  let (a, c) ← (expression vars true (6 * ts.length + 6)).run { tokens := ts }
  if c.tokens.isEmpty then return (a, c.assigned) else .error (.wrong "expecting EOF")

end Backend.Script.Arith
