import Backend.Table
import Backend.Toolchain.Script.Basic

/-! The characters of a script, with the texts of aliases put in front of them. -/

namespace Backend.Script

structure Mistake where
  line : Nat
  text : String

structure Substitute where
  name : String
  rest : List Char
  endsBlank : Bool

structure Announced where
  index : Nat
  delimiter : List Char
  isLiteral : Bool
  dropsTabs : Bool

inductive Token where
  | ending
  | newline
  | operator (s : String)
  | keyword (s : String)
  | redirect (number : Nat) (kind : RedirectKind) (dropsTabs : Bool)
  | word (w : Word) (quoted : Bool)

structure Reader where
  input : List Char
  bound : Nat := input.length + 1
  line : Nat := 1
  aliases : Table String := {}
  substitutes : List Substitute := []
  ended : List String := []
  aliasNext : Bool := false
  last : Token := .ending
  isPutBack : Bool := false
  lastWord : Word := []
  announced : List Announced := []
  documents : Array Word := #[]

abbrev Read := EStateM Mistake Reader

namespace Reader

def fail {α : Type} (text : String) : Read α := do throw { line := (← get).line, text }

def settle (r : Reader) : List Substitute → Reader
  | [] => { r with substitutes := [] }
  | s :: rest =>
    if s.rest.isEmpty then
      settle { r with ended := s.name :: r.ended, aliasNext := r.aliasNext || s.endsBlank } rest
    else { r with substitutes := s :: rest }

def ahead : Read (List Char) := do
  modify fun r => r.settle r.substitutes
  let r ← get
  match r.substitutes with
  | s :: _ => return s.rest
  | [] => return r.input

def peek : Read (Option Char) := return (← ahead).head?

def advance (n : Nat) : Read Unit := do
  for _ in List.range n do
    let cs ← ahead
    modify fun r =>
      let r := { r with ended := [], line := if cs.head? = some '\n' then r.line + 1 else r.line }
      match r.substitutes with
      | s :: rest => { r with substitutes := { s with rest := s.rest.drop 1 } :: rest }
      | [] => { r with input := r.input.drop 1 }

def next : Read (Option Char) := do
  let c ← peek
  advance 1
  return c

def joints : List Char → Nat
  | '\\' :: '\n' :: rest => joints rest + 1
  | _ => 0

def peekJoined : Read (Option Char) := do
  advance (2 * joints (← ahead))
  peek

def nextJoined : Read (Option Char) := do
  let c ← peekJoined
  advance 1
  return c

def nextOnLine : Read (Option Char) := do
  let c ← peekJoined
  let line := (← get).line
  advance 1
  modify fun r => { r with line }
  return c

def skip (c : Char) : Read Bool := do
  if (← peekJoined) = some c then
    advance 1
    return true
  else return false

def takeWhile (kind : Char → Bool) : Nat → List Char → Read (List Char)
  | 0, done => return done.reverse
  | n + 1, done => do
    match ← peekJoined with
    | some c =>
      if kind c then
        advance 1
        takeWhile kind n (c :: done)
      else return done.reverse
    | none => return done.reverse

def takeName : Read String := return String.ofList (← takeWhile isNameChar (← get).bound [])

def isInUse (r : Reader) (name : String) : Bool :=
  name ∈ r.ended || r.substitutes.any fun s => s.name = name

end Reader

end Backend.Script
