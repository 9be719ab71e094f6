import Backend.Toolchain.Script.Reader.Word

/-! Tokens of a script: operators, keywords, redirections and words. -/

namespace Backend.Script

def keywords : List String :=
  ["!", "case", "do", "done", "elif", "else", "esac", "fi", "for", "if", "in", "then", "until",
   "while", "\x7b", "\x7d"]

namespace Token

def shown : Token → String
  | .ending => "end of file"
  | .newline => "newline"
  | .operator s | .keyword s => "\"" ++ s ++ "\""
  | .redirect .. => "redirection"
  | .word .. => "word"

def isOperator (s : String) : Token → Bool
  | .operator t => s = t
  | _ => false

def isKeyword (s : String) : Token → Bool
  | .keyword t => s = t
  | _ => false

def endsList : Token → Bool
  | .ending => true
  | .operator s => s ∈ [")", ";;"]
  | .keyword s => s ∈ ["do", "done", "elif", "else", "esac", "fi", "then", "\x7d"]
  | _ => false

end Token

structure Expected where
  skipsBreaks : Bool := false
  keyword : Bool := false
  canBeAlias : Bool := false
  isDelimiter : Bool := false

def Expected.command : Expected := { keyword := true, canBeAlias := true }

def Expected.laterCommand : Expected :=
  { skipsBreaks := true, keyword := true, canBeAlias := true }

namespace Reader

def readOperator (c : Char) (canDouble : Bool) : Read Token := do
  advance 1
  let isDouble ← if canDouble then skip c else pure false
  return .operator (String.ofList (if isDouble then [c, c] else [c]))

def readRedirect (number : Option Nat) (sign : Char) : Read Token := do
  advance 1
  if sign = '>' then
    let number := number.getD 1
    if ← skip '>' then return .redirect number .append false
    else if ← skip '|' then return .redirect number .overwrite false
    else if ← skip '&' then return .redirect number .duplicateOut false
    else return .redirect number .write false
  else
    let number := number.getD 0
    if ← skip '<' then return .redirect number (.document 0) (← skip '-')
    else if ← skip '&' then return .redirect number .duplicateIn false
    else if ← skip '>' then return .redirect number .readWrite false
    else return .redirect number .read false

def fileNumber? (w : Word) (quoted : Bool) : Option (Option Nat) :=
  if quoted then none
  else match w with
    | [] => some none
    | [.text s false] =>
      match s.toList with
      | [c] => if c.isDigit then some (some (c.toNat - '0'.toNat)) else none
      | _ => none
    | _ => none

def scan (self : Nested) (isDelimiter : Bool) : Nat → Read Token
  | 0 => return .ending
  | n + 1 => do
    match ← peekJoined with
    | none => return .ending
    | some '\n' =>
      advance 1
      return .newline
    | some '#' =>
      advance ((← ahead).takeWhile (· ≠ '\n')).length
      scan self isDelimiter n
    | some c =>
      if c = ' ' || c = '\t' then
        advance 1
        scan self isDelimiter n
      else if c ∈ ['&', '|', ';'] then readOperator c true
      else if c ∈ ['(', ')'] then readOperator c false
      else
        let (w, quoted) ← readWord self isDelimiter
        match ← peek with
        | some c =>
          if c = '<' || c = '>' then
            match fileNumber? w quoted with
            | some number => readRedirect number c
            | none => return .word w quoted
          else return .word w quoted
        | none => return .word w quoted

def rescan (self : Nested) (isDelimiter : Bool) : Read Token := do
  let r ← get
  if r.isPutBack then
    set { r with isPutBack := false }
    return r.last
  else scan self isDelimiter r.bound

def pastBreaks (self : Nested) : Nat → Token → Read Token
  | n + 1, .newline => do
    readDocuments self
    pastBreaks self n (← rescan self false)
  | _, t => return t

def substitute (name text : String) : Read Unit :=
  let cs := text.toList
  let endsBlank := cs.getLast?.any fun c => c = ' ' || c = '\t'
  unless cs.isEmpty do
    modify fun r =>
      { r with
        bound := r.bound + cs.length
        substitutes := { name, rest := cs, endsBlank } :: r.substitutes }

def readTokenAs (self : Nested) (e : Expected) : Nat → Read Token
  | 0 => return .ending
  | n + 1 => do
    let t ← rescan self e.isDelimiter
    let t ← if e.skipsBreaks then pastBreaks self (← get).bound t else pure t
    let r ← get
    let canBeAlias := e.canBeAlias || r.aliasNext
    set { r with aliasNext := false }
    match t with
    | .word w false =>
      match w.plain? with
      | none => return t
      | some s =>
        if e.keyword && s ∈ keywords then return .keyword s
        else if canBeAlias && !r.isInUse s then
          match r.aliases.find? s with
          | some text =>
            substitute s text
            readTokenAs self { e with canBeAlias } n
          | none => return t
        else return t
    | t => return t

def readToken (self : Nested) (e : Expected := {}) : Read Token := do
  let t ← readTokenAs self e (← get).bound
  modify fun r => { r with
    last := t
    lastWord := match t with
      | .word w _ => w
      | .keyword s => [.text s false]
      | _ => r.lastWord }
  return t

def putBack : Read Unit := modify fun r => { r with isPutBack := true }

def unexpected {α : Type} (wanted : Option Token) : Read α := do
  let found := (← get).last.shown ++ " unexpected"
  match wanted with
  | some t => fail (found ++ " (expecting " ++ t.shown ++ ")")
  | none => fail found

end Reader

end Backend.Script
