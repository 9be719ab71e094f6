/-!
A command language: words with expansions, simple and compound commands, redirections. It lets a
build be tried with a script in place of the IR.
-/

namespace Backend.Script

inductive ParamOp where
  | value
  | length
  | fallback
  | alternative
  | assign
  | require
  | cut (atEnd longest : Bool)
  | unknown
  deriving DecidableEq

inductive RedirectKind where
  | read
  | write
  | overwrite
  | append
  | readWrite
  | duplicateIn
  | duplicateOut
  | document (index : Nat)
  deriving DecidableEq

structure RedirectTo (α : Type) where
  number : Nat
  kind : RedirectKind
  target : α

mutual

/-- A part of a word. What is quoted is taken as it is: it is not split and no pattern. -/
inductive Part where
  | text (s : String) (quoted : Bool)
  | param (name : String) (op : ParamOp) (orEmpty : Bool) (word : List Part) (quoted : Bool)
  | command (body : Option Command) (quoted : Bool)
  | arith (expression : List Part) (quoted : Bool)

inductive Command where
  | simple (line : Nat) (assigns words : List (List Part))
      (redirects : List (RedirectTo (List Part)))
  | redirected (line : Nat) (body : Command) (redirects : List (RedirectTo (List Part)))
  | sequence (first second : Command)
  | background (line : Nat) (body : Command)
  | subshell (line : Nat) (body : Command)
  | pipe (stages : List Command)
  | negated (body : Command)
  | andThen (first second : Command)
  | orElse (first second : Command)
  | ifThen (test body : Command) (otherwise : Option Command)
  | loop (onSuccess : Bool) (test body : Command)
  | forEach (line : Nat) (name : String) (words : List (List Part)) (body : Command)
  | choose (line : Nat) (subject : List Part) (arms : List (List (List Part) × Option Command))
  | define (name : String) (body : Command)

end

abbrev Word := List Part

abbrev Redirect := RedirectTo Word

abbrev Arm := List Word × Option Command

def isNameStart (c : Char) : Bool := c.isAlpha || c = '_'

def isNameChar (c : Char) : Bool := c.isAlphanum || c = '_'

def isName (s : String) : Bool :=
  match s.toList with
  | [] => false
  | c :: rest => isNameStart c && rest.all isNameChar

def isSpecialParam (c : Char) : Bool := c.isDigit || c ∈ ['@', '*', '#', '?', '-', '$', '!']

def isBlank (c : Char) : Bool := c = ' ' || c = '\t' || c = '\n'

namespace Word

def plain? : Word → Option String
  | [.text s false] => some s
  | _ => none

def literal (w : Word) : String :=
  "".intercalate (w.map fun
    | .text s _ => s
    | _ => "")

def assignment? : Word → Option (String × Word)
  | .text s false :: rest =>
    let name := String.ofList (s.toList.takeWhile isNameChar)
    match s.toList.dropWhile isNameChar with
    | '=' :: value =>
      if isName name then
        some (name, if value.isEmpty then rest else .text (String.ofList value) false :: rest)
      else none
    | _ => none
  | _ => none

end Word

end Backend.Script
