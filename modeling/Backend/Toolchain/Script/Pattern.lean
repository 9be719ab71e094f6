/-! Patterns: `*` for any text, `?` for one character, brackets for one of several. -/

namespace Backend.Script

inductive CharClass where
  | range (first last : Char)
  | named (name : String)

inductive PatternItem where
  | any
  | one
  | literal (c : Char)
  | oneOf (negated : Bool) (classes : List CharClass)

abbrev Pattern := List PatternItem

namespace Pattern

def isControl (c : Char) : Bool := c < ' ' || c = '\x7f'

def isPrintable (c : Char) : Bool := ' ' ≤ c && c ≤ '~'

def namedClasses : List (String × (Char → Bool)) :=
  [("alnum", Char.isAlphanum),
   ("alpha", Char.isAlpha),
   ("blank", fun c => c = ' ' || c = '\t'),
   ("cntrl", isControl),
   ("digit", Char.isDigit),
   ("graph", fun c => isPrintable c && c ≠ ' '),
   ("lower", Char.isLower),
   ("print", isPrintable),
   ("punct", fun c => isPrintable c && c ≠ ' ' && !c.isAlphanum),
   ("space", fun c => c ∈ [' ', '\t', '\n', '\x0b', '\x0c', '\r']),
   ("upper", Char.isUpper),
   ("xdigit", fun c => c.isDigit || c.toLower ∈ ['a', 'b', 'c', 'd', 'e', 'f'])]

def order (c : Char) : Int := if c.toNat < 128 then c.toNat else (c.toNat : Int) - 256

def isIn (c : Char) : CharClass → Bool
  | .range first last => order first ≤ order c && order c ≤ order last
  | .named name => (namedClasses.lookup name).any fun p => p c

abbrev Marked := Char × Bool

def className? (cs : List Marked) : Option (String × List Marked) :=
  (namedClasses.map Prod.fst).findSome? fun name =>
    let written := (':' :: name.toList) ++ [':', ']']
    if written.isPrefixOf (cs.map Prod.fst) then some (name, cs.drop written.length) else none

def readClasses : Nat → Bool → List CharClass → List Marked →
    Option (List CharClass × List Marked)
  | 0, _, _, _ => none
  | _, _, _, [] => none
  | n + 1, isFirst, done, (c, quoted) :: rest =>
    if c = ']' && !quoted && !isFirst then some (done.reverse, rest)
    else match if c = '[' && !quoted then className? rest else none with
      | some (name, rest) => readClasses n false (.named name :: done) rest
      | none =>
        let (c, rest) := match c, quoted, rest with
          | '\\', false, (d, _) :: rest => (d, rest)
          | c, _, rest => (c, rest)
        match rest with
        | ('-', false) :: (last, lastQuoted) :: rest =>
          if last = ']' && !lastQuoted then
            readClasses n false (.range c c :: done) (('-', false) :: (last, lastQuoted) :: rest)
          else
            let (last, rest) := match last, lastQuoted, rest with
              | '\\', false, (d, _) :: rest => (d, rest)
              | last, _, rest => (last, rest)
            readClasses n false (.range c last :: done) rest
        | rest => readClasses n false (.range c c :: done) rest

def readSet (cs : List Marked) : Option (PatternItem × List Marked) := do
  let (negated, cs) := match cs with
    | ('!', false) :: rest => (true, rest)
    | cs => (false, cs)
  let (classes, rest) ← readClasses (cs.length + 1) true [] cs
  return (.oneOf negated classes, rest)

def read : Nat → List Marked → Pattern
  | _, [] => []
  | 0, cs => cs.map fun c => .literal c.1
  | n + 1, (c, true) :: rest => .literal c :: read n rest
  | n + 1, (c, false) :: rest =>
    if c = '*' then .any :: read n rest
    else if c = '?' then .one :: read n rest
    else if c = '[' then
      match readSet rest with
      | some (set, rest) => set :: read n rest
      | none => .literal c :: read n rest
    else if c = '\\' then
      match rest with
      | (d, _) :: rest => .literal d :: read n rest
      | [] => [.literal '\\']
    else .literal c :: read n rest

def ofMarked (cs : List Marked) : Pattern := read cs.length cs

def suffixes : List Char → List (List Char)
  | [] => [[]]
  | c :: rest => (c :: rest) :: suffixes rest

def fits : Pattern → List Char → Bool
  | [], cs => cs.isEmpty
  | .any :: p, cs => (suffixes cs).any (fits p)
  | .one :: p, _ :: cs => fits p cs
  | .literal c :: p, d :: cs => c = d && fits p cs
  | .oneOf negated classes :: p, d :: cs =>
    (classes.any (isIn d)) != negated && fits p cs
  | _, _ => false

def cutEnd (p : Pattern) (longest : Bool) (cs : List Char) : List Char :=
  let lengths := List.range (cs.length + 1)
  let lengths := if longest then lengths else lengths.reverse
  match lengths.find? fun n => fits p (cs.drop n) with
  | some n => cs.take n
  | none => cs

def cutHead (p : Pattern) (longest : Bool) (cs : List Char) : List Char :=
  let lengths := List.range (cs.length + 1)
  let lengths := if longest then lengths.reverse else lengths
  match lengths.find? fun n => fits p (cs.take n) with
  | some n => cs.drop n
  | none => cs

end Pattern

end Backend.Script
