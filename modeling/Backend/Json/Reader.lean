import Backend.Json.Number

/-!
The JSON reader. It accepts exactly the JSON grammar: four blank characters, no comments, no
trailing commas, no text after the value. Each nested call is paid for by a unit of fuel, and two
units for every character are enough.
-/

namespace Backend.Json

def isBlank (c : Char) : Bool := c = ' ' || c = '\t' || c = '\n' || c = '\r'

def skipBlank (cs : List Char) : List Char := cs.dropWhile isBlank

def digit? (c : Char) : Option Nat :=
  if '0' ≤ c ∧ c ≤ '9' then some (c.toNat - '0'.toNat) else none

def hexDigit? (c : Char) : Option Nat :=
  if '0' ≤ c ∧ c ≤ '9' then some (c.toNat - '0'.toNat)
  else if 'a' ≤ c ∧ c ≤ 'f' then some (c.toNat - 'a'.toNat + 10)
  else if 'A' ≤ c ∧ c ≤ 'F' then some (c.toNat - 'A'.toNat + 10)
  else none

def digits : List Char → List Nat × List Char
  | [] => ([], [])
  | c :: cs =>
    match digit? c with
    | some d => let (ds, rest) := digits cs; (d :: ds, rest)
    | none => ([], c :: cs)

def fraction : List Char → Option (List Nat × List Char)
  | '.' :: cs =>
    match digits cs with
    | ([], _) => none
    | found => some found
  | cs => some ([], cs)

def exponentDigits (negative : Bool) (cs : List Char) :
    Option (Option (Bool × List Nat) × List Char) :=
  match digits cs with
  | ([], _) => none
  | (ds, rest) => some (some (negative, ds), rest)

def exponent : List Char → Option (Option (Bool × List Nat) × List Char)
  | c :: cs =>
    if c = 'e' ∨ c = 'E' then
      match cs with
      | '+' :: cs => exponentDigits false cs
      | '-' :: cs => exponentDigits true cs
      | cs => exponentDigits false cs
    else some (none, c :: cs)
  | [] => some (none, [])

def wholePart (cs : List Char) : Option (List Nat × List Char) :=
  match digits cs with
  | ([], _) => none
  | (0 :: _ :: _, _) => none
  | found => some found

def number (cs : List Char) : Option (Json × List Char) := do
  let (negative, body) := match cs with
    | '-' :: rest => (true, rest)
    | rest => (false, rest)
  let (whole, afterWhole) ← wholePart body
  let (frac, afterFraction) ← fraction afterWhole
  let (exp, rest) ← exponent afterFraction
  let numeral : Numeral := { negative, whole, fraction := frac, exponent := exp }
  match numeral.value? with
  | some v => some (v, rest)
  | none => some (.unreadable (String.ofList (cs.take (cs.length - rest.length))), rest)

/-! ### Strings -/

def hexQuad? (a b c d : Char) : Option Nat := do
  let a ← hexDigit? a
  let b ← hexDigit? b
  let c ← hexDigit? c
  let d ← hexDigit? d
  some (((a * 16 + b) * 16 + c) * 16 + d)

def simpleEscape? (c : Char) : Option Char :=
  if c = '"' ∨ c = '\\' ∨ c = '/' then some c
  else if c = 'b' then some '\x08'
  else if c = 'f' then some '\x0c'
  else if c = 'n' then some '\n'
  else if c = 'r' then some '\r'
  else if c = 't' then some '\t'
  else none

/-- One unit of a string as written: a character, or a 16-bit number from a hexadecimal escape. -/
inductive Unit16 where
  | char (c : Char)
  | code (n : Nat)

def units : List Char → Option (List Unit16 × List Char)
  | [] => none
  | '"' :: rest => some ([], rest)
  | '\\' :: 'u' :: a :: b :: c :: d :: rest => do
    let code ← hexQuad? a b c d
    let (us, rest) ← units rest
    some (.code code :: us, rest)
  | '\\' :: e :: rest => do
    let c ← simpleEscape? e
    let (us, rest) ← units rest
    some (.char c :: us, rest)
  | c :: rest =>
    if c = '\\' ∨ c.toNat < 32 then none
    else do
      let (us, rest) ← units rest
      some (.char c :: us, rest)

def isLeading (n : Nat) : Bool := 0xD800 ≤ n && n < 0xDC00

def isTrailing (n : Nat) : Bool := 0xDC00 ≤ n && n < 0xE000

/-- The text the units spell; nothing if a surrogate has no partner. -/
def spell : List Unit16 → Option (List Char)
  | [] => some []
  | .char c :: rest => (spell rest).map (c :: ·)
  | .code lead :: rest =>
    if isLeading lead then
      match rest with
      | .code trail :: rest =>
        if isTrailing trail then
          let point := 0x10000 + (lead - 0xD800) * 0x400 + (trail - 0xDC00)
          (spell rest).map (Char.ofNat point :: ·)
        else none
      | _ => none
    else if isTrailing lead then none
    else (spell rest).map (Char.ofNat lead :: ·)

/-- The rest of a string after its opening quote. The text is missing when it cannot be spelled. -/
def stringBody (cs : List Char) : Option (Option String × List Char) := do
  let (us, rest) ← units cs
  some ((spell us).map String.ofList, rest)

/-! ### Values -/

/-- Joins members; one unreadable name makes the whole object unreadable. -/
def consMember (name : Option String) (value : Json) : Json → Json
  | .object members =>
    match name with
    | some name => .object ((name, value) :: members)
    | none => .unreadable "\x7b\x7d"
  | other => other

mutual

def value : Nat → List Char → Option (Json × List Char)
  | 0, _ => none
  | n + 1, cs =>
    match skipBlank cs with
    | 'n' :: 'u' :: 'l' :: 'l' :: rest => some (.null, rest)
    | 't' :: 'r' :: 'u' :: 'e' :: rest => some (.bool true, rest)
    | 'f' :: 'a' :: 'l' :: 's' :: 'e' :: rest => some (.bool false, rest)
    | '"' :: rest => do
      let (s, rest) ← stringBody rest
      some ((s.map Json.string).getD (.unreadable "\"\""), rest)
    | '[' :: rest =>
      match skipBlank rest with
      | ']' :: rest => some (.array [], rest)
      | rest => do
        let (items, rest) ← items n rest
        some (.array items, rest)
    | '\x7b' :: rest =>
      match skipBlank rest with
      | '\x7d' :: rest => some (.object [], rest)
      | rest => members n rest
    | rest => number rest

def items : Nat → List Char → Option (List Json × List Char)
  | 0, _ => none
  | n + 1, cs => do
    let (item, rest) ← value n cs
    match skipBlank rest with
    | ',' :: rest => do
      let (more, rest) ← items n rest
      some (item :: more, rest)
    | ']' :: rest => some ([item], rest)
    | _ => none

def members : Nat → List Char → Option (Json × List Char)
  | 0, _ => none
  | n + 1, cs =>
    match skipBlank cs with
    | '"' :: rest => do
      let (name, rest) ← stringBody rest
      match skipBlank rest with
      | ':' :: rest => do
        let (v, rest) ← value n rest
        match skipBlank rest with
        | ',' :: rest => do
          let (more, rest) ← members n rest
          some (consMember name v more, rest)
        | '\x7d' :: rest => some (consMember name v (.object []), rest)
        | _ => none
      | _ => none
    | _ => none

end

def parse? (s : String) : Option Json :=
  let cs := s.toList
  match value (2 * cs.length + 2) cs with
  | some (v, rest) => if (skipBlank rest).isEmpty then some v else none
  | none => none

end Backend.Json
