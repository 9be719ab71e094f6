import Backend.Binary64

/-! Numbers as scripts write them: integers in several bases, and doubles. -/

namespace Backend.Script

def isSpace (c : Char) : Bool := c ∈ [' ', '\t', '\n', '\x0b', '\x0c', '\r']

def isOctal (c : Char) : Bool := '0' ≤ c && c ≤ '7'

def digitValue (c : Char) : Nat :=
  if c.isDigit then c.toNat - '0'.toNat
  else if c.isLower then c.toNat - 'a'.toNat + 10
  else if c.isUpper then c.toNat - 'A'.toNat + 10
  else 99

def isDigitOf (base : Nat) (c : Char) : Bool := digitValue c < base

def valueOf (base : Nat) (digits : List Char) : Nat :=
  digits.foldl (fun n c => n * base + digitValue c) 0

def takeDigits (base : Nat) (cs : List Char) : Option (Nat × List Char) :=
  let digits := cs.takeWhile (isDigitOf base)
  if digits.isEmpty then none else some (valueOf base digits, cs.drop digits.length)

def takePrefixed : List Char → Option (Nat × List Char)
  | '0' :: x :: rest =>
    match if x = 'x' || x = 'X' then takeDigits 16 rest else none with
    | some found => some found
    | none => takeDigits 8 ('0' :: x :: rest)
  | cs => takeDigits (if cs.head? = some '0' then 8 else 10) cs

def takeSign : List Char → Bool × List Char
  | '-' :: rest => (true, rest)
  | '+' :: rest => (false, rest)
  | cs => (false, cs)

def takeInteger (prefixed : Bool) (cs : List Char) : Option (Int × List Char) := do
  let (isNegative, cs) := takeSign (cs.dropWhile isSpace)
  let (n, rest) ← if prefixed then takePrefixed cs else takeDigits 10 cs
  return (if isNegative then -(n : Int) else n, rest)

def maxInteger : Int := 9223372036854775807

def minInteger : Int := -9223372036854775808

def isInRange (n : Int) : Bool := minInteger ≤ n && n ≤ maxInteger

def clamp (n : Int) : Int := max minInteger (min maxInteger n)

def integer? (s : String) : Option Int := do
  let (n, rest) ← takeInteger false s.toList
  if rest.all isSpace && isInRange n then return n else none

def count? (s : String) : Option Nat := do
  let n ← integer? s
  if 0 ≤ n && n ≤ 2147483647 then return n.toNat else none

def digitsIn (base n : Nat) : String := String.ofList (Nat.toDigits base n)

/-! ### Doubles -/

inductive Real where
  | finite (negative : Bool) (x : Binary64)
  | infinite (negative : Bool)
  | nan (negative : Bool)

structure RealRead where
  value : Real
  rest : List Char
  outOfRange : Bool := false

def scaled (negative : Bool) (n base : Nat) (exponent : Int) (rest : List Char) : RealRead :=
  if n = 0 then { value := .finite negative ⟨0⟩, rest }
  else if 100000 < exponent then { value := .infinite negative, rest, outOfRange := true }
  else if exponent < -100000 then { value := .finite negative ⟨0⟩, rest, outOfRange := true }
  else
    let x :=
      if 0 ≤ exponent then Binary64.ofRatio (n * Nat.pow base exponent.toNat) 1
      else Binary64.ofRatio n (Nat.pow base (-exponent).toNat)
    if x.isFinite then
      { value := .finite negative x, rest, outOfRange := x.magnitude < twoPow 52 }
    else { value := .infinite negative, rest, outOfRange := true }

def takePointed (base : Nat) (cs : List Char) : Option (Nat × Nat × List Char) :=
  let whole := cs.takeWhile (isDigitOf base)
  let (fraction, rest) := match cs.drop whole.length with
    | '.' :: rest => (rest.takeWhile (isDigitOf base), rest.dropWhile (isDigitOf base))
    | rest => ([], rest)
  if whole.isEmpty && fraction.isEmpty then none
  else some (valueOf base (whole ++ fraction), fraction.length, rest)

def takeExponent (letter : Char) (cs : List Char) : Int × List Char :=
  match cs with
  | c :: rest =>
    if c.toLower = letter then
      let (isNegative, rest) := takeSign rest
      match takeDigits 10 rest with
      | some (n, rest) => (if isNegative then -(n : Int) else n, rest)
      | none => (0, cs)
    else (0, cs)
  | [] => (0, [])

def startsWithWord (word : String) (cs : List Char) : Bool :=
  word.toList.isPrefixOf (cs.map Char.toLower)

def takeHex (negative : Bool) (cs : List Char) : Option RealRead :=
  match cs with
  | '0' :: x :: rest =>
    if x = 'x' || x = 'X' then do
      let (n, places, rest) ← takePointed 16 rest
      let (exponent, rest) := takeExponent 'p' rest
      return scaled negative n 2 (exponent - 4 * places) rest
    else none
  | _ => none

def takeDecimal (negative : Bool) (cs : List Char) : Option RealRead := do
  let (n, places, rest) ← takePointed 10 cs
  let (exponent, rest) := takeExponent 'e' rest
  return scaled negative n 10 (exponent - places) rest

def takeReal (cs : List Char) : Option RealRead :=
  let (negative, cs) := takeSign (cs.dropWhile isSpace)
  if startsWithWord "infinity" cs then some { value := .infinite negative, rest := cs.drop 8 }
  else if startsWithWord "inf" cs then some { value := .infinite negative, rest := cs.drop 3 }
  else if startsWithWord "nan" cs then some { value := .nan negative, rest := cs.drop 3 }
  else (takeHex negative cs).or (takeDecimal negative cs)

/-! ### Notations -/

structure RealStyle where
  precision : Nat
  keepsPoint : Bool

def padZeros (n : Nat) (s : String) : String :=
  String.ofList (List.replicate (n - s.length) '0') ++ s

def withPoint (f : RealStyle) (places n : Nat) : String :=
  let digits := padZeros (places + 1) (toString n)
  let cut := digits.length - places
  let whole := String.ofList (digits.toList.take cut)
  if places = 0 then whole ++ (if f.keepsPoint then "." else "")
  else whole ++ "." ++ String.ofList (digits.toList.drop cut)

def fixedText (f : RealStyle) (x : Binary64) : String :=
  let (num, den) := x.toRatio
  withPoint f f.precision (Binary64.roundQuotient (num * Nat.pow 10 f.precision) den)

def tensBelow : Nat → Nat → Nat → Nat
  | 0, _, _ => 0
  | n + 1, num, den => if den ≤ num then 0 else tensBelow n (num * 10) den + 1

def scientificDigits (places : Nat) (x : Binary64) : Nat × Int :=
  let (num, den) := x.toRatio
  if num = 0 then (0, 0)
  else
    let exponent : Int :=
      if den ≤ num then ((toString (num / den)).length : Int) - 1
      else -(tensBelow 400 num den : Nat)
    let shift := (places : Int) - exponent
    let n :=
      if 0 ≤ shift then Binary64.roundQuotient (num * Nat.pow 10 shift.toNat) den
      else Binary64.roundQuotient num (den * Nat.pow 10 (-shift).toNat)
    if Nat.pow 10 (places + 1) ≤ n then (n / 10, exponent + 1) else (n, exponent)

def exponentText (letter : Char) (width : Nat) (e : Int) : String :=
  String.ofList [letter, if e < 0 then '-' else '+'] ++ padZeros width (toString e.natAbs)

def scientificText (f : RealStyle) (x : Binary64) : String :=
  let (n, e) := scientificDigits f.precision x
  withPoint f f.precision n ++ exponentText 'e' 2 e

def dropZeros (s : String) : String :=
  if '.' ∈ s.toList then
    let cs := s.toList.reverse.dropWhile (· = '0')
    String.ofList (match cs with
      | '.' :: rest => rest
      | cs => cs).reverse
  else s

def generalText (f : RealStyle) (x : Binary64) : String :=
  let digits := max f.precision 1
  let (n, e) := scientificDigits (digits - 1) x
  let tidy (s : String) : String := if f.keepsPoint then s else dropZeros s
  if -4 ≤ e && e < digits then
    tidy (fixedText { f with precision := ((digits : Int) - 1 - e).toNat } x)
  else tidy (withPoint f (digits - 1) n) ++ exponentText 'e' 2 e

def hexText (precision : Option Nat) (keepsPoint : Bool) (x : Binary64) : String :=
  let exponent := x.magnitude / twoPow 52
  let fraction := x.magnitude % twoPow 52
  let lead := if exponent = 0 then 0 else 1
  let e : Int := if x.isZero then 0 else if exponent = 0 then -1022 else (exponent : Int) - 1023
  let whole := lead * twoPow 52 + fraction
  let (lead, digits) := match precision with
    | some p =>
      if p < 13 then
        let unit := twoPow (4 * (13 - p))
        let n := Binary64.roundQuotient whole unit
        let base := twoPow (4 * p)
        (n / base, if p = 0 then "" else padZeros p (digitsIn 16 (n % base)))
      else (lead, padZeros 13 (digitsIn 16 fraction) ++ String.ofList (List.replicate (p - 13) '0'))
    | none =>
      let digits := (padZeros 13 (digitsIn 16 fraction)).toList.reverse.dropWhile (· = '0')
      (lead, String.ofList digits.reverse)
  let point := if digits ≠ "" || keepsPoint then "." else ""
  "0x" ++ toString lead ++ point ++ digits ++ exponentText 'p' 1 e

end Backend.Script
