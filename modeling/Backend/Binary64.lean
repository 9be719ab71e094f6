/-!
Double-precision numbers by their bit patterns. All rounding goes through one rule, the quotient
of two natural numbers taken to the nearest representable value with ties to the even neighbour.
-/

namespace Backend

def twoPow (n : Nat) : Nat := Nat.pow 2 n

/-- A double, as its sign, exponent and fraction bits. -/
structure Binary64 where
  bits : Nat
  deriving DecidableEq

namespace Binary64

def infinityBits : Nat := 2047 * twoPow 52

def signBit : Nat := twoPow 63

def isNegative (x : Binary64) : Bool := signBit ≤ x.bits

def magnitude (x : Binary64) : Nat := x.bits % signBit

def decode (x : Binary64) : Nat × Nat :=
  let exponent := x.magnitude / twoPow 52
  let fraction := x.magnitude % twoPow 52
  if exponent = 0 then (fraction, 0) else (twoPow 52 + fraction, exponent - 1)

def isZero (x : Binary64) : Bool := x.magnitude = 0

def isFinite (x : Binary64) : Bool := x.magnitude < infinityBits

def neg (x : Binary64) : Binary64 :=
  ⟨if x.isNegative then x.bits - signBit else x.bits + signBit⟩

def roundQuotient (num den : Nat) : Nat :=
  let q := num / den
  let r := num % den
  if den < 2 * r ∨ (2 * r = den ∧ q % 2 = 1) then q + 1 else q

/-- A quotient `q` and unit exponent `e` with `q * 2 ^ e` nearest to `num / den`, where `q` has at
most `precision` bits and `e` is at least `least`. -/
def roundRatio (precision : Nat) (least : Int) (num den : Nat) : Nat × Int :=
  let scaled (e : Int) : Nat × Nat :=
    if 0 ≤ e then (num, den * twoPow e.toNat) else (num * twoPow (-e).toNat, den)
  let guess : Int := (num.log2 : Int) - den.log2 - (precision - 1)
  let (n, d) := scaled guess
  let e := max least (if n / d < twoPow (precision - 1) then guess - 1 else guess)
  let (n, d) := scaled e
  (roundQuotient n d, e)

/-- The double nearest to `num / den`; too large a value is infinite. -/
def ofRatio (num den : Nat) : Binary64 :=
  if num = 0 then ⟨0⟩ else
    let (q, e) := roundRatio 53 (-1074) num den
    ⟨min infinityBits ((e + 1074).toNat * twoPow 52 + q)⟩

def ofNat (n : Nat) : Binary64 := ofRatio n 1

def ofInt (n : Int) : Binary64 :=
  if n < 0 then (ofNat n.natAbs).neg else ofNat n.natAbs

def toRatio (x : Binary64) : Nat × Nat :=
  let (m, scale) := x.decode
  (m * twoPow scale, twoPow 1074)

def mul (x y : Binary64) : Binary64 :=
  let (a, b) := x.toRatio
  let (c, d) := y.toRatio
  ofRatio (a * c) (b * d)

/-- Quotient of two nonnegative finite doubles, the second one not zero. -/
def div (x y : Binary64) : Binary64 :=
  let (a, b) := x.toRatio
  let (c, d) := y.toRatio
  ofRatio (a * d) (b * c)

def tenPow (n : Nat) : Binary64 := ofNat (Nat.pow 10 n)

/-- The value after a trip through single precision. A value beyond its range becomes infinite,
and a number that is none keeps its sign and leading fraction bits and becomes quiet. -/
def toSingle (x : Binary64) : Binary64 :=
  let sign := if x.isNegative then signBit else 0
  if x.magnitude > infinityBits then
    let payload := x.magnitude % twoPow 52 / twoPow 29
    let quiet := if payload < twoPow 22 then payload + twoPow 22 else payload
    ⟨sign + infinityBits + quiet * twoPow 29⟩
  else if x.magnitude = infinityBits ∨ x.isZero then x
  else
    let (num, den) := x.toRatio
    let (q, e) := roundRatio 24 (-149) num den
    let wide := if 0 ≤ e then ofRatio (q * twoPow e.toNat) 1 else ofRatio q (twoPow (-e).toNat)
    ⟨sign + if 104 < e ∨ (e = 104 ∧ twoPow 24 ≤ q) then infinityBits else wide.bits⟩

def hex (x : Binary64) : String :=
  let digits := (Nat.toDigits 16 x.bits).map Char.toUpper
  String.ofList (List.replicate (16 - digits.length) '0' ++ digits)

end Binary64

end Backend
