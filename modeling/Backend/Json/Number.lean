import Backend.Json.Value

/-!
What the text of a number stands for. Digits are taken up as long as they fit in 64 bits; an
integer without fraction and exponent that fits stays exact, anything else becomes a double by one
multiplication or division with a power of ten.
-/

namespace Backend.Json

/-- A number as written. -/
structure Numeral where
  negative : Bool
  whole : List Nat
  fraction : List Nat := []
  /-- Sign and digits after the exponent mark, if there is one. -/
  exponent : Option (Bool × List Nat) := none

/-- Reads digits into `acc` while the result is below `2 ^ 64`; also the number of digits left. -/
def takeDigits (acc : Nat) : List Nat → Nat × Nat
  | [] => (acc, 0)
  | d :: ds =>
    if acc * 10 + d < twoPow 64 then takeDigits (acc * 10 + d) ds else (acc, ds.length + 1)

def digitsValue (ds : List Nat) : Nat := ds.foldl (fun acc d => acc * 10 + d) 0

def maxTenPow : Nat := 308

/-- Division by `10 ^ e` in steps of the largest power; a few steps take any significand to zero. -/
def scaleDown : Nat → Binary64 → Nat → Binary64
  | 0, _, _ => ⟨0⟩
  | k + 1, x, e =>
    if e ≤ maxTenPow then x.div (.tenPow e)
    else if x.isZero then x
    else scaleDown k (x.div (.tenPow maxTenPow)) (e - maxTenPow)

def scale (x : Binary64) (e : Int) : Option Binary64 :=
  if e < 0 then some (scaleDown 4 x e.natAbs)
  else if x.isZero then some x
  else if e.natAbs ≤ maxTenPow then
    let y := x.mul (.tenPow e.natAbs)
    if y.isFinite then some y else none
  else none

namespace Numeral

def signed (n : Numeral) (x : Binary64) : Binary64 := if n.negative then x.neg else x

def exponentValue (n : Numeral) : Int :=
  match n.exponent with
  | none => 0
  | some (negative, ds) => if negative then -(digitsValue ds : Int) else digitsValue ds

/-- An exact integer, a double, or nothing when the magnitude is beyond the doubles. -/
def value? (n : Numeral) : Option Json :=
  let (whole, unread) := takeDigits 0 n.whole
  if unread = 0 ∧ n.fraction.isEmpty ∧ n.exponent.isNone then
    if !n.negative then some (.int whole)
    else if whole = 0 ∨ twoPow 63 < whole then some (.float (n.signed (.ofNat whole)))
    else some (.int (-(whole : Int)))
  else
    let (significand, dropped) := takeDigits whole n.fraction
    let e : Int := unread - ((n.fraction.length - dropped : Nat) : Int) + n.exponentValue
    (scale (.ofNat significand) e).map fun x => .float (n.signed x)

end Numeral

end Backend.Json
