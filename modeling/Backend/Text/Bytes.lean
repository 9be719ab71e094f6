/-!
Texts seen as bytes. A byte text is a text whose characters stand for bytes; reading one as UTF-8
puts U+FFFD for each longest run that begins a character and does not finish it.
-/

namespace Backend

def byteText (s : String) : String :=
  String.ofList (s.toUTF8.toList.map fun b => Char.ofNat b.toNat)

/-- A character of which some bytes are still to come. Only the next byte can have bounds of its
own. -/
structure PartialChar where
  value : Nat
  missing : Nat
  low : Nat := 0x80
  high : Nat := 0xbf

def replacementChar : Char := '�'

def beginChar (b : Nat) : Option PartialChar :=
  if b < 0xc2 then none
  else if b < 0xe0 then some { value := b - 0xc0, missing := 1 }
  else if b = 0xe0 then some { value := 0, missing := 2, low := 0xa0 }
  else if b = 0xed then some { value := 0xd, missing := 2, high := 0x9f }
  else if b < 0xf0 then some { value := b - 0xe0, missing := 2 }
  else if b = 0xf0 then some { value := 0, missing := 3, low := 0x90 }
  else if b < 0xf4 then some { value := b - 0xf0, missing := 3 }
  else if b = 0xf4 then some { value := 4, missing := 3, high := 0x8f }
  else none

def decodeFirst (b : Nat) : List Char × Option PartialChar :=
  if b < 0x80 then ([Char.ofNat b], none)
  else match beginChar b with
    | some p => ([], some p)
    | none => ([replacementChar], none)

def decodeNext (p : PartialChar) (b : Nat) : List Char × Option PartialChar :=
  if p.low ≤ b && b ≤ p.high then
    let value := p.value * 64 + (b - 0x80)
    if p.missing ≤ 1 then ([Char.ofNat value], none)
    else ([], some { value, missing := p.missing - 1 })
  else
    let (chars, under?) := decodeFirst b
    (replacementChar :: chars, under?)

def decodeBytes : Option PartialChar → List Nat → List Char
  | none, [] => []
  | some _, [] => [replacementChar]
  | none, b :: rest =>
    let (chars, under?) := decodeFirst b
    chars ++ decodeBytes under? rest
  | some p, b :: rest =>
    let (chars, under?) := decodeNext p b
    chars ++ decodeBytes under? rest

def ofByteText (s : String) : String := String.ofList (decodeBytes none (s.toList.map Char.toNat))

end Backend
