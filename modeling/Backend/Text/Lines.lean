/-! Lines of a text, and blank lines. -/

namespace Backend

def dropReturn (line : List Char) : List Char :=
  if line.getLast? = some '\r' then line.dropLast else line

/-- Splits at line feeds, a carriage return before one belonging to it. `current` is the line so
far, backwards. A text that ends with a line feed has no further line. -/
def linesFrom (current : List Char) : List Char → List (List Char)
  | [] => if current.isEmpty then [] else [current.reverse]
  | '\n' :: rest => dropReturn current.reverse :: linesFrom [] rest
  | c :: rest => linesFrom (c :: current) rest

def textLines (s : String) : List String := (linesFrom [] s.toList).map String.ofList

def blankRanges : List (Nat × Nat) :=
  [(0x09, 0x0d), (0x20, 0x20), (0x85, 0x85), (0xa0, 0xa0), (0x1680, 0x1680), (0x2000, 0x200a),
   (0x2028, 0x2029), (0x202f, 0x202f), (0x205f, 0x205f), (0x3000, 0x3000)]

def isBlankChar (c : Char) : Bool :=
  blankRanges.any fun (first, last) => first ≤ c.toNat && c.toNat ≤ last

def isBlank (s : String) : Bool := s.toList.all isBlankChar

end Backend
