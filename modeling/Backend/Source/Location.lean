/-! Places in source text. Line 0 means that the place is not known. -/

namespace Backend

structure Location where
  file : String := ""
  line : Nat := 0
  column : Nat := 0
  deriving DecidableEq

namespace Location

def isUnknown (l : Location) : Bool := l.line = 0

def display (l : Location) : String :=
  let file := if l.file.isEmpty then "<unknown>" else l.file
  s!"{file}:{l.line}:{l.column}"

end Location

end Backend
