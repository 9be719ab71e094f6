/-!
Paths as a host reads them. A path is a way to walk: each part is looked up in what the parts
before it lead to, so a part is never dropped by looking at the text alone.
-/

namespace Backend

/-- A path in parts. A path that ends with a slash leads to a directory. -/
structure Path where
  isAbsolute : Bool
  parts : List String
  endsWithSlash : Bool

namespace Path

def split (current : List Char) : List Char → List String
  | [] => [String.ofList current.reverse]
  | '/' :: rest => String.ofList current.reverse :: split [] rest
  | c :: rest => split (c :: current) rest

def ofString (path : String) : Path where
  isAbsolute := path.toList.head? = some '/'
  parts := (split [] path.toList).filter (· ≠ "")
  endsWithSlash := path.toList.getLast? = some '/'

end Path

def maxNameBytes : Nat := 255

def maxPathBytes : Nat := 4095

def maxArgumentBytes : Nat := 131071

end Backend
