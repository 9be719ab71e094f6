import Backend.Toolchain.Script.Pattern

/-!
How messages show names and other texts. What a reader could not see, or could take for something
else, is quoted the way a script would quote it.
-/

namespace Backend.Script.Utility

def quoted (s : String) : String := "'" ++ s ++ "'"

namespace Quoting

def escape? (c : Char) : Option String :=
  let letters : List (Char × String) :=
    [('\x07', "a"), ('\x08', "b"), ('\t', "t"), ('\n', "n"), ('\x0b', "v"), ('\x0c', "f"),
     ('\x0d', "r")]
  let digit (n : Nat) : Char := Char.ofNat (48 + n % 8)
  let octal := String.ofList [digit (c.toNat / 64), digit (c.toNat / 8), digit c.toNat]
  if Pattern.isPrintable c then none else some ((letters.lookup c).getD octal)

def isSpecial (isFirst isAll : Bool) (c : Char) : Bool :=
  !Pattern.isPrintable c ||
    c ∈ [' ', '!', '"', '$', '&', '\x27', '(', ')', '*', ':', ';', '<', '=', '>', '?', '[', '\\',
      '^', '\x60', '|'] ||
    (isFirst && c ∈ ['#', '~']) || (isAll && c ∈ ['\x7b', '\x7d'])

def isPlainInside (isFirst : Bool) (c : Char) : Bool :=
  c.isAlphanum || c ∈ [' ', '%', '\x27', '+', ',', '-', '.', '/', ':', ']', '_'] ||
    (isFirst && c ∈ ['#', '~'])

def allChars (holds : Bool → Char → Bool) (cs : List Char) : Bool :=
  (cs.take 1).all (holds true) && (cs.drop 1).all (holds false)

def closeWith (isEscaped : Bool) : List Char → String
  | [] => "'"
  | c :: rest =>
    match escape? c with
    | some e => (if isEscaped then "" else "'$'") ++ "\\" ++ e ++ closeWith true rest
    | none =>
      if c = '\x27' then "'\\''" ++ closeWith false rest
      else (if isEscaped then "''" else "") ++ String.singleton c ++ closeWith false rest

end Quoting

def quotedPath (s : String) : String :=
  let cs := s.toList
  if '\x27' ∈ cs && Quoting.allChars Quoting.isPlainInside cs then "\"" ++ s ++ "\""
  else "'" ++ Quoting.closeWith false cs

def shownPath (s : String) : String :=
  let cs := s.toList
  let isPlain (isFirst : Bool) (c : Char) : Bool := !Quoting.isSpecial isFirst (cs.length = 1) c
  if cs.isEmpty || !Quoting.allChars isPlain cs then quotedPath s else s

def quotedText (s : String) : String :=
  let shown (c : Char) : String :=
    match Quoting.escape? c with
    | some e => "\\" ++ e
    | none => if c = '\x27' || c = '\\' then "\\" ++ String.singleton c else String.singleton c
  quoted ("".intercalate (s.toList.map shown))

end Backend.Script.Utility
