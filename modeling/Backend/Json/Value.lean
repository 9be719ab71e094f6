import Backend.Binary64

/-!
JSON values and their compact text. An object keeps its members in the order written, repeated
names included, since a reader of records has to see the repetition.
-/

namespace Backend

inductive Json where
  | null
  | bool (b : Bool)
  | int (n : Int)
  | float (x : Binary64)
  | string (s : String)
  | array (items : List Json)
  | object (members : List (String × Json))
  /-- Text that is well formed but stands for no value: a number beyond the doubles, a string with
  an unpaired surrogate, or nesting that was cut off. -/
  | unreadable (text : String)

namespace Json

def hexDigit (n : Nat) : Char := Nat.digitChar n

def escapeChar (c : Char) : List Char :=
  if c = '"' then ['\\', '"']
  else if c = '\\' then ['\\', '\\']
  else if c = '\n' then ['\\', 'n']
  else if c = '\r' then ['\\', 'r']
  else if c = '\t' then ['\\', 't']
  else if c.toNat = 8 then ['\\', 'b']
  else if c.toNat = 12 then ['\\', 'f']
  else if c.toNat < 32 then
    ['\\', 'u', '0', '0', hexDigit (c.toNat / 16), hexDigit (c.toNat % 16)]
  else [c]

def quote (s : String) : List Char := '"' :: (s.toList.flatMap escapeChar ++ ['"'])

def intText (n : Int) : List Char :=
  if n < 0 then '-' :: Nat.toDigits 10 n.natAbs else Nat.toDigits 10 n.natAbs

mutual

/-- Compact text. A double is written by its bits, so nothing is lost. -/
def text : Json → List Char
  | .null => "null".toList
  | .bool true => "true".toList
  | .bool false => "false".toList
  | .int n => intText n
  | .float x => quote ("f64:" ++ x.hex)
  | .string s => quote s
  | .array items => '[' :: (itemsText items ++ [']'])
  | .object members => '\x7b' :: (membersText members ++ ['\x7d'])
  | .unreadable raw => raw.toList

def itemsText : List Json → List Char
  | [] => []
  | [item] => text item
  | item :: rest => text item ++ ',' :: itemsText rest

def membersText : List (String × Json) → List Char
  | [] => []
  | [(name, value)] => quote name ++ ':' :: text value
  | (name, value) :: rest => quote name ++ ':' :: (text value ++ ',' :: membersText rest)

end

def render (j : Json) : String := String.ofList j.text

mutual

/-- Replaces every array and object below `levels` nested ones by an unreadable value. -/
def cut : Nat → Json → Json
  | 0, .array _ => .unreadable "[]"
  | 0, .object _ => .unreadable "\x7b\x7d"
  | n + 1, .array items => .array (cutItems n items)
  | n + 1, .object members => .object (cutMembers n members)
  | _, j => j

def cutItems (n : Nat) : List Json → List Json
  | [] => []
  | item :: rest => cut n item :: cutItems n rest

def cutMembers (n : Nat) : List (String × Json) → List (String × Json)
  | [] => []
  | (name, value) :: rest => (name, cut n value) :: cutMembers n rest

end

def member? (name : String) : Json → Option Json
  | .object members => members.lookup name
  | _ => none

end Json

end Backend
