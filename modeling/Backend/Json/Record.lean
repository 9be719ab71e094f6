import Backend.Json.Reader

/-!
Reading records and tagged variants out of JSON values. A record is an object, whose unknown
members are ignored, or an array of its fields in declared order. A variant is an object with one
member, or a plain string when it carries nothing.
-/

namespace Backend.Json

inductive ReadError where
  | notJson
  | expected (what : String)
  | missingField (name : String)
  | repeatedField (name : String)
  | unknownVariant (name : String)
  deriving DecidableEq

def ReadError.message : ReadError → String
  | .notJson => "the text is no JSON value"
  | .expected what => "expected " ++ what
  | .missingField name => "missing field '" ++ name ++ "'"
  | .repeatedField name => "field '" ++ name ++ "' is given twice"
  | .unknownVariant name => "unknown variant '" ++ name ++ "'"

abbrev Read (α : Type) := Except ReadError α

abbrev Record := List (String × Json)

def firstRepeated? : List String → Option String
  | [] => none
  | n :: ns => if n ∈ ns then some n else firstRepeated? ns

def record (names : List String) : Json → Read Record
  | .object members =>
    let known := members.filter fun m => m.1 ∈ names
    match firstRepeated? (known.map Prod.fst) with
    | some name => .error (.repeatedField name)
    | none => .ok known
  | .array items =>
    if names.length < items.length then .error (.expected "no further fields")
    else .ok (names.zip items)
  | _ => .error (.expected "a record")

namespace Record

variable {α : Type}

def required (r : Record) (name : String) (read : Json → Read α) : Read α :=
  match r.lookup name with
  | some j => read j
  | none => .error (.missingField name)

def defaulted (r : Record) (name : String) (default : α) (read : Json → Read α) : Read α :=
  match r.lookup name with
  | some j => read j
  | none => .ok default

def nullable (r : Record) (name : String) (read : Json → Read α) : Read (Option α) :=
  match r.lookup name with
  | none | some .null => .ok none
  | some j => (read j).map some

end Record

def readString : Json → Read String
  | .string s => .ok s
  | _ => .error (.expected "a string")

def readBool : Json → Read Bool
  | .bool b => .ok b
  | _ => .error (.expected "a truth value")

def readInt (least bound : Int) : Json → Read Int
  | .int n => if least ≤ n ∧ n < bound then .ok n else .error (.expected "an integer in range")
  | _ => .error (.expected "an integer")

def readInt64 : Json → Read Int := readInt (-twoPow 63) (twoPow 63)

def readNat (bits : Nat) (j : Json) : Read Nat :=
  (readInt 0 (twoPow bits) j).map Int.toNat

def readFloat : Json → Read Binary64
  | .float x => .ok x
  | .int n => .ok (.ofInt n)
  | _ => .error (.expected "a number")

def readList {α : Type} (read : Json → Read α) : Json → Read (List α)
  | .array items => items.mapM read
  | _ => .error (.expected "an array")

def variant : Json → Read (String × Option Json)
  | .string tag => .ok (tag, none)
  | .object [(tag, body)] => .ok (tag, some body)
  | _ => .error (.expected "a variant")

def choice {α : Type} (options : List (String × α)) (j : Json) : Read α := do
  let (tag, body) ← variant j
  match options.lookup tag, body with
  | some a, none | some a, some .null => .ok a
  | some _, some _ => .error (.expected "null")
  | none, _ => .error (.unknownVariant tag)

def tagged (j : Json) : Read (String × Json) := do
  match ← variant j with
  | (tag, some body) => .ok (tag, body)
  | (tag, none) => .error (.unknownVariant tag)

end Backend.Json
