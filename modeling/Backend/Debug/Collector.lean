/-!
What is told to a collector of debug information. A collector answers every call with a number,
which may depend on all calls before it.
-/

namespace Backend

inductive DebugEncoding where
  | signed | unsigned | float | boolean | address
  deriving DecidableEq

def DebugEncoding.title : DebugEncoding → String
  | .signed => "Signed"
  | .unsigned => "Unsigned"
  | .float => "Float"
  | .boolean => "Boolean"
  | .address => "Address"

/-- A field of a described struct; offset and size are in bits. -/
structure DebugMember where
  name : String
  type : Nat
  offset : Nat
  size : Nat
  deriving DecidableEq

inductive DebugCall where
  | file (path : String)
  | basic (name : String) (bits : Nat) (encoding : DebugEncoding)
  | pointer (pointee : Nat)
  | struct (name : String) (bits file line : Nat) (members : List DebugMember)
  | array (elem count bits : Nat)
  | location (line column scope : Nat)
  | subprogram (name : String) (line file type : Nat)
  deriving DecidableEq

structure Collector where
  /-- The answer to a call, given the calls before it. -/
  reply : List DebugCall → DebugCall → Nat
  /-- Lines for the end of the module, given all calls. -/
  metadata : List DebugCall → List String

def DebugMember.text (m : DebugMember) : String :=
  m.name ++ s!":{m.type}@{m.offset}+{m.size}"

def DebugCall.text : DebugCall → String
  | .file path => "file " ++ path
  | .basic name bits encoding => "basic " ++ name ++ s!" {bits} " ++ encoding.title
  | .pointer pointee => s!"pointer {pointee}"
  | .struct name bits source line members =>
    "struct " ++ name ++ s!" {bits} {source} {line} [" ++
      " ".intercalate (members.map DebugMember.text) ++ "]"
  | .array elem count bits => s!"array {elem} {count} {bits}"
  | .location line column scope => s!"location {line} {column} {scope}"
  | .subprogram name line source type => "subprogram " ++ name ++ s!" {line} {source} {type}"

def Collector.recording : Collector where
  reply earlier _ := earlier.length + 1
  metadata calls := calls.zipIdx.map fun (call, i) => s!"!{i + 1} = " ++ call.text

end Backend
