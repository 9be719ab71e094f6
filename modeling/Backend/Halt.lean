import Backend.Error

/-!
How a step ends without a result. Only a failure has a message and can be recovered from; the
other two say that the step has no answer.
-/

namespace Backend

inductive Halt where
  | failed (error : GenError)
  /-- A count left the range of its machine word. -/
  | overflow
  /-- A bounded search ran to its bound. -/
  | exhausted
  deriving DecidableEq

namespace Halt

def placedAt (h : Halt) (l : Location) : Halt :=
  match h with
  | .failed e => .failed (e.placedAt l)
  | h => h

end Halt

section

variable {m : Type → Type} [Monad m] [MonadExceptOf Halt m] {α : Type}

def fail (cause : Cause) : m α := throw (.failed { cause })

def orFail (value : Option α) (cause : Cause) : m α :=
  match value with
  | some a => pure a
  | none => fail cause

def wordBound : Nat := 18446744073709551616

def word (n : Nat) : m Nat := if n < wordBound then pure n else throw .overflow

end

end Backend
