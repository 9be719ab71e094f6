import Mathlib.Order.Defs.Unbundled
import Backend.Proofs.Success

/-!
What a step may do to the session. A course has relations between sessions, one for steps that
succeed, one for steps that fail and one for steps that end in a fatal halt. A step keeps to a
course if the session that it leaves behind is related to the one that it found, by the relation that
applies. A step moves along a relation if it keeps to the course that has only this relation. Rules
for the ways in which steps are put together take the relations to be reflexive and transitive;
where a failure is recovered from, what fails may do no more than what succeeds.
-/

namespace Backend

variable {α β : Type}

namespace Gen

def after (x : Gen α) (s : Session) : Session :=
  match x s with
  | .ok _ s' => s'
  | .error _ s' => s'

theorem after_of_ok {x : Gen α} {s s' : Session} {a : α} (run : x s = .ok a s') :
    x.after s = s' := by
  rw [after, run]

theorem after_of_error {x : Gen α} {s s' : Session} {h : Halt} (run : x s = .error h s') :
    x.after s = s' := by
  rw [after, run]

theorem ok_of_run' {x : Gen α} {s : Session} {a : α} (h : x.run' s = some a) :
    x s = .ok a (x.after s) := by
  unfold EStateM.run' EStateM.run at h
  split at h
  case h_1 run =>
    cases h
    rw [after_of_ok run, run]
  case h_2 => cases h

theorem error_of_run' {x : Gen α} {s : Session} (h : x.run' s = none) :
    ∃ e, x s = .error e (x.after s) := by
  unfold EStateM.run' EStateM.run at h
  split at h
  case h_1 => cases h
  case h_2 e s' run => exact ⟨e, by rw [after_of_error run, run]⟩

theorem bind_of_error {x : Gen α} {k : α → Gen β} {s s₁ : Session} {h : Halt}
    (first : x s = .error h s₁) : (x >>= k) s = .error h s₁ := by
  simp only [bind, EStateM.bind, first]

end Gen

/-- Nothing recovers from the halt. -/
def Halt.isFatal : Halt → Bool
  | .failed _ => false
  | .overflow | .exhausted => true

/-- How sessions may change. -/
structure Session.Course where
  /-- By steps that succeed. -/
  goes : Session → Session → Prop
  /-- By steps of which the last one does not, by a fatal halt or a failure. -/
  halts : Bool → Session → Session → Prop

namespace Session.Course

class Lawful (C : Course) : Prop where
  refl : ∀ s, C.goes s s
  trans : ∀ {s₁ s₂ s₃}, C.goes s₁ s₂ → C.goes s₂ s₃ → C.goes s₁ s₃
  stop : ∀ fatal s, C.halts fatal s s
  after : ∀ {fatal s₁ s₂ s₃}, C.goes s₁ s₂ → C.halts fatal s₂ s₃ → C.halts fatal s₁ s₃

/-- Steps that fail may be recovered from. -/
class Recovers (C : Course) : Prop where
  recover : ∀ {s s'}, C.halts false s s' → C.goes s s'

def always (R : Session → Session → Prop) : Course := ⟨R, fun _ => R⟩

instance (R : Session → Session → Prop) : (always R).Recovers := ⟨id⟩

variable {R : Session → Session → Prop} [IsPreorder Session R]

instance : (always R).Lawful where
  refl := refl_of R
  trans := trans_of R
  stop _ := refl_of R
  after := trans_of R

end Session.Course

open Session (Course)

namespace Gen

/-- The step is taken in `s`, and what it leaves behind is compared with `s₀`. -/
def KeepsFrom (C : Course) (s₀ s : Session) (x : Gen α) : Prop :=
  match x s with
  | .ok _ s' => C.goes s₀ s'
  | .error h s' => C.halts h.isFatal s₀ s'

def Keeps (C : Course) (x : Gen α) : Prop := ∀ s, KeepsFrom C s s x

abbrev Moves (R : Session → Session → Prop) (x : Gen α) : Prop := Keeps (.always R) x

variable {C : Course} {s₀ s : Session}

theorem Keeps.goes {x : Gen α} {s' : Session} {a : α} (h : Keeps C x) (run : x s = .ok a s') :
    C.goes s s' := by
  have kept := h s
  rwa [KeepsFrom, run] at kept

namespace KeepsFrom

variable {x : Gen α} {k : α → Gen β}

theorem of_ok {a : α} {s' : Session} (run : x s = .ok a s') (h : C.goes s₀ s') :
    KeepsFrom C s₀ s x := by
  rwa [KeepsFrom, run]

theorem of_error {e : Halt} {s' : Session} (run : x s = .error e s')
    (h : C.halts e.isFatal s₀ s') : KeepsFrom C s₀ s x := by
  rwa [KeepsFrom, run]

theorem bind (first : KeepsFrom C s₀ s x)
    (rest : ∀ a s₁, x s = .ok a s₁ → C.goes s₀ s₁ → KeepsFrom C s₀ s₁ (k a)) :
    KeepsFrom C s₀ s (x >>= k) := by
  cases run : x s with
  | ok a s₁ =>
    rw [KeepsFrom, run] at first
    rw [KeepsFrom, bind_of_ok run]
    exact rest a s₁ run first
  | error e s₁ =>
    rw [KeepsFrom, run] at first
    exact of_error (bind_of_error run) first

theorem past {a : α} {s₁ : Session} (run : x s = .ok a s₁) (rest : KeepsFrom C s₀ s₁ (k a)) :
    KeepsFrom C s₀ s (x >>= k) := by
  rwa [KeepsFrom, bind_of_ok run]

theorem reading {k : Session → Gen β} (rest : KeepsFrom C s₀ s (k s)) :
    KeepsFrom C s₀ s (get >>= k) := rest

theorem around {open' close : Session → Session} (h : KeepsFrom C (open' s) (open' s) x)
    (goes : ∀ {s'}, C.goes (open' s) s' → C.goes s₀ (close s'))
    (halts : ∀ {fatal s'}, C.halts fatal (open' s) s' → C.halts fatal s₀ (close s')) :
    KeepsFrom C s₀ s (do modify open'; tryFinally x (modify close)) := by
  have opened : (modify open' : Gen Unit) s = .ok () (open' s) := rfl
  rw [KeepsFrom] at h
  rw [KeepsFrom, bind_of_ok opened, finally_run]
  cases run : x (open' s) with
  | ok a s' => rw [run] at h; exact goes h
  | error e s' => rw [run] at h; exact halts h

theorem mappingCause {f : Cause → Cause} (h : KeepsFrom C s₀ s x) :
    KeepsFrom C s₀ s (mappingCause f x) := by
  rw [KeepsFrom] at h ⊢
  rw [Gen.mappingCause, tryCatch_run]
  cases run : x s with
  | ok a s' => rw [run] at h; exact h
  | error e s' => rw [run] at h; cases e <;> exact h

variable [C.Lawful]

omit [C.Lawful] in
theorem pure (reached : C.goes s₀ s) (a : α) : KeepsFrom C s₀ s (pure a : Gen α) := reached

theorem throw (reached : C.goes s₀ s) (h : Halt) : KeepsFrom C s₀ s (throw h : Gen α) :=
  Course.Lawful.after reached (Course.Lawful.stop h.isFatal s)

theorem fail (reached : C.goes s₀ s) (cause : Cause) : KeepsFrom C s₀ s (fail cause : Gen α) :=
  throw reached _

theorem looking {value : Option α} {cause : Cause} (reached : C.goes s₀ s)
    (rest : ∀ a, value = some a → KeepsFrom C s₀ s (k a)) :
    KeepsFrom C s₀ s ((orFail value cause : Gen α) >>= k) := by
  cases value with
  | none => exact (fail reached cause).bind fun _ _ run => (fail_ok run).elim
  | some a => exact rest a rfl

end KeepsFrom

variable [C.Lawful]

theorem KeepsFrom.behind {x : Gen α} {s₁ : Session} (reached : C.goes s₀ s₁)
    (h : KeepsFrom C s₁ s x) : KeepsFrom C s₀ s x := by
  rw [KeepsFrom] at h ⊢
  split at h
  case h_1 a s' run => exact Course.Lawful.trans reached h
  case h_2 e s' run => exact Course.Lawful.after reached h

theorem Keeps.from {x : Gen α} (h : Keeps C x) (reached : C.goes s₀ s) : KeepsFrom C s₀ s x :=
  .behind reached (h s)

namespace Keeps

theorem pure (a : α) : Keeps C (pure a : Gen α) := fun s => .pure (Course.Lawful.refl s) a

theorem throw (h : Halt) : Keeps C (throw h : Gen α) := fun s => .throw (Course.Lawful.refl s) h

theorem fail (cause : Cause) : Keeps C (fail cause : Gen α) := throw _

theorem orFail (value : Option α) (cause : Cause) : Keeps C (orFail value cause : Gen α) := by
  cases value with
  | none => exact fail cause
  | some a => exact pure a

theorem get : Keeps C (get : Gen Session) := Course.Lawful.refl

omit [C.Lawful] in
theorem modify {g : Session → Session} (h : ∀ s, C.goes s (g s)) :
    Keeps C (modify g : Gen Unit) := h

theorem word (n : Nat) : Keeps C (word n : Gen Nat) := by
  unfold Backend.word
  split
  · exact pure n
  · exact throw _

theorem ofExcept (e : Except Halt α) : Keeps C (MonadExcept.ofExcept e : Gen α) := by
  cases e with
  | ok a => exact pure a
  | error h => exact throw h

omit [C.Lawful] in
theorem ite {c : Prop} [Decidable c] {x y : Gen α} (yes : Keeps C x) (no : Keeps C y) :
    Keeps C (if c then x else y) := by
  split
  · exact yes
  · exact no

theorem bind {x : Gen α} {k : α → Gen β} (first : Keeps C x) (rest : ∀ a, Keeps C (k a)) :
    Keeps C (x >>= k) :=
  fun s => (first s).bind fun a _ _ reached => (rest a).from reached

theorem mapM {x : α → Gen β} {xs : List α} (h : ∀ a ∈ xs, Keeps C (x a)) :
    Keeps C (xs.mapM x) := by
  induction xs with
  | nil => exact pure []
  | cons a rest ih =>
    rw [List.mapM_cons]
    have later := ih fun b member => h b (List.mem_cons_of_mem a member)
    exact (h a List.mem_cons_self).bind fun _ => later.bind fun _ => pure _

theorem forM {x : α → Gen PUnit} {xs : List α} (h : ∀ a ∈ xs, Keeps C (x a)) :
    Keeps C (xs.forM x) := by
  induction xs with
  | nil => exact pure PUnit.unit
  | cons a rest ih =>
    have later := ih fun b member => h b (List.mem_cons_of_mem a member)
    exact (h a List.mem_cons_self).bind fun _ => later

omit [C.Lawful] in
theorem modifyOutput {g : Output → Output} (h : ∀ s, C.goes s { s with output := g s.output }) :
    Keeps C (Gen.modifyOutput g) := h

omit [C.Lawful] in
theorem map {x : Gen α} (f : α → β) (h : Keeps C x) : Keeps C (f <$> x) := by
  intro s
  have kept := h s
  rw [KeepsFrom] at kept ⊢
  simp only [Functor.map, EStateM.map]
  cases run : x s with
  | ok a s₁ => rwa [run] at kept
  | error e s₁ => rwa [run] at kept

omit [C.Lawful] in
theorem locating {x : Gen α} (l : Location) (h : Keeps C x) : Keeps C (locating l x) := by
  intro s
  have kept := h s
  rw [KeepsFrom] at kept ⊢
  rw [Gen.locating, tryCatch_run]
  cases run : x s with
  | ok a s₁ => rwa [run] at kept
  | error e s₁ =>
    rw [run] at kept
    cases e <;> exact kept

omit [C.Lawful] in
theorem attempt [C.Recovers] {x : Gen α} (h : Keeps C x) : Keeps C (attempt x) := by
  intro s
  have kept := h.map (Except.ok : α → Except GenError α) s
  rw [KeepsFrom] at kept ⊢
  rw [Gen.attempt, tryCatch_run]
  cases run : (Except.ok <$> x : Gen (Except GenError α)) s with
  | ok a s₁ => rwa [run] at kept
  | error e s₁ =>
    rw [run] at kept
    cases e with
    | failed cause => exact Course.Recovers.recover kept
    | overflow => exact kept
    | exhausted => exact kept

theorem tell (h : ∀ s calls, C.goes s { s with debugCalls := calls }) (call : DebugCall) :
    Keeps C (Gen.tell call) := by
  refine fun s => .reading ?_
  split
  · exact .pure (Course.Lawful.refl s) _
  · exact .past rfl (.pure (h s _) _)

end Keeps

theorem Moves.tell {R : Session → Session → Prop} [IsPreorder Session R]
    (h : ∀ s calls, R s { s with debugCalls := calls }) (call : DebugCall) :
    Moves R (Gen.tell call) :=
  Keeps.tell h call

namespace Keeps

variable {R : Session → Session → Prop} {x : Gen α}

theorem after (h : Moves R x) (s : Session) : R s (x.after s) := by
  have moved := h s
  rw [KeepsFrom] at moved
  rw [Gen.after]
  cases run : x s with
  | ok a s' => rwa [run] at moved
  | error e s' => rwa [run] at moved

theorem of_after (h : ∀ s, R s (x.after s)) : Moves R x := by
  intro s
  have moved := h s
  rw [Gen.after] at moved
  rw [KeepsFrom]
  cases run : x s with
  | ok a s' => rwa [run] at moved
  | error e s' => rwa [run] at moved

theorem of_ok {s s' : Session} {a : α} (h : Moves R x) (run : x s = .ok a s') : R s s' := h.goes run

end Keeps

end Gen

end Backend
