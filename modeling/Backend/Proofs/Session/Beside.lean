import Mathlib.Data.List.Forall2
import Backend.Proofs.Success

/-!
Two runs beside each other. A `Beside` says which sessions stand for each other and which failures
of the left run say nothing about the right one; two steps are beside each other if from such
sessions they end alike: both with related results or both without one.
-/

namespace Backend

/-! ### Halts -/

namespace Halt

/-- Two halts of one kind. -/
inductive Like : Halt → Halt → Prop
  | failed (e e' : GenError) : Like (.failed e) (.failed e')
  | overflow : Like .overflow .overflow
  | exhausted : Like .exhausted .exhausted

/-- The second halt is the first one told otherwise: at a place, or with another cause. That a
resolution went too deep is never told otherwise. -/
inductive Retold : Halt → Halt → Prop
  | failed {e e' : GenError}
      (depth : ∀ name limit, e.cause = .resolutionDepth name limit → e'.cause = e.cause) :
      Retold (.failed e) (.failed e')
  | same (h : Halt) : Retold h h

theorem retold_placedAt (h : Halt) (l : Location) : h.Retold (h.placedAt l) := by
  cases h with
  | failed e =>
    refine .failed fun _ _ _ => ?_
    unfold GenError.placedAt
    split <;> rfl
  | overflow => exact .same _
  | exhausted => exact .same _

theorem Like.refl (h : Halt) : h.Like h := by
  cases h with
  | failed e => exact .failed e e
  | overflow => exact .overflow
  | exhausted => exact .exhausted

theorem Like.placedAt {h h' : Halt} (like : h.Like h') (l : Location) :
    (h.placedAt l).Like (h'.placedAt l) := by
  cases like with
  | failed e e' => exact .failed _ _
  | overflow => exact .overflow
  | exhausted => exact .exhausted

end Halt

structure Beside where
  /-- Sessions that stand for each other. -/
  sessions : Session → Session → Prop
  /-- Failures of the left run that say nothing about the right one. -/
  limit : Halt → Prop
  limit_retold : ∀ {h h'}, limit h → h.Retold h' → limit h'
  /-- The right run may go out of range where the left one does not. -/
  overflows : Prop

namespace Beside

variable {α β γ δ : Type}

inductive Outcomes (b : Beside) (V : α → β → Prop) :
    EStateM.Result Halt Session α → EStateM.Result Halt Session β → Prop
  | done {a a' s s'} (value : V a a') (paired : b.sessions s s') :
      Outcomes b V (.ok a s) (.ok a' s')
  | failed {h h' s s'} (like : h.Like h') (paired : b.sessions s s') :
      Outcomes b V (.error h s) (.error h' s')
  | limit {h s r} (limit : b.limit h) : Outcomes b V (.error h s) r
  | overflow {r s'} (overflows : b.overflows) : Outcomes b V r (.error .overflow s')

/-- From sessions that stand for each other the two steps end alike. -/
def OnSession (b : Beside) (V : α → β → Prop) (x : Gen α) (y : Gen β) : Prop :=
  ∀ ⦃s s'⦄, b.sessions s s' → b.Outcomes V (x s) (y s')

abbrev Answers (b : Beside) (x y : Gen α) : Prop := b.OnSession Eq x y

def Strict (b : Beside) : Prop := ∀ h, ¬b.limit h

variable {b : Beside} {V : α → β → Prop} {W : γ → δ → Prop}

/-! ### Bounds -/

/-- What is in range on the right is so on the left. The other way round, the right side may
overflow. -/
structure Bounds (b : Beside) (c c' : Bool) : Prop where
  left : c' = true → c = true
  right : c = true → c' = true ∨ b.overflows

theorem Bounds.of_eq {c c' : Bool} (same : c' = c) : b.Bounds c c' := same ▸ ⟨id, .inl⟩

theorem Bounds.and {c c' d d' : Bool} (first : b.Bounds c c') (second : b.Bounds d d') :
    b.Bounds (c && d) (c' && d') := by
  constructor
  · rw [Bool.and_eq_true, Bool.and_eq_true]
    exact And.imp first.left second.left
  · rw [Bool.and_eq_true, Bool.and_eq_true]
    rintro ⟨here, there⟩
    rcases first.right here with here' | overflows
    · exact (second.right there).imp_left (And.intro here')
    · exact .inr overflows

theorem Bounds.all {p : α → Bool} {q : β → Bool} {f : α → β} {xs : List α}
    (h : ∀ a ∈ xs, b.Bounds (p a) (q (f a))) : b.Bounds (xs.all p) ((xs.map f).all q) := by
  induction xs with
  | nil => exact .of_eq rfl
  | cons a rest ih =>
    rw [List.forall_mem_cons] at h
    exact h.1.and (ih h.2)

theorem Outcomes.imp {V' : α → β → Prop} {r r'} (h : b.Outcomes V r r')
    (sub : ∀ a a', V a a' → V' a a') : b.Outcomes V' r r' := by
  cases h with
  | done value paired => exact .done (sub _ _ value) paired
  | failed like paired => exact .failed like paired
  | limit limit => exact .limit limit
  | overflow overflows => exact .overflow overflows

namespace OnSession

theorem bind {x : Gen α} {y : Gen β} {k : α → Gen γ} {k' : β → Gen δ} (first : b.OnSession V x y)
    (rest : ∀ a a', V a a' → b.OnSession W (k a) (k' a')) :
    b.OnSession W (x >>= k) (y >>= k') := by
  intro s s' paired
  have ends := first paired
  simp only [Bind.bind, EStateM.bind]
  generalize x s = r at ends
  generalize y s' = r' at ends
  cases ends with
  | done value paired => exact rest _ _ value paired
  | failed like paired => exact .failed like paired
  | limit limit => exact .limit limit
  | overflow overflows => exact .overflow overflows

theorem andThen {x y : Gen α} {k : α → Gen γ} {k' : α → Gen δ} (first : b.OnSession Eq x y)
    (rest : ∀ a, b.OnSession W (k a) (k' a)) : b.OnSession W (x >>= k) (y >>= k') :=
  first.bind fun a _ same => same ▸ rest a

theorem imp {V' : α → β → Prop} {x : Gen α} {y : Gen β} (h : b.OnSession V x y)
    (sub : ∀ a a', V a a' → V' a a') : b.OnSession V' x y :=
  fun _ _ paired => (h paired).imp sub

theorem pure {a : α} {a' : β} (h : V a a') : b.OnSession V (pure a) (pure a') :=
  fun _ _ paired => .done h paired

theorem fail {cause cause' : Cause} : b.OnSession V (fail cause : Gen α) (fail cause' : Gen β) :=
  fun _ _ paired => .failed (.failed _ _) paired

theorem throw {h : Halt} : b.OnSession V (throw h : Gen α) (throw h : Gen β) :=
  fun _ _ paired => .failed (.refl h) paired

theorem orFail {value : Option α} {value' : Option β} {cause cause' : Cause}
    (h : Option.Rel V value value') :
    b.OnSession V (orFail value cause : Gen α) (orFail value' cause' : Gen β) := by
  cases h with
  | none => exact fail
  | some related => exact pure related

theorem ite {c c' : Prop} [Decidable c] [Decidable c'] (same : c' ↔ c) {x y : Gen α} {x' y' : Gen β}
    (yes : c → b.OnSession V x x') (no : ¬c → b.OnSession V y y') :
    b.OnSession V (if c then x else y) (if c' then x' else y') := by
  by_cases h : c
  · rw [if_pos h, if_pos (same.mpr h)]
    exact yes h
  · rw [if_neg h, if_neg (mt same.mp h)]
    exact no h

theorem inRange {c c' : Bool} (bounds : b.Bounds c c') {x : Gen α} {x' : Gen β}
    (h : b.OnSession V x x') :
    b.OnSession V (if c then x else MonadExcept.throw Halt.overflow)
      (if c' then x' else MonadExcept.throw Halt.overflow) := by
  cases c with
  | false =>
    cases c' with
    | false => exact throw
    | true => cases bounds.left rfl
  | true =>
    cases c' with
    | true => exact h
    | false => exact fun _ _ _ => .overflow ((bounds.right rfl).resolve_left Bool.false_ne_true)

theorem reading {k : Session → Gen γ} {k' : Session → Gen δ}
    (h : ∀ s s', b.sessions s s' → b.OnSession W (k s) (k' s')) :
    b.OnSession W (get >>= k) (get >>= k') :=
  fun s s' paired => h s s' paired paired

theorem update {g g' : Session → Session}
    (h : ∀ s s', b.sessions s s' → b.sessions (g s) (g' s')) :
    b.OnSession Eq (modify g : Gen Unit) (modify g') :=
  fun s s' paired => .done rfl (h s s' paired)

theorem mapM {x : α → Gen γ} {y : β → Gen δ} {xs : List α} {ys : List β}
    (h : List.Forall₂ (fun a a' => b.OnSession W (x a) (y a')) xs ys) :
    b.OnSession (List.Forall₂ W) (xs.mapM x) (ys.mapM y) := by
  induction h with
  | nil => exact pure .nil
  | cons head _ ih =>
    rw [List.mapM_cons, List.mapM_cons]
    exact head.bind fun _ _ first => ih.bind fun _ _ rest => pure (.cons first rest)

theorem mapM_same {x : α → Gen γ} {y : β → Gen γ} {xs : List α} {ys : List β}
    (h : List.Forall₂ (fun a a' => b.Answers (x a) (y a')) xs ys) :
    b.Answers (xs.mapM x) (ys.mapM y) :=
  (mapM h).imp fun _ _ same => List.forall₂_eq_eq_eq ▸ same

theorem forM {x : α → Gen PUnit} {y : β → Gen PUnit} {xs : List α} {ys : List β}
    (h : List.Forall₂ (fun a a' => b.Answers (x a) (y a')) xs ys) :
    b.Answers (xs.forM x) (ys.forM y) := by
  induction h with
  | nil => exact pure rfl
  | cons head _ ih => exact head.andThen fun _ => ih

/-! ### Failures told otherwise -/

theorem locating {x : Gen α} {y : Gen β} (l : Location) (h : b.OnSession V x y) :
    b.OnSession V (Gen.locating l x) (Gen.locating l y) := by
  intro s s' paired
  have ends := h paired
  rw [Gen.locating, Gen.locating, Gen.tryCatch_run, Gen.tryCatch_run]
  generalize x s = r at ends
  generalize y s' = r' at ends
  cases ends with
  | done value paired => exact .done value paired
  | failed like paired => exact .failed (like.placedAt l) paired
  | limit limit => exact .limit (b.limit_retold limit (Halt.retold_placedAt _ l))
  | overflow overflows => exact .overflow overflows

def retell (f : Cause → Cause) : Halt → Halt
  | .failed e => .failed { e with cause := f e.cause }
  | h => h

theorem mappingCause_run (f : Cause → Cause) (x : Gen α) (s : Session) :
    Gen.mappingCause f x s =
      match x s with
      | .ok a s₁ => .ok a s₁
      | .error h s₁ => .error (retell f h) s₁ := by
  rw [Gen.mappingCause, Gen.tryCatch_run]
  cases x s with
  | ok a s₁ => rfl
  | error h s₁ => cases h <;> rfl

theorem retold_retell {f : Cause → Cause}
    (depth : ∀ name limit, f (.resolutionDepth name limit) = .resolutionDepth name limit) (h : Halt) :
    h.Retold (retell f h) := by
  cases h with
  | failed e =>
    refine .failed fun name limit same => ?_
    rw [same]
    exact depth name limit
  | overflow => exact .same _
  | exhausted => exact .same _

theorem mappingCause {f f' : Cause → Cause} {x : Gen α} {y : Gen β}
    (depth : ∀ name limit, f (.resolutionDepth name limit) = .resolutionDepth name limit)
    (h : b.OnSession V x y) :
    b.OnSession V (Gen.mappingCause f x) (Gen.mappingCause f' y) := by
  intro s s' paired
  have ends := h paired
  rw [mappingCause_run, mappingCause_run]
  generalize x s = r at ends
  generalize y s' = r' at ends
  cases ends with
  | done value paired => exact .done value paired
  | failed like paired =>
    refine .failed ?_ paired
    cases like with
    | failed e e' => exact .failed _ _
    | overflow => exact .overflow
    | exhausted => exact .exhausted
  | limit limit => exact .limit (b.limit_retold limit (retold_retell depth _))
  | overflow overflows => exact .overflow overflows

/-! ### Steps that are closed in any case -/

theorem tryFinally {x : Gen α} {y : Gen β} {g g' : Session → Session} (h : b.OnSession V x y)
    (close : ∀ s s', b.sessions s s' → b.sessions (g s) (g' s')) :
    b.OnSession V (tryFinally x (modify g : Gen Unit)) (tryFinally y (modify g' : Gen Unit)) := by
  intro s s' paired
  have ends := h paired
  rw [Gen.finally_run, Gen.finally_run]
  generalize x s = r at ends
  generalize y s' = r' at ends
  cases ends with
  | done value paired => exact .done value (close _ _ paired)
  | failed like paired => exact .failed like (close _ _ paired)
  | limit limit => exact .limit limit
  | overflow overflows => exact .overflow overflows

theorem attempt (strict : b.Strict) {x y : Gen α} (h : b.Answers x y) :
    b.OnSession (fun r r' => r.toOption = r'.toOption) (Gen.attempt x) (Gen.attempt y) := by
  intro s s' paired
  have ends := h paired
  simp only [Gen.attempt, Gen.tryCatch_run, Functor.map, EStateM.map]
  generalize x s = r at ends
  generalize y s' = r' at ends
  cases ends with
  | done value paired => exact .done (by rw [value]) paired
  | limit limit => exact (strict _ limit).elim
  | overflow overflows => exact .overflow overflows
  | failed like paired =>
    cases like with
    | failed e e' => exact .done rfl paired
    | overflow => exact .failed .overflow paired
    | exhausted => exact .failed .exhausted paired

end OnSession

end Beside

end Backend
