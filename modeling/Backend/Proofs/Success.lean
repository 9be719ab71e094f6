import Backend.Generate

/-!
Steps that succeed, taken apart. A step of a generation keeps its session also when it fails; a
step inside a body gives back its frame only when it succeeds.
-/

namespace Backend

variable {cause : Cause} {f f' : Frame} {slots : List String} {s s' : Session} {ty : TypeRef}

variable {α β : Type}

namespace Gen

theorem bind_ok {x : Gen α} {k : α → Gen β} {b : β} (h : (x >>= k) s = .ok b s') :
    ∃ a s₁, x s = .ok a s₁ ∧ k a s₁ = .ok b s' := by
  simp only [bind, EStateM.bind] at h
  cases first : x s with
  | ok a s₁ => rw [first] at h; exact ⟨a, s₁, rfl, h⟩
  | error e s₁ => rw [first] at h; cases h

theorem pure_ok {a b : α} (h : (pure a : Gen α) s = .ok b s') : b = a ∧ s' = s := by
  cases h; exact ⟨rfl, rfl⟩

theorem fail_ok {a : α} (h : (fail cause : Gen α) s = .ok a s') : False := by
  cases h

theorem orFail_ok {value : Option α} {a : α} (h : (orFail value cause : Gen α) s = .ok a s') :
    value = some a ∧ s' = s := by
  cases value with
  | none => exact (fail_ok h).elim
  | some v => obtain ⟨rfl, rfl⟩ := pure_ok h; exact ⟨rfl, rfl⟩

theorem get_bind (k : Session → Gen α) (s : Session) : (get >>= k) s = k s s := rfl

theorem tryCatch_run (x : Gen α) (handler : Halt → Gen α) (s : Session) :
    tryCatch x handler s =
      match x s with
      | .ok a s₁ => .ok a s₁
      | .error e s₁ => handler e s₁ := by
  simp only [tryCatch, tryCatchThe, MonadExceptOf.tryCatch]
  delta EStateM.tryCatch
  cases x s <;> rfl

theorem locating_ok {l : Location} {x : Gen α} {a : α} (h : locating l x s = .ok a s') :
    x s = .ok a s' := by
  rw [locating, tryCatch_run] at h
  cases run : x s with
  | ok b s₁ => rw [run] at h; exact h
  | error e s₁ => rw [run] at h; cases h

theorem mappingCause_ok {f : Cause → Cause} {x : Gen α} {a : α}
    (h : mappingCause f x s = .ok a s') : x s = .ok a s' := by
  rw [mappingCause, tryCatch_run] at h
  cases run : x s with
  | ok b s₁ => rw [run] at h; exact h
  | error e s₁ => rw [run] at h; cases e <;> cases h

theorem bind_of_ok {x : Gen α} {k : α → Gen β} {s₁ : Session} {a : α} (first : x s = .ok a s₁) :
    (x >>= k) s = k a s₁ := by
  simp only [bind, EStateM.bind, first]

theorem finally_run (x : Gen α) (g : Session → Session) (s : Session) :
    (tryFinally x (modify g : Gen Unit)) s =
      match x s with
      | .ok a s₁ => .ok a (g s₁)
      | .error e s₁ => .error e (g s₁) := by
  simp only [tryFinally, Functor.map, EStateM.map, tryFinally']
  cases x s <;> rfl

theorem finally_ok {x : Gen α} {g : Session → Session} {a : α}
    (h : (tryFinally x (modify g : Gen Unit)) s = .ok a s') : ∃ s₁, x s = .ok a s₁ ∧ s' = g s₁ := by
  rw [finally_run] at h
  split at h
  case h_1 b s₁ run => cases h; exact ⟨s₁, run, rfl⟩
  case h_2 => cases h

def succeeds (x : Gen α) (s : Session) : Bool :=
  match x s with
  | .ok .. => true
  | .error .. => false

theorem exists_ok {x : Gen α} (h : x.succeeds s = true) : ∃ a s', x s = .ok a s' := by
  unfold succeeds at h
  split at h
  case h_1 a s' run => exact ⟨a, s', run⟩
  case h_2 => cases h

def reaches (x : Gen α) (s : Session) (P : Session → Prop) [DecidablePred P] : Bool :=
  match x s with
  | .ok _ s' => decide (P s')
  | .error .. => false

theorem exists_reached {x : Gen α} {P : Session → Prop} [DecidablePred P]
    (h : x.reaches s P = true) : ∃ a s', x s = .ok a s' ∧ P s' := by
  unfold reaches at h
  split at h
  case h_1 a s' run => exact ⟨a, s', run, of_decide_eq_true h⟩
  case h_2 => cases h

end Gen

namespace Resolution

def leave : EStateM.Result Halt Session α → EStateM.Result Halt Session α
  | .ok a s => .ok a { s with resolveDepth := s.resolveDepth - 1 }
  | .error h s => .error h { s with resolveDepth := s.resolveDepth - 1 }

theorem nested_of_lt {x : Gen α} (within : s.resolveDepth < maxResolveDepth) :
    nested ty x s = leave (x { s with resolveDepth := s.resolveDepth + 1 }) := by
  unfold nested
  rw [Gen.bind_of_ok (x := get) rfl, if_neg (Nat.not_le.mpr within),
    Gen.bind_of_ok (x := modify _) rfl, Gen.finally_run]
  cases x { s with resolveDepth := s.resolveDepth + 1 } <;> rfl

end Resolution

theorem Resolution.nested_ok {x : Gen α} {a : α} (h : nested ty x s = .ok a s') :
    s.resolveDepth < maxResolveDepth ∧
      ∃ s₁, x { s with resolveDepth := s.resolveDepth + 1 } = .ok a s₁ ∧
        s' = { s₁ with resolveDepth := s₁.resolveDepth - 1 } := by
  obtain ⟨now, s₁, got, rest⟩ := Gen.bind_ok h
  cases got
  split at rest
  case isTrue => exact (Gen.fail_ok rest).elim
  case isFalse within =>
    obtain ⟨_, s₂, counted, ran⟩ := Gen.bind_ok rest
    cases counted
    exact ⟨Nat.lt_of_not_le within, Gen.finally_ok ran⟩

namespace Resolution

variable {resolve : Resolver} {name : String} {s : Session}

theorem dispatchLayoutWithin_cached (known : s.layouts.dispatch.find? name = some slots) (n : Nat) :
    dispatchLayoutWithin resolve (n + 1) name s = .ok slots s := by
  rw [dispatchLayoutWithin, Gen.get_bind, known]
  rfl

theorem dispatchLayout_cached (known : s.layouts.dispatch.find? name = some slots) :
    dispatchLayout resolve name s = .ok slots s :=
  dispatchLayoutWithin_cached known _

end Resolution

namespace Emit

theorem bind_ok {x : Emit α} {k : α → Emit β} {f f' : Frame} {s s' : Session} {b : β}
    (h : (x >>= k) f s = .ok (b, f') s') :
    ∃ a f₁ s₁, x f s = .ok (a, f₁) s₁ ∧ k a f₁ s₁ = .ok (b, f') s' := by
  obtain ⟨⟨a, f₁⟩, s₁, first, rest⟩ := Gen.bind_ok h
  exact ⟨a, f₁, s₁, first, rest⟩

theorem pure_ok {a b : α} (h : (pure a : Emit α) f s = .ok (b, f') s') :
    b = a ∧ f' = f ∧ s' = s := by
  cases h; exact ⟨rfl, rfl, rfl⟩

theorem fail_ok {a : α} (h : (fail cause : Emit α) f s = .ok (a, f') s') : False := by
  cases h

theorem orFail_ok {value : Option α} {a : α}
    (h : (orFail value cause : Emit α) f s = .ok (a, f') s') :
    value = some a ∧ f' = f ∧ s' = s := by
  cases value with
  | none => exact (fail_ok h).elim
  | some v =>
    obtain ⟨rfl, same⟩ := pure_ok h
    exact ⟨rfl, same⟩

theorem lift_ok {x : Gen α} {a : α} (h : (liftM x : Emit α) f s = .ok (a, f') s') :
    f' = f ∧ x s = .ok a s' := by
  obtain ⟨b, s₁, run, done⟩ := Gen.bind_ok h
  cases done
  exact ⟨rfl, run⟩

theorem get_ok {f₁ : Frame} (h : (get : Emit Frame) f s = .ok (f₁, f') s') :
    f₁ = f ∧ f' = f ∧ s' = s := by
  cases h; exact ⟨rfl, rfl, rfl⟩

theorem get_bind (k : Frame → Emit α) (f : Frame) (s : Session) : (get >>= k) f s = k f f s := rfl

theorem modify_ok {g : Frame → Frame} (h : (modify g : Emit Unit) f s = .ok ((), f') s') :
    f' = g f ∧ s' = s := by
  cases h; exact ⟨rfl, rfl⟩

/-- The label that stands before the next instruction if the block is closed. -/
def gap (f : Frame) : List Line :=
  if f.terminated then [.label (.fresh "dead" f.nextLabel)] else []

theorem emitValue_appends (ty : IrType) (i : Register → Instr) (f : Frame) (s : Session) :
    ∃ f', emitValue ty i f s = .ok (⟨.reg (.temp f.nextReg), ty⟩, f') s ∧ gap f' = [] ∧
      f'.location = f.location ∧
      f'.body.toList =
        f.body.toList ++ gap f ++ [.instr (i (.temp f.nextReg)) f.location] := by
  cases ended : f.terminated with
  | false =>
    have same : f = { f with terminated := false } := by rw [← ended]
    rw [same]
    refine ⟨_, rfl, ?_⟩
    simp [gap]
  | true =>
    have same : f = { f with terminated := true } := by rw [← ended]
    rw [same]
    refine ⟨_, rfl, ?_⟩
    simp [gap]

end Emit

end Backend
