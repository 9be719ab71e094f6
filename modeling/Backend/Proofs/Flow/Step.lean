import Backend.Proofs.Blocks.Step
import Backend.Proofs.Emission.Rules
import Backend.Proofs.Flow.Point

/-!
Steps of a body between points. `Emit.Carries` is a triple about runs that succeed. A step that
`Supplies` its result makes operands that can be read from then on; a step that `Proceeds` may end
behind a terminator.
-/

namespace Backend

variable {i : Instr} {ty : IrType} {os os' : List Operand} {o : Operand} {r : Register}

namespace Point

variable {p₀ p q : Point}

/-- The point with an open block. The block behind a terminator promises everything, since nothing
branches to it. -/
noncomputable def reopened (p : Point) : Point :=
  if p.frame.terminated then
    (p.promising (p.frame.nextLabel + 1)
      (Function.update p.promise (.fresh "dead" p.frame.nextLabel) fun _ => True)).entered
        (.fresh "dead" p.frame.nextLabel)
  else p

theorem reopened_of_going (going : p.frame.terminated = false) : p.reopened = p := by
  rw [reopened, going]
  rfl

theorem update_below (promise : Promises) {n : Nat} (stem : String) (all : Register → Prop) :
    ∀ l, l.Below n → Function.update promise (.fresh stem n) all l = promise l := by
  intro l below
  refine Function.update_of_ne ?_ _ _
  rintro rfl
  exact Label.not_below_fresh stem n below

section

variable (ok : p.Ok)

include ok

theorem reopened_ok : p.reopened.Ok := by
  unfold reopened
  split
  · refine (ok.promising (Nat.le_succ _) (update_below _ _ _)).entered (Label.below_fresh _ _) ?_
    intro labels member m either r promised
    refine .inr ?_
    change Function.update p.promise (.fresh "dead" p.frame.nextLabel) (fun _ => True)
      (.fresh "dead" p.frame.nextLabel) r
    rw [Function.update_self]
    trivial
  · exact ok

theorem le_reopened : p.Le p.reopened := by
  unfold reopened
  split
  case isFalse => exact .rfl
  case isTrue =>
    have promised := ok.le_promising (Nat.le_succ _) (update_below p.promise "dead" fun _ => True)
    exact {
      incoming := rfl
      slots := List.Subset.refl _
      labels := Nat.le_succ _
      promise := promised.promise
      loops := rfl
      reads := by
        intro r _
        rw [reads_entered]
        refine .inr ?_
        change Function.update p.promise (.fresh "dead" p.frame.nextLabel) (fun _ => True)
          (.fresh "dead" p.frame.nextLabel) r
        rw [Function.update_self]
        trivial
      lines := by
        refine ⟨[.label (.fresh "dead" p.frame.nextLabel)], lines_entered _ _, ?_⟩
        intro line member l concerned
        rw [List.mem_singleton.mp member] at concerned
        rcases concerned with same | nothing
        · cases same
          exact fun _ => Label.not_below_fresh _ _
        · cases nothing }

end

theorem reopened_going (p : Point) : p.reopened.frame.terminated = false := by
  unfold reopened
  split
  · rfl
  case isFalse going => simpa using going

theorem reopened_nextReg (p : Point) : p.reopened.frame.nextReg = p.frame.nextReg := by
  unfold reopened
  split <;> rfl

/-! ### Instructions -/

@[simp] theorem knows_constant (h : ∀ r, o ≠ .reg r) : p.Knows o :=
  fun r same => (h r same).elim

@[simp] theorem knowsAll_nil : p.KnowsAll [] := List.forall_mem_nil _

@[simp] theorem knowsAll_cons :
    p.KnowsAll (o :: os) ↔ p.Knows o ∧ p.KnowsAll os := List.forall_mem_cons

@[simp] theorem knowsAll_append :
    p.KnowsAll (os ++ os') ↔ p.KnowsAll os ∧ p.KnowsAll os' := List.forall_mem_append

theorem knows_of_known (h : Known os o) (known : p.KnowsAll os) : p.Knows o :=
  h.elim (fun member => known o member) fun constant => knows_constant constant.1

theorem knowsAll_of_allKnown (h : AllKnown os os') (known : p.KnowsAll os) : p.KnowsAll os' :=
  fun o member => knows_of_known (h o member) known

theorem knowsAll_reads (h : AllKnown os i.reads) (known : p.KnowsAll os) :
    p.KnowsAll i.operands := by
  have reads := knowsAll_of_allKnown h known
  unfold Instr.reads at reads
  split at reads
  · exact knowsAll_cons.mpr ⟨knows_constant nofun, reads⟩
  · exact reads

section

variable {i : Instr} {location : Option Nat} {n : Nat}

theorem lineSound_instr (going : p.frame.terminated = false) (plain : i.isPhi = false)
    (known : p.KnowsAll i.operands) : LineSound p.Always p.promise p.lines (.instr i location) where
  reads := by
    intro r read
    rcases (known _ read r rfl).2 with stopped | available
    · rw [going] at stopped
      cases stopped
    · exact available
  arms := fun r l arm => by rw [Line.arms, i.arms_of_not_phi plain] at arm; cases arm
  targets := nofun
  written := by
    intro r mention
    rw [Line.mentions, Line.arms, i.arms_of_not_phi plain, List.map_nil, List.append_nil] at mention
    exact (known _ mention r rfl).1

theorem Ok.instr (ok : p.Ok) (going : p.frame.terminated = false) (plain : i.isPhi = false)
    (known : p.KnowsAll i.operands) (sets : p.SetsNext (.instr i location) n) :
    (p.pushed (.instr i location) n false).Ok := by
  refine ok.pushed going rfl sets (lineSound_instr going plain known) ?_ nofun ?_
  · cases i with
    | phi dst ty incoming => cases plain
    | _ => nofun
  · cases i with
    | phi dst ty incoming => cases plain
    | _ => trivial

theorem knows_pushed (going : p.frame.terminated = false) (dst : i.dst? = some r) :
    (p.pushed (.instr i location) n false).Knows (.reg r) := by
  intro r' same
  cases same
  refine ⟨.inr ?_, reads_pushed going rfl (.inr dst)⟩
  rw [lines_pushed, settings_append]
  exact List.mem_append_right _ (by simp [settings, Line.dst?, dst])

end

/-! ### Terminators and blocks -/

noncomputable def ended (p : Point) (t : Terminator) : Point :=
  p.reopened.pushed (.term t p.reopened.frame.location) p.frame.nextReg true

section

variable {t : Terminator}

theorem lines_ended (p : Point) (t : Terminator) :
    (p.ended t).lines = p.reopened.lines ++ [.term t p.reopened.frame.location] :=
  lines_pushed _ _ _ _

theorem Ok.ended (ok : p.Ok) (known : p.KnowsAll t.operands)
    (targets : ∀ l ∈ t.targets, l.Below p.frame.nextLabel ∧ (∀ r, p.promise l r → p.Reads r) ∧
      (l.isJoin = true → .label l ∉ p.lines)) : (p.ended t).Ok := by
  have le := le_reopened ok
  have going := p.reopened_going
  have open_reads {r : Register} (h : p.reopened.Reads r) :
      Available p.reopened.Always p.reopened.promise p.reopened.lines r := by
    rcases h with stopped | available
    · rw [going] at stopped
      cases stopped
    · exact available
  refine (reopened_ok ok).pushed going rfl (.inl ⟨rfl, p.reopened_nextReg.symm⟩) ?_ ?_ ?_ trivial
  · exact {
      reads := fun r read => open_reads (le.knows (known _ read) r rfl).2
      arms := nofun
      targets := by
        intro l target r promised
        obtain ⟨below, kept, -⟩ := targets l target
        rw [le.promise l below] at promised
        exact open_reads (le.reads r (kept r promised))
      written := by
        intro r mention
        have read : .reg r ∈ t.operands := by
          simpa [Line.mentions, Line.operands, Line.arms] using mention
        exact (le.knows (known _ read) r rfl).1 }
  · exact fun l target => (targets l target).1.mono le.labels
  · exact fun l target join => le.unopened join (targets l target).1 ((targets l target).2.2 join)

theorem le_ended (ok : p.Ok) (h : p₀.Le p)
    (targets : ∀ l ∈ t.targets, l.isJoin = true → ¬l.Below p₀.frame.nextLabel) :
    p₀.Le (p.ended t) := by
  have reopened := h.trans (le_reopened ok)
  exact {
    reopened with
    reads := fun r _ => .inl rfl
    lines := by
      obtain ⟨more, same, fresh⟩ := reopened.lines
      refine ⟨more ++ [.term t p.reopened.frame.location], ?_, ?_⟩
      · rw [lines_ended, same, List.append_assoc]
      · intro line member l concerned join
        rcases List.mem_append.mp member with old | new
        · exact fresh line old l concerned join
        · rw [List.mem_singleton.mp new] at concerned
          rcases concerned with nothing | target
          · cases nothing
          · exact targets l target join }

/-- The point in a block that has just been started; an open block falls through to it. -/
def started (p : Point) (l : Label) : Point :=
  if p.frame.terminated then p.entered l
  else (p.pushed (.term (.jump l) none) p.frame.nextReg true).entered l

theorem lines_started (p : Point) (l : Label) : ∃ jump, (p.started l).lines = p.lines ++ jump ++ [.label l] ∧
    (jump = [] ∨ (p.frame.terminated = false ∧ jump = [.term (.jump l) none])) := by
  unfold started
  split
  case isTrue => exact ⟨[], by rw [lines_entered, List.append_nil], .inl rfl⟩
  case isFalse going =>
    exact ⟨[.term (.jump l) none], by rw [lines_entered, lines_pushed], .inr ⟨by simpa using going, rfl⟩⟩

theorem reads_started (p : Point) (l : Label) (r : Register) :
    (p.started l).Reads r ↔ p.Always r ∨ p.promise l r := by
  unfold started
  split
  · exact reads_entered p l r
  · exact reads_entered _ l r

theorem started_going (p : Point) (l : Label) : (p.started l).frame.terminated = false := by
  unfold started
  split <;> rfl

theorem Ok.started (ok : p.Ok) {l : Label} (below : l.Below p.frame.nextLabel)
    (kept : ∀ r, p.promise l r → p.Reads r)
    (unopened : l.isJoin = true → p.frame.terminated = true ∨ .label l ∉ p.lines)
    (loops : ∀ labels ∈ p.frame.loops, ∀ m ∈ [labels.leave, labels.again], ∀ r,
      p.promise m r → p.Always r ∨ p.promise l r) : (p.started l).Ok := by
  unfold Point.started
  split
  case isTrue => exact ok.entered below loops
  case isFalse going =>
    have going : p.frame.terminated = false := by simpa using going
    have jumped : (p.pushed (.term (.jump l) none) p.frame.nextReg true).Ok := by
      refine ok.pushed going rfl (.inl ⟨rfl, rfl⟩) ?_ ?_ ?_ trivial
      · refine ⟨nofun, nofun, fun m target r promised => ?_, nofun⟩
        rw [List.mem_singleton.mp target] at promised
        rcases kept r promised with stopped | available
        · rw [going] at stopped
          cases stopped
        · exact available
      · intro m target
        rw [List.mem_singleton.mp target]
        exact below
      · intro m target join
        rw [List.mem_singleton.mp target] at join ⊢
        exact (unopened join).resolve_left (by rw [going]; exact Bool.false_ne_true)
    exact jumped.entered below loops

theorem started_parts (p : Point) (l : Label) :
    (p.started l).incoming = p.incoming ∧ (p.started l).slots = p.slots ∧
      (p.started l).frame.nextLabel = p.frame.nextLabel ∧ (p.started l).promise = p.promise ∧
      (p.started l).frame.loops = p.frame.loops := by
  unfold started
  split <;> exact ⟨rfl, rfl, rfl, rfl, rfl⟩

theorem le_started (h : p₀.Le p) {l : Label} (fresh : l.isJoin = true → ¬l.Below p₀.frame.nextLabel)
    (kept : ∀ r, p₀.Reads r → p.promise l r) : p₀.Le (p.started l) := by
  obtain ⟨incoming, slots, labels, promise, loops⟩ := started_parts p l
  exact {
    incoming := incoming.trans h.incoming
    slots := by rw [slots]; exact h.slots
    labels := by rw [labels]; exact h.labels
    promise := by rw [promise]; exact h.promise
    loops := loops.trans h.loops
    reads := fun r read => (reads_started p l r).mpr (.inr (kept r read))
    lines := by
      obtain ⟨more, same, old⟩ := h.lines
      obtain ⟨jump, lines, either⟩ := lines_started p l
      refine ⟨more ++ jump ++ [.label l], by rw [lines, same]; simp, ?_⟩
      intro line member m concerned join
      have concerns (same : m = l) : ¬m.Below p₀.frame.nextLabel := same ▸ fresh (same ▸ join)
      rcases List.mem_append.mp member with member | last
      · rcases List.mem_append.mp member with member | member
        · exact old line member m concerned join
        · rcases either with rfl | ⟨-, rfl⟩
          · cases member
          · rw [List.mem_singleton.mp member] at concerned
            rcases concerned with nothing | target
            · cases nothing
            · exact concerns (List.mem_singleton.mp target)
      · rw [List.mem_singleton.mp last] at concerned
        rcases concerned with same | nothing
        · cases same
          exact concerns rfl
        · cases nothing }

end

end Point

namespace Emit

variable {α β : Type}

/-! ### Runs of the basic steps -/

section

variable {p : Point} {f' : Frame} {s s' : Session}

theorem reopen_run (h : reopen p.frame s = .ok ((), f') s') : f' = p.reopened.frame := by
  rcases reopen_cases h with ⟨going, rfl⟩ | ⟨ended, rfl⟩
  · rw [Point.reopened_of_going going]
  · rw [Point.reopened, ended]
    rfl

theorem emit_run (h : emit i p.frame s = .ok ((), f') s') :
    f' = (p.reopened.pushed (.instr i p.reopened.frame.location) p.frame.nextReg false).frame := by
  obtain ⟨_, f₁, s₁, reopened, rest⟩ := bind_ok h
  obtain rfl := reopen_run reopened
  cases rest
  rw [Point.pushed, ← p.reopened_going, ← p.reopened_nextReg]

theorem emitValue_run {i : Register → Instr} {v : Value}
    (h : emitValue ty i p.frame s = .ok (v, f') s') : v = Value.temp p.frame.nextReg ty ∧
      f' = (p.reopened.pushed (.instr (i (.temp p.frame.nextReg)) p.reopened.frame.location)
        (p.frame.nextReg + 1) false).frame := by
  obtain ⟨r, f₁, s₁, fresh, rest⟩ := bind_ok h
  cases fresh
  obtain ⟨_, f₂, s₂, emitted, rest⟩ := bind_ok rest
  obtain ⟨rfl, rfl, -⟩ := pure_ok rest
  -- The number is taken before the block is opened, which does not matter to the block.
  obtain ⟨_, f₁, s₁, opened, rest⟩ := bind_ok emitted
  refine ⟨rfl, ?_⟩
  rcases reopen_cases opened with ⟨going, rfl⟩ | ⟨ended, rfl⟩
  · cases rest
    rw [Point.reopened_of_going going, Point.pushed, ← going]
  · cases rest
    rw [Point.reopened, if_pos ended]
    rfl

theorem terminate_run {t : Terminator} (h : terminate t p.frame s = .ok ((), f') s') :
    f' = (p.ended t).frame := by
  obtain ⟨_, f₁, s₁, reopened, rest⟩ := bind_ok h
  obtain rfl := reopen_run reopened
  cases rest
  rw [Point.ended, Point.pushed, ← p.reopened_nextReg]

theorem startBlock_run {label : Label} (h : startBlock label p.frame s = .ok ((), f') s') :
    f' = (p.started label).frame := by
  obtain ⟨now, f₁, s₁, got, rest⟩ := bind_ok h
  obtain ⟨rfl, rfl, rfl⟩ := get_ok got
  unfold Point.started
  split at rest
  case isTrue ended =>
    cases rest
    rw [if_pos (by simpa using ended)]
    rfl
  case isFalse going =>
    cases rest
    rw [if_neg (by simpa using going)]
    rfl

theorem alloca_run (h : alloca ty p.frame s = .ok (r, f') s') :
    r = .temp p.frame.nextReg ∧ f' = (p.withSlot ty).frame := by
  cases h
  exact ⟨rfl, rfl⟩

end

/-! ### Triples -/

/-- A run that succeeds from a point with `P` ends at a point with `Q`. -/
def Carries (P : Point → Prop) (x : Emit α) (Q : α → Point → Prop) : Prop :=
  ∀ ⦃p : Point⦄ ⦃s a f' s'⦄, x p.frame s = .ok (a, f') s' → p.Ok → P p →
    ∃ q : Point, q.frame = f' ∧ q.Ok ∧ Q a q

namespace Carries

variable {P P' : Point → Prop} {Q Q' : α → Point → Prop} {R : β → Point → Prop}

theorem bind {x : Emit α} {k : α → Emit β} (first : Carries P x Q)
    (rest : ∀ a, Carries (Q a) (k a) R) : Carries P (x >>= k) R := by
  intro p s b f' s' h ok start
  obtain ⟨a, f₁, s₁, ran, h⟩ := bind_ok h
  obtain ⟨q, rfl, ok', reached⟩ := first ran ok start
  exact rest a h ok' reached

theorem pure {a : α} (h : ∀ p, P p → Q a p) : Carries P (pure a) Q := by
  intro p s b f' s' ran ok start
  obtain ⟨rfl, rfl, rfl⟩ := pure_ok ran
  exact ⟨p, rfl, ok, h p start⟩

theorem imp {x : Emit α} (h : Carries P x Q) (before : ∀ p, P' p → P p)
    (after : ∀ a q, Q a q → Q' a q) : Carries P' x Q' := by
  intro p s a f' s' ran ok start
  obtain ⟨q, same, ok', reached⟩ := h ran ok (before p start)
  exact ⟨q, same, ok', after a q reached⟩

theorem assuming {c : Prop} {x : Emit α} (h : c → Carries P x Q) : Carries (fun p => c ∧ P p) x Q :=
  fun _ _ _ _ _ ran ok start => h start.1 ran ok start.2

end Carries

/-- From where `os` is known the step leads to where its result is known. An open block stays open,
and nothing is taken away. -/
def Supplies (os : List Operand) (x : Emit α) (R : α → List Operand) : Prop :=
  ∀ p₀ : Point, Carries (fun p => p = p₀ ∧ p.KnowsAll os) x fun a q =>
    p₀.Le q ∧ (p₀.frame.terminated = false → q.frame.terminated = false) ∧ q.KnowsAll (R a)

def Proceeds (os : List Operand) (x : Emit α) : Prop :=
  ∀ p₀ : Point, Carries (fun p => p = p₀ ∧ p.KnowsAll os) x fun _ q => p₀.Le q

namespace Supplies

variable {os os' : List Operand} {R : α → List Operand} {R' : β → List Operand}

theorem proceeds {x : Emit α} (h : Supplies os x R) : Proceeds os x :=
  fun p₀ => (h p₀).imp (fun _ start => start) fun _ _ reached => reached.1

theorem weaken {x : Emit α} (h : Supplies os x R) (known : ∀ p : Point, p.KnowsAll os' → p.KnowsAll os) :
    Supplies os' x R :=
  fun p₀ => (h p₀).imp (fun p start => ⟨start.1, known p start.2⟩) fun _ _ reached => reached

theorem bind {x : Emit α} {k : α → Emit β} (first : Supplies os x R)
    (rest : ∀ a, Supplies (R a ++ os) (k a) R') : Supplies os (x >>= k) R' := by
  intro p₀ p s b f' s' h ok start
  obtain ⟨rfl, known⟩ := start
  obtain ⟨a, f₁, s₁, ran, h⟩ := bind_ok h
  obtain ⟨q, rfl, ok', le, going, supplied⟩ := first p ran ok ⟨rfl, known⟩
  obtain ⟨q', rfl, ok'', le', going', supplied'⟩ :=
    rest a q h ok' ⟨rfl, Point.knowsAll_append.mpr ⟨supplied, le.knowsAll known⟩⟩
  exact ⟨q', rfl, ok'', le.trans le', fun opened => going' (going opened), supplied'⟩

theorem pure {a : α} (known : ∀ p : Point, p.KnowsAll os → p.KnowsAll (R a)) :
    Supplies os (pure a) R :=
  fun _ => .pure fun p start => by
    obtain ⟨rfl, start⟩ := start
    exact ⟨.rfl, id, known p start⟩

theorem fail (cause : Cause) : Supplies os (fail cause : Emit α) R :=
  fun _ _ _ _ _ _ h => (fail_ok h).elim

theorem lift (x : Gen α) : Supplies os (liftM x : Emit α) fun _ => [] := by
  intro p₀ p s a f' s' h ok start
  obtain ⟨rfl, -⟩ := lift_ok h
  obtain ⟨rfl, -⟩ := start
  exact ⟨p, rfl, ok, .rfl, id, by simp⟩

theorem orFail (value : Option α) (cause : Cause) :
    Supplies os (orFail value cause : Emit α) fun _ => [] := by
  cases value with
  | none => exact fail cause
  | some a => exact pure fun _ _ => by simp

theorem get : Supplies os (get : Emit Frame) fun _ => [] := by
  intro p₀ p s a f' s' h ok start
  obtain ⟨-, rfl, -⟩ := get_ok h
  obtain ⟨rfl, -⟩ := start
  exact ⟨p, rfl, ok, .rfl, id, by simp⟩

theorem anywhere {x : Emit α} (h : Supplies [] x R) : Supplies os x R := h.weaken fun _ _ => by simp

end Supplies

namespace Proceeds

variable {os os' : List Operand} {R : α → List Operand}

theorem weaken {x : Emit α} (h : Proceeds os x) (known : ∀ p : Point, p.KnowsAll os' → p.KnowsAll os) :
    Proceeds os' x :=
  fun p₀ => (h p₀).imp (fun p start => ⟨start.1, known p start.2⟩) fun _ _ reached => reached

theorem anywhere {x : Emit α} (h : Proceeds [] x) : Proceeds os x := h.weaken fun _ _ => by simp

theorem bind {x : Emit α} {k : α → Emit β} (first : Supplies os x R)
    (rest : ∀ a, Proceeds (R a ++ os) (k a)) : Proceeds os (x >>= k) := by
  intro p₀ p s b f' s' h ok start
  obtain ⟨rfl, known⟩ := start
  obtain ⟨a, f₁, s₁, ran, h⟩ := bind_ok h
  obtain ⟨q, rfl, ok', le, -, supplied⟩ := first p ran ok ⟨rfl, known⟩
  obtain ⟨q', rfl, ok'', le'⟩ :=
    rest a q h ok' ⟨rfl, Point.knowsAll_append.mpr ⟨supplied, le.knowsAll known⟩⟩
  exact ⟨q', rfl, ok'', le.trans le'⟩

theorem andThen {x : Emit α} {k : α → Emit β} (first : Proceeds os x)
    (rest : ∀ a, Proceeds os (k a)) : Proceeds os (x >>= k) := by
  intro p₀ p s b f' s' h ok start
  obtain ⟨rfl, known⟩ := start
  obtain ⟨a, f₁, s₁, ran, h⟩ := bind_ok h
  obtain ⟨q, rfl, ok', le⟩ := first p ran ok ⟨rfl, known⟩
  obtain ⟨q', rfl, ok'', le'⟩ := rest a q h ok' ⟨rfl, le.knowsAll known⟩
  exact ⟨q', rfl, ok'', le.trans le'⟩

end Proceeds

/-! ### Instructions and slots -/

section

variable {os : List Operand}

theorem emit_supplies (plain : i.isPhi = false) (dst : i.dst? = none)
    (known : ∀ p : Point, p.KnowsAll os → p.KnowsAll i.operands) :
    Supplies os (emit i) fun _ => [] := by
  intro p₀ p s _ f' s' h ok start
  obtain ⟨rfl, start⟩ := start
  have le := Point.le_reopened ok
  refine ⟨_, (emit_run h).symm, ?_, le.trans (Point.le_pushed p.reopened_going rfl rfl), fun _ => rfl, by simp⟩
  exact (Point.reopened_ok ok).instr p.reopened_going plain (le.knowsAll (known p start))
    (.inl ⟨dst, p.reopened_nextReg.symm⟩)

theorem emitValue_supplies (ty : IrType) {i : Register → Instr}
    (h : ∀ r, (i r).isPhi = false ∧ (i r).dst? = some r ∧
      ∀ p : Point, p.KnowsAll os → p.KnowsAll (i r).operands) :
    Supplies os (emitValue ty i) fun v => [v.operand] := by
  intro p₀ p s v f' s' ran ok start
  obtain ⟨rfl, start⟩ := start
  obtain ⟨rfl, rfl⟩ := emitValue_run ran
  obtain ⟨plain, dst, known⟩ := h (.temp p.frame.nextReg)
  have le := Point.le_reopened ok
  refine ⟨_, rfl, ?_, le.trans (Point.le_pushed p.reopened_going rfl rfl), fun _ => rfl, ?_⟩
  · refine (Point.reopened_ok ok).instr p.reopened_going plain (le.knowsAll (known p start)) (.inr ?_)
    rw [p.reopened_nextReg]
    exact ⟨dst, rfl⟩
  · exact Point.knowsAll_cons.mpr ⟨Point.knows_pushed p.reopened_going dst, Point.knowsAll_nil⟩

theorem alloca_supplies (ty : IrType) : Supplies os (alloca ty) fun r => [.reg r] := by
  intro p₀ p s r f' s' ran ok start
  obtain ⟨rfl, start⟩ := start
  obtain ⟨rfl, rfl⟩ := alloca_run ran
  refine ⟨_, rfl, ok.withSlot ty, p.le_withSlot ty, id, ?_⟩
  have slot : .temp p.frame.nextReg ∈ (p.withSlot ty).slots := by
    rw [Point.slots_withSlot]
    simp
  simpa using Point.knows_slot slot

end

section

variable {os : List Operand}

theorem resolve_supplies (ty : TypeRef) : Supplies os (resolve ty) fun _ => [] :=
  Supplies.get.bind fun _ => .lift _

theorem findLocal?_supplies (name : String) :
    Supplies os (findLocal? name) fun found => found.toList.map fun l => .reg l.slot := by
  intro p₀ p s found f' s' h ok start
  obtain ⟨rfl, -⟩ := start
  obtain ⟨now, f₁, s₁, got, rest⟩ := bind_ok h
  obtain ⟨rfl, rfl, rfl⟩ := get_ok got
  obtain ⟨rfl, rfl, rfl⟩ := pure_ok rest
  refine ⟨p, rfl, ok, .rfl, id, fun o member => ?_⟩
  obtain ⟨l, among, rfl⟩ := List.mem_map.mp member
  exact Point.knows_slot (ok.locals name l (Option.mem_toList.mp among))

theorem internString_supplies (text : String) :
    Supplies os (liftM (Gen.internString text) : Emit Operand) fun o => [o] := by
  intro p₀ p s o f' s' h ok start
  obtain ⟨rfl, -⟩ := start
  cases h
  exact ⟨p, rfl, ok, .rfl, id, by simp⟩

theorem modify_supplies {g : Frame → Frame}
    (same : ∀ f, ∃ returnType scope location, g f = { f with returnType, scope, location }) :
    Supplies os (modify g : Emit Unit) fun _ => [] := by
  intro p₀ p s _ f' s' h ok start
  obtain ⟨rfl, -⟩ := start
  obtain ⟨rfl, -⟩ := modify_ok h
  obtain ⟨returnType, scope, location, changed⟩ := same p.frame
  refine ⟨{ p with frame := g p.frame }, rfl, ?_, ?_, ?_, by simp⟩
  · rw [changed]
    exact { ok with }
  · rw [changed]
    exact { (Point.Le.rfl : p.Le p) with }
  · rw [changed]
    exact id

theorem setLocation_supplies (location : Location) : Supplies os (setLocation location) fun _ => [] := by
  refine Supplies.get.bind fun f => ?_
  refine Supplies.bind (R := fun _ => []) ?_ fun id => modify_supplies fun f => ⟨_, _, id, rfl⟩
  cases f.scope with
  | some scope => exact .lift _
  | none => exact .pure fun _ _ => by simp

/-! ### Local variables -/

theorem bindSlot_supplies (ty : IrType) (name : String) {fill : Register → Emit Unit}
    {l : Register → Local} (slot : ∀ r, (l r).slot = r)
    (h : ∀ r, Supplies (.reg r :: os) (fill r) fun _ => []) :
    Supplies os (do let r ← alloca ty; fill r; bindLocal name (l r)) fun _ => [] := by
  intro p₀ p s _ f' s' ran ok start
  obtain ⟨rfl, known⟩ := start
  obtain ⟨r, f₁, s₁, allocated, filling⟩ := bind_ok ran
  obtain ⟨rfl, rfl⟩ := alloca_run allocated
  have own : .temp p.frame.nextReg ∈ (p.withSlot ty).slots := by
    rw [Point.slots_withSlot]
    simp
  obtain ⟨_, f₂, s₂, filled, bound⟩ := bind_ok filling
  obtain ⟨q, rfl, ok', le, going, -⟩ := h _ (p.withSlot ty) filled (ok.withSlot ty)
    ⟨rfl, Point.knowsAll_cons.mpr ⟨Point.knows_slot own, (p.le_withSlot ty).knowsAll known⟩⟩
  obtain ⟨rfl, rfl⟩ := modify_ok bound
  refine ⟨{ q with frame := { q.frame with locals := _ } }, rfl, ?_,
    { (p.le_withSlot ty).trans le with }, going, by simp⟩
  refine { ok' with locals := fun name' l' found => ?_ }
  rw [Table.find?_insert] at found
  split at found
  · cases found
    rw [slot]
    exact le.slots own
  · exact ok'.locals name' l' found

theorem inScope_carries {α : Type} {x : Emit α} {p₀ : Point} {P : Point → Prop}
    {Q : α → Point → Prop} (h : Carries (fun p => p = p₀ ∧ P p) x fun a q => p₀.Le q ∧ Q a q)
    (stable : ∀ a q locals, Q a q → Q a { q with frame := { q.frame with locals } }) :
    Carries (fun p => p = p₀ ∧ P p) (inScope x) fun a q => p₀.Le q ∧ Q a q := by
  intro p s a f' s' ran ok start
  obtain ⟨rfl, known⟩ := start
  obtain ⟨now, f₁, s₁, got, body⟩ := bind_ok ran
  obtain ⟨rfl, rfl, rfl⟩ := get_ok got
  obtain ⟨a, f₂, s₂, inside, rest⟩ := bind_ok body
  obtain ⟨q, rfl, ok', le, reached⟩ := h inside ok ⟨rfl, known⟩
  obtain ⟨_, f₃, s₃, restored, rest⟩ := bind_ok rest
  obtain ⟨rfl, rfl⟩ := modify_ok restored
  obtain ⟨rfl, rfl, rfl⟩ := pure_ok rest
  exact ⟨{ q with frame := { q.frame with locals := p.frame.locals } }, rfl,
    { ok' with locals := fun name l found => le.slots (ok.locals name l found) },
    { le with }, stable a q _ reached⟩

theorem inScope_supplies {α : Type} {x : Emit α} {R : α → List Operand} (h : Supplies os x R) :
    Supplies os (inScope x) R :=
  fun p₀ => inScope_carries (h p₀) fun _ _ _ reached => reached

theorem inScope_proceeds {α : Type} {x : Emit α} (h : Proceeds os x) : Proceeds os (inScope x) :=
  fun p₀ => (inScope_carries (Q := fun _ _ => True)
    ((h p₀).imp (fun _ start => start) fun _ _ le => ⟨le, trivial⟩) fun _ _ _ _ => trivial).imp
      (fun _ start => start) fun _ _ reached => reached.1

end

end Emit

end Backend
