import Backend.Proofs.Flow.Step

/-!
Rules that branch. A rule makes its labels where it starts, so each of them promises what could be
read there, and its blocks can be entered from wherever the rule branches to them. Blocks where
values meet are followed one by one, with the blocks that branch to them.
-/

namespace Backend

namespace Point

variable {p₀ p q : Point} {l : Label}

/-- A label made since `p₀`, which promises what can be read there. -/
structure Made (p₀ : Point) (l : Label) (p : Point) : Prop where
  below : l.Below p.frame.nextLabel
  fresh : ¬l.Below p₀.frame.nextLabel
  promise : ∀ r, p.promise l r ↔ p₀.Reads r

theorem Made.later (h : p₀.Made l p) (le : p.Le q) : p₀.Made l q where
  below := h.below.mono le.labels
  fresh := h.fresh
  promise := by rw [le.promise l h.below]; exact h.promise

theorem Made.ended (h : p₀.Made l p) (ok : p.Ok) (t : Terminator) : p₀.Made l (p.ended t) :=
  { h.later (le_reopened ok) with }

theorem Made.started (h : p₀.Made l p) (m : Label) : p₀.Made l (p.started m) := by
  obtain ⟨-, -, labels, promise, -⟩ := started_parts p m
  exact {
    below := by rw [labels]; exact h.below
    fresh := h.fresh
    promise := by rw [promise]; exact h.promise }

/-- A point of a rule that has started at `p₀`, where `os` is known, and has made some labels. -/
structure Under (p₀ : Point) (os : List Operand) (labels : List Label) (p : Point) : Prop where
  start : p₀.Ok
  known : p₀.KnowsAll os
  le : p₀.Le p
  made : ∀ l ∈ labels, p₀.Made l p
  plain : ∀ l ∈ labels, l.isJoin = false

variable {os : List Operand} {labels : List Label}

theorem Ok.under (ok : p.Ok) (known : p.KnowsAll os) : p.Under os [] p :=
  ⟨ok, known, .rfl, List.forall_mem_nil _, List.forall_mem_nil _⟩

theorem Under.later (h : p₀.Under os labels p) (le : p.Le q) : p₀.Under os labels q :=
  { h with
    le := h.le.trans le
    made := fun l member => (h.made l member).later le }

theorem Under.loops (h : p₀.Under os labels p) (made : p₀.Made l p) :
    ∀ around ∈ p.frame.loops, ∀ m ∈ [around.leave, around.again], ∀ r,
      p.promise m r → p.Always r ∨ p.promise l r := by
  intro around member m either r promised
  rw [h.le.loops] at member
  obtain ⟨below, -, kept⟩ := h.start.loops around member m either
  rw [h.le.promise m below] at promised
  exact .inr ((made.promise r).mpr (kept r promised))

theorem Under.ended (h : p₀.Under os labels p) (ok : p.Ok) {t : Terminator}
    (known : p.KnowsAll t.operands) (targets : ∀ m ∈ t.targets, p₀.Made m p)
    (unopened : ∀ m ∈ t.targets, m.isJoin = true → .label m ∉ p.lines) :
    (p.ended t).Ok ∧ p₀.Under os labels (p.ended t) := by
  refine ⟨ok.ended known fun m member => ⟨(targets m member).below, fun r promised => ?_,
    unopened m member⟩, ?_⟩
  · exact h.le.reads r (((targets m member).promise r).mp promised)
  · exact {
      h with
      le := le_ended ok h.le fun m member _ => (targets m member).fresh
      made := fun m member => (h.made m member).ended ok t }

theorem Under.started_ok (h : p₀.Under os labels p) (ok : p.Ok) (member : l ∈ labels) :
    (p.started l).Ok := by
  have made := h.made l member
  refine ok.started made.below (fun r promised => h.le.reads r ((made.promise r).mp promised)) ?_
    (h.loops made)
  rw [h.plain l member]
  exact nofun

theorem Under.started (h : p₀.Under os labels p) (member : l ∈ labels) :
    p₀.Under os labels (p.started l) where
  start := h.start
  known := h.known
  le := by
    refine le_started h.le ?_ fun r read => ((h.made l member).promise r).mpr read
    rw [h.plain l member]
    exact nofun
  made := fun m member => (h.made m member).started l
  plain := h.plain

/-- A block where values meet, before it is opened, with the blocks that branch to it so far. -/
structure Joining (p₀ : Point) (l : Label) (sources : List Label) (p : Point) : Prop where
  made : p₀.Made l p
  join : l.isJoin = true
  unopened : .label l ∉ p.lines
  sources : branchesTo l p.lines = sources

variable {sources : List Label}

theorem Joining.later (h : p₀.Joining l sources p) (le : p.Le q) : p₀.Joining l sources q where
  made := h.made.later le
  join := h.join
  unopened := le.unopened h.join h.made.below h.unopened
  sources := (le.branches h.join h.made.below).trans h.sources

theorem Joining.ended (h : p₀.Joining l sources p) (ok : p.Ok) {t : Terminator} (ok' : (p.ended t).Ok)
    {sources' : List Label}
    (all : sources' = sources ++ if l ∈ t.targets then [(p.ended t).frame.block] else []) :
    p₀.Joining l sources' (p.ended t) := by
  have reopened := h.later (le_reopened ok)
  have here : lastLabel p.reopened.lines = (p.ended t).frame.block := by
    rw [← ok'.position, lines_ended, lastLabel_concat]
    rfl
  exact {
    made := h.made.ended ok t
    join := h.join
    unopened := by rw [lines_ended]; simpa using reopened.unopened
    sources := by
      rw [lines_ended, branchesTo_concat, reopened.sources, here, all]
      rfl }

theorem Joining.started (h : p₀.Joining l sources p) (under : p₀.Under os labels p) {m : Label}
    (member : m ∈ labels) : p₀.Joining l sources (p.started m) := by
  have other : m ≠ l := by
    rintro rfl
    have plain := under.plain m member
    rw [h.join] at plain
    cases plain
  obtain ⟨jump, lines, either⟩ := lines_started p m
  have untouched : branchesTo l (p.lines ++ jump) = branchesTo l p.lines := by
    rcases either with rfl | ⟨-, rfl⟩
    · rw [List.append_nil]
    · exact branchesTo_untouched (by simp [Line.targets, Terminator.targets, other.symm]) _
  exact {
    made := h.made.started m
    join := h.join
    unopened := by
      rw [lines]
      have absent := h.unopened
      rcases either with rfl | ⟨-, rfl⟩ <;> simp [absent, other.symm]
    sources := by
      rw [lines, branchesTo_untouched List.not_mem_nil, untouched, h.sources] }

/-! ### Operands of a phi -/

/-- What is written stays, whatever block is open. -/
structure Grows (p q : Point) : Prop where
  always : ∀ r, p.Always r → q.Always r
  labels : p.frame.nextLabel ≤ q.frame.nextLabel
  promise : ∀ l, l.Below p.frame.nextLabel → q.promise l = p.promise l
  lines : p.lines <+: q.lines

theorem Grows.trans {q' : Point} (h : p.Grows q) (h' : q.Grows q') : p.Grows q' where
  always := fun r always => h'.always r (h.always r always)
  labels := Nat.le_trans h.labels h'.labels
  promise := fun l below => (h'.promise l (below.mono h.labels)).trans (h.promise l below)
  lines := h.lines.trans h'.lines

theorem Le.grows (h : p.Le q) : p.Grows q where
  always := fun _ always => h.always always
  labels := h.labels
  promise := h.promise
  lines := by
    obtain ⟨more, same, -⟩ := h.lines
    exact ⟨more, same.symm⟩

theorem grows_ended (ok : p.Ok) (t : Terminator) : p.Grows (p.ended t) :=
  (le_reopened ok).grows.trans {
    always := fun _ always => always
    labels := Nat.le_refl _
    promise := fun _ _ => rfl
    lines := by rw [lines_ended]; exact List.prefix_append _ _ }

theorem grows_started (p : Point) (m : Label) : p.Grows (p.started m) := by
  obtain ⟨incoming, slots, labels, promise, -⟩ := started_parts p m
  obtain ⟨jump, lines, -⟩ := lines_started p m
  exact {
    always := by unfold Always; rw [incoming, slots]; exact fun _ always => always
    labels := labels.ge
    promise := fun _ _ => by rw [promise]
    lines := by rw [lines, List.append_assoc]; exact List.prefix_append _ _ }

def KnowsAt (p : Point) (arm : Operand × Label) : Prop :=
  arm.2.Below p.frame.nextLabel ∧ ∀ r, arm.1 = .reg r →
    p.Written r ∧ AvailableAfter p.Always p.promise p.lines arm.2 r

theorem Grows.knowsAt (h : p.Grows q) {arm : Operand × Label} (known : p.KnowsAt arm) :
    q.KnowsAt arm := by
  obtain ⟨below, known⟩ := known
  obtain ⟨more, lines⟩ := h.lines
  refine ⟨below.mono h.labels, fun r same => ?_⟩
  obtain ⟨written, available⟩ := known r same
  constructor
  · refine written.imp (h.always r) fun set => ?_
    rw [← lines, settings_append]
    exact List.mem_append_left _ set
  · rcases available with always | promised | ⟨before, line, after, split, position, set⟩
    · exact .inl (h.always r always)
    · rw [← h.promise _ below] at promised
      exact .inr (.inl promised)
    · refine .inr (.inr ⟨before, line, after ++ more, ?_, position, set⟩)
      rw [← lines, split]
      simp

theorem Ok.knowsAt (ok : p.Ok) (going : p.frame.terminated = false) {o : Operand}
    (known : p.Knows o) : p.KnowsAt (o, p.frame.block) := by
  rw [← ok.position]
  refine ⟨ok.below_last, fun r same => ?_⟩
  obtain ⟨written, read⟩ := known r same
  refine ⟨written, ?_⟩
  rcases read with stopped | always | promised | set
  · rw [going] at stopped
    cases stopped
  · exact .inl always
  · exact .inr (.inl promised)
  · obtain ⟨line, member, dst⟩ := List.mem_filterMap.mp set
    obtain ⟨xs, ys, split⟩ := List.append_of_mem member
    obtain ⟨before, after, lines, position, -⟩ := openLines_split split
    exact .inr (.inr ⟨before, line, after, lines, position, dst⟩)

theorem Ok.knowsAt_constant (ok : p.Ok) {o : Operand} (h : ∀ r, o ≠ .reg r) :
    p.KnowsAt (o, p.frame.block) :=
  ⟨ok.position ▸ ok.below_last, fun r same => (h r same).elim⟩

theorem block_ended (going : p.frame.terminated = false) (t : Terminator) :
    (p.ended t).frame.block = p.frame.block := by
  rw [Point.ended, reopened_of_going going]
  rfl

theorem Joining.opened (h : p₀.Joining l sources p) (under : p₀.Under os labels p) (ok : p.Ok)
    (stopped : p.frame.terminated = true) :
    (p.started l).Ok ∧ p₀.Le (p.started l) ∧ (p.started l).lines = p.lines ++ [.label l] ∧
      branchesTo l (p.started l).lines = sources := by
  have lines : (p.started l).lines = p.lines ++ [.label l] := by
    rw [Point.started, if_pos stopped, lines_entered]
  refine ⟨?_, ?_, lines, ?_⟩
  · exact ok.started h.made.below (fun r promised => under.le.reads r ((h.made.promise r).mp promised))
      (fun _ => .inl stopped) (under.loops h.made)
  · exact le_started under.le (fun _ => h.made.fresh) fun r read => (h.made.promise r).mpr read
  · rw [lines, branchesTo_untouched List.not_mem_nil, h.sources]

theorem Ok.phi (ok : p.Ok) (going : p.frame.terminated = false) {init : List Line}
    (lines : p.lines = init ++ [.label l]) (join : l.isJoin = true) (ty : IrType)
    {arms : List (Operand × Label)} (known : ∀ arm ∈ arms, p.KnowsAt arm)
    (merges : (l.isTernaryEnd = false ∧ ∀ r, p.promise l r) ∨
      arms.map Prod.snd = branchesTo l p.lines) (location : Option Nat) :
    (p.pushed (.instr (.phi (.temp p.frame.nextReg) ty arms) location) (p.frame.nextReg + 1) false).Ok := by
  refine ok.pushed going rfl (.inr ⟨rfl, rfl⟩) ?_ ?_ nofun ?_
  · exact {
      reads := nofun
      arms := fun r m arm => ((known _ arm).2 r rfl).2
      targets := nofun
      written := by
        intro r mention
        obtain ⟨arm, member, same⟩ := List.mem_map.mp mention
        exact ((known arm member).2 r same).1 }
  · intro m mention
    obtain ⟨arm, member, rfl⟩ := List.mem_map.mp mention
    exact (known arm member).1
  · refine ⟨init, l, lines, join, merges.imp_right fun exact => ?_⟩
    rw [lines_pushed, branchesTo_untouched List.not_mem_nil, exact]

/-! ### New labels -/

/-- The point with one more label, for a rule that has started at `p₀`. -/
noncomputable def labelled (p₀ : Point) (stem : String) (p : Point) : Point :=
  p.promising (p.frame.nextLabel + 1)
    (Function.update p.promise (.fresh stem p.frame.nextLabel) p₀.Reads)

theorem Ok.labelled (ok : p.Ok) (p₀ : Point) (stem : String) : (p₀.labelled stem p).Ok :=
  ok.promising (Nat.le_succ _) (update_below _ stem _)

theorem le_labelled (p₀ : Point) (ok : p.Ok) (stem : String) : p.Le (p₀.labelled stem p) :=
  ok.le_promising (Nat.le_succ _) (update_below _ stem _)

theorem made_labelled (le : p₀.Le p) (stem : String) :
    p₀.Made (.fresh stem p.frame.nextLabel) (p₀.labelled stem p) where
  below := Label.below_fresh _ _
  fresh := fun below => Label.not_below_fresh stem _ (below.mono le.labels)
  promise := by
    intro r
    change Function.update p.promise _ p₀.Reads _ r ↔ _
    rw [Function.update_self]

theorem Under.labelled (h : p₀.Under os labels p) (ok : p.Ok) (stem : String)
    (plain : (Label.fresh stem 0).isJoin = false) :
    p₀.Under os (.fresh stem p.frame.nextLabel :: labels) (p₀.labelled stem p) := by
  have later := h.later (le_labelled p₀ ok stem)
  exact {
    later with
    made := List.forall_mem_cons.mpr ⟨made_labelled h.le stem, later.made⟩
    plain := List.forall_mem_cons.mpr ⟨plain, later.plain⟩ }

theorem joining_labelled (ok : p.Ok) (le : p₀.Le p) (stem : String)
    (join : (Label.fresh stem 0).isJoin = true) :
    p₀.Joining (.fresh stem p.frame.nextLabel) [] (p₀.labelled stem p) where
  made := made_labelled le stem
  join := join
  unopened := fun member =>
    Label.not_below_fresh stem _ (ok.numbered _ member _ (.inl rfl))
  sources := by
    refine branchesTo_eq_nil fun line member target => ?_
    have mentioned : .fresh stem p.frame.nextLabel ∈ line.mentioned := by
      cases line with
      | term t location => exact target
      | _ => cases target
    exact Label.not_below_fresh stem _ (ok.numbered line member _ (.inr mentioned))

end Point

namespace Emit

variable {α : Type} {p₀ : Point} {os : List Operand} {labels : List Label}

theorem Supplies.underAlso (now : List Operand) {x : Emit α} {R : α → List Operand}
    (h : Supplies (now ++ os) x R) :
    Carries (fun p => p.KnowsAll now ∧ p₀.Under os labels p) x fun a q =>
      q.KnowsAll (R a) ∧ p₀.Under os labels q := by
  intro p s a f' s' ran ok start
  obtain ⟨known, under⟩ := start
  obtain ⟨q, same, ok', le, -, supplied⟩ :=
    h p ran ok ⟨rfl, Point.knowsAll_append.mpr ⟨known, under.le.knowsAll under.known⟩⟩
  exact ⟨q, same, ok', supplied, under.later le⟩

theorem Supplies.under {x : Emit α} {R : α → List Operand} (h : Supplies os x R) :
    Carries (p₀.Under os labels) x fun a q => q.KnowsAll (R a) ∧ p₀.Under os labels q :=
  (underAlso [] h).imp (fun _ under => ⟨Point.knowsAll_nil, under⟩) fun _ _ h => h

theorem Proceeds.under {x : Emit α} (h : Proceeds os x) :
    Carries (p₀.Under os labels) x fun _ => p₀.Under os labels := by
  intro p s a f' s' ran ok under
  obtain ⟨q, same, ok', le⟩ := h p ran ok ⟨rfl, under.le.knowsAll under.known⟩
  exact ⟨q, same, ok', under.later le⟩

theorem Proceeds.of_under {x : Emit α} (h : ∀ p₀ : Point, Carries (p₀.Under os []) x fun _ => p₀.Le) :
    Proceeds os x := by
  intro p₀ p s a f' s' ran ok start
  obtain ⟨rfl, known⟩ := start
  exact h p ran ok (ok.under known)

theorem Supplies.of_under {x : Emit α} {R : α → List Operand}
    (h : ∀ p₀ : Point, Carries (p₀.Under os []) x fun a q =>
      p₀.Le q ∧ q.frame.terminated = false ∧ q.KnowsAll (R a)) : Supplies os x R := by
  intro p₀ p s a f' s' ran ok start
  obtain ⟨rfl, known⟩ := start
  obtain ⟨q, same, ok', le, going, supplied⟩ := h p ran ok (ok.under known)
  exact ⟨q, same, ok', le, fun _ => going, supplied⟩

/-! ### Labels and blocks -/

theorem freshLabel_run {stem : String} {p : Point} {l : Label} {f' : Frame} {s s' : Session}
    (p₀ : Point) (h : freshLabel stem p.frame s = .ok (l, f') s') :
    l = .fresh stem p.frame.nextLabel ∧ f' = (p₀.labelled stem p).frame := by
  cases h
  exact ⟨rfl, rfl⟩

theorem freshLabel_under {stem : String} (plain : (Label.fresh stem 0).isJoin = false) :
    Carries (p₀.Under os labels) (freshLabel stem) fun l => p₀.Under os (l :: labels) := by
  intro p s l f' s' ran ok under
  obtain ⟨rfl, rfl⟩ := freshLabel_run p₀ ran
  exact ⟨p₀.labelled stem p, rfl, ok.labelled p₀ stem, under.labelled ok stem plain⟩

theorem terminate_under (os' : List Operand) {t : Terminator} (targets : t.targets ⊆ labels)
    (known : ∀ p : Point, p.KnowsAll os' → p.KnowsAll os → p.KnowsAll t.operands) :
    Carries (fun p => p.KnowsAll os' ∧ p₀.Under os labels p) (terminate t)
      fun _ => p₀.Under os labels := by
  intro p s _ f' s' ran ok start
  obtain ⟨now, under⟩ := start
  obtain ⟨ok', under'⟩ := under.ended ok (known p now (under.le.knowsAll under.known))
    (fun l target => under.made l (targets target)) fun l target join => by
      rw [under.plain l (targets target)] at join
      cases join
  exact ⟨p.ended t, (terminate_run ran).symm, ok', under'⟩

theorem startBlock_under {l : Label} (member : l ∈ labels) :
    Carries (p₀.Under os labels) (startBlock l) fun _ q =>
      q.frame.terminated = false ∧ p₀.Under os labels q :=
  fun p _ _ _ _ ran ok under => ⟨p.started l, (startBlock_run ran).symm, under.started_ok ok member,
    p.started_going l, under.started member⟩

theorem jumpTo_under {l : Label} (member : l ∈ labels) :
    Carries (p₀.Under os labels) (jumpTo l) fun _ => p₀.Under os labels := by
  intro p s _ f' s' ran ok under
  obtain ⟨now, f₁, s₁, got, rest⟩ := bind_ok ran
  obtain ⟨rfl, rfl, rfl⟩ := get_ok got
  split at rest
  case isTrue =>
    obtain ⟨-, rfl, -⟩ := pure_ok rest
    exact ⟨p, rfl, ok, under⟩
  case isFalse =>
    refine terminate_under [] ?_ ?_ rest ok ⟨Point.knowsAll_nil, under⟩
    · exact List.cons_subset.mpr ⟨member, List.nil_subset _⟩
    · exact fun _ _ _ => Point.knowsAll_nil

/-! ### Blocks where values meet -/

section

variable {p : Point} {l : Label} {sources : List Label} {s s₁ s₂ s₂' s' : Session} {f₁ f₂ f' : Frame}

theorem terminate_joins {t : Terminator} (ran : terminate t p.frame s = .ok ((), f') s') (ok : p.Ok)
    (under : p₀.Under os labels p) (joining : p₀.Joining l sources p) (known : p.KnowsAll t.operands)
    (target : l ∈ t.targets) (targets : ∀ m ∈ t.targets, m = l ∨ m ∈ labels) :
    ∃ q : Point, q.frame = f' ∧ q.Ok ∧ q.frame.terminated = true ∧
      (p.frame.terminated = false → q.frame.block = p.frame.block) ∧ p₀.Under os labels q ∧
      p₀.Joining l (sources ++ [q.frame.block]) q ∧ p.Grows q := by
  have plain {m : Label} (member : m ∈ labels) (join : m.isJoin = true) : .label m ∉ p.lines := by
    rw [under.plain m member] at join
    cases join
  obtain ⟨ok', under'⟩ := under.ended ok known
    (fun m target => (targets m target).elim (fun same => same ▸ joining.made) (under.made m))
    fun m target => (targets m target).elim (fun same _ => same ▸ joining.unopened) plain
  exact ⟨p.ended t, (terminate_run ran).symm, ok', rfl, fun going => Point.block_ended going t, under',
    joining.ended ok ok' (by rw [if_pos target]), Point.grows_ended ok t⟩

theorem terminate_aside {t : Terminator} (ran : terminate t p.frame s = .ok ((), f') s') (ok : p.Ok)
    (under : p₀.Under os labels p) (joining : p₀.Joining l sources p) (known : p.KnowsAll t.operands)
    (targets : t.targets ⊆ labels) :
    ∃ q : Point, q.frame = f' ∧ q.Ok ∧ p₀.Under os labels q ∧ p₀.Joining l sources q := by
  have plain {m : Label} (target : m ∈ t.targets) : m.isJoin = false := under.plain m (targets target)
  obtain ⟨ok', under'⟩ := under.ended ok known (fun m target => under.made m (targets target))
    fun m target join => by rw [plain target] at join; cases join
  refine ⟨p.ended t, (terminate_run ran).symm, ok', under', joining.ended ok ok' ?_⟩
  have other : l ∉ t.targets := fun target => by
    have join := joining.join
    rw [plain target] at join
    cases join
  rw [if_neg other, List.append_nil]

theorem arm_joins {x : Emit α} {o : α → Operand} {a : α} {m : Label}
    (h : Supplies [] x fun a => [o a]) (ok : p.Ok) (under : p₀.Under os labels p)
    (joining : p₀.Joining l sources p) (member : m ∈ labels)
    (started : startBlock m p.frame s = .ok ((), f₁) s₁) (ran : x f₁ s₁ = .ok (a, f₂) s₂)
    (ended : terminate (.jump l) f₂ s₂' = .ok ((), f') s') :
    f₂.block = f'.block ∧ ∃ q : Point, q.frame = f' ∧ q.Ok ∧ q.frame.terminated = true ∧
      p₀.Under os labels q ∧ p₀.Joining l (sources ++ [f'.block]) q ∧ q.KnowsAt (o a, f'.block) ∧
      p.Grows q := by
  obtain rfl := startBlock_run started
  have opened := under.started member
  obtain ⟨p₂, rfl, ok₂, le, going, supplied⟩ :=
    h _ ran (under.started_ok ok member) ⟨rfl, Point.knowsAll_nil⟩
  have going := going (p.started_going m)
  obtain ⟨q, rfl, ok', stopped, same, under', joining', grows⟩ := terminate_joins ended ok₂
    (opened.later le) ((joining.started under member).later le) Point.knowsAll_nil List.mem_cons_self
    fun m target => .inl (List.mem_singleton.mp target)
  have same := same going
  refine ⟨same.symm, q, rfl, ok', stopped, under', joining', ?_, ?_⟩
  · rw [same]
    exact grows.knowsAt (ok₂.knowsAt going (Point.knowsAll_cons.mp supplied).1)
  · exact ((p.grows_started m).trans le.grows).trans grows

theorem phi_joins {ty : IrType} {arms : List (Operand × Label)} {v : Value} (ok : p.Ok)
    (stopped : p.frame.terminated = true) (under : p₀.Under os labels p)
    (joining : p₀.Joining l sources p) (known : ∀ arm ∈ arms, p.KnowsAt arm)
    (merges : (l.isTernaryEnd = false ∧ ∀ r, p₀.Reads r) ∨ arms.map Prod.snd = sources)
    (started : startBlock l p.frame s = .ok ((), f₁) s₁)
    (ran : emitValue ty (fun dst => .phi dst ty arms) f₁ s₁ = .ok (v, f') s') :
    ∃ q : Point, q.frame = f' ∧ q.Ok ∧ p₀.Le q ∧ q.frame.terminated = false ∧
      q.KnowsAll [v.operand] := by
  obtain rfl := startBlock_run started
  obtain ⟨ok', le, lines, branches⟩ := joining.opened under ok stopped
  have going := p.started_going l
  obtain ⟨rfl, rfl⟩ := emitValue_run ran
  rw [Point.reopened_of_going going]
  refine ⟨_, rfl, ?_, le.trans (Point.le_pushed going rfl rfl), rfl, ?_⟩
  · refine ok'.phi going lines joining.join ty (fun arm member => ?_) (merges.imp ?_ ?_) _
    · exact (p.grows_started l).knowsAt (known arm member)
    · exact fun ⟨other, all⟩ => ⟨other, fun r => ((joining.made.started l).promise r).mpr (all r)⟩
    · exact fun exact => exact.trans branches.symm
  · exact Point.knowsAll_cons.mpr ⟨Point.knows_pushed going rfl, Point.knowsAll_nil⟩

end

end Emit

end Backend
