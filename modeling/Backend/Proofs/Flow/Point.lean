import Backend.Proofs.Blocks.Frame
import Backend.Proofs.Flow.Shape

/-!
Points of a lowering. A point is a frame with what its labels promise. A new label promises what is
set where it is made, so that it may be branched to from then on; behind a terminator nothing is
reached and everything counts as set. `Point.Le` says that a later point still has all that an
earlier one had.
-/

namespace Backend

/-- Labels that a frame has given out already have numbers below its next one. -/
def Label.Below (n : Nat) (l : Label) : Prop := ∀ k, l.number? = some k → k < n

def Label.isJoin : Label → Bool
  | .entry => false
  | .fresh stem _ => stem = "and.end" || stem = "or.end" || stem = "ternary.end"

def Label.isTernaryEnd : Label → Bool
  | .entry => false
  | .fresh stem _ => stem = "ternary.end"

theorem Label.Below.mono {m n : Nat} {l : Label} (h : l.Below m) (le : m ≤ n) : l.Below n :=
  fun k number => Nat.lt_of_lt_of_le (h k number) le

theorem Label.below_fresh (stem : String) (n : Nat) : (Label.fresh stem n).Below (n + 1) := by
  intro k number
  cases number
  exact Nat.lt_succ_self n

theorem Label.not_below_fresh (stem : String) (n : Nat) : ¬(Label.fresh stem n).Below n :=
  fun h => Nat.lt_irrefl n (h n rfl)

theorem Label.below_entry (n : Nat) : Label.entry.Below n := fun _ number => nomatch number

/-- The blocks whose lines branch to `l`, in order. The lines start in block `here`. -/
def branchesFrom (l : Label) (here : Label) : List Line → List Label
  | [] => []
  | line :: rest =>
    (if l ∈ line.targets then [here] else []) ++ branchesFrom l (line.label?.getD here) rest

def branchesTo (l : Label) (lines : List Line) : List Label := branchesFrom l .entry lines

theorem branchesTo_concat (l : Label) (lines : List Line) (line : Line) :
    branchesTo l (lines ++ [line]) =
      branchesTo l lines ++ if l ∈ line.targets then [lastLabel lines] else [] := by
  unfold branchesTo lastLabel
  generalize Label.entry = here
  induction lines generalizing here with
  | nil => simp [branchesFrom]
  | cons first rest ih => rw [List.cons_append, branchesFrom, branchesFrom, ih, List.append_assoc]; rfl

theorem branchesTo_untouched {l : Label} {line : Line} (other : l ∉ line.targets) (lines : List Line) :
    branchesTo l (lines ++ [line]) = branchesTo l lines := by
  rw [branchesTo_concat, if_neg other, List.append_nil]

theorem branchesTo_eq_nil {l : Label} {lines : List Line} (h : ∀ line ∈ lines, l ∉ line.targets) :
    branchesTo l lines = [] := by
  induction lines using List.reverseRecOn with
  | nil => rfl
  | append_singleton init last ih =>
    rw [branchesTo_untouched (h last (by simp))]
    exact ih fun line member => h line (List.mem_append_left _ member)

theorem lastLabel_cases (lines : List Line) :
    lastLabel lines = .entry ∨ .label (lastLabel lines) ∈ lines := by
  induction lines using List.reverseRecOn with
  | nil => exact .inl rfl
  | append_singleton init last ih =>
    rw [lastLabel_concat]
    cases last with
    | label l => exact .inr (by simp [Line.label?])
    | instr i location => exact ih.imp_right (List.mem_append_left _)
    | term t location => exact ih.imp_right (List.mem_append_left _)

section

variable {always : Register → Prop} {promise : Promises} {lines : List Line}

theorem available_inner {line : Line} (inner : line.label? = none) (r : Register) :
    Available always promise (lines ++ [line]) r ↔
      Available always promise lines r ∨ line.dst? = some r := by
  unfold Available
  rw [lastLabel_concat, openLines_concat, inner, Option.getD_none, if_neg (by simp), settings_append,
    List.mem_append, settings, settings]
  simp [or_assoc]

theorem available_label (l : Label) (r : Register) :
    Available always promise (lines ++ [.label l]) r ↔ always r ∨ promise l r := by
  unfold Available
  rw [lastLabel_concat, openLines_concat]
  simp [Line.label?, settings]

variable {always' : Register → Prop} {promise' : Promises}

theorem Available.congr {r : Register} (h : Available always promise lines r)
    (sub : ∀ r, always r → always' r)
    (same : promise' (lastLabel lines) = promise (lastLabel lines)) :
    Available always' promise' lines r := by
  unfold Available
  rw [same]
  exact h.imp_left (sub r)

theorem LineSound.congr {line : Line} (h : LineSound always promise lines line)
    (sub : ∀ r, always r → always' r)
    (same : ∀ l, l = lastLabel lines ∨ l ∈ line.mentioned → promise' l = promise l) :
    LineSound always' promise' lines line where
  reads := fun r read => (h.reads r read).congr sub (same _ (.inl rfl))
  arms := by
    intro r l arm
    have mentioned : l ∈ line.mentioned := by
      cases line with
      | instr i location =>
        cases i with
        | phi dst ty incoming => exact List.mem_map_of_mem arm
        | _ => cases arm
      | _ => cases arm
    unfold AvailableAfter
    rw [same l (.inr mentioned)]
    exact (h.arms r l arm).imp_left (sub r)
  targets := by
    intro l target r promised
    have mentioned : l ∈ line.mentioned := by
      cases line with
      | term t location => exact target
      | _ => cases target
    rw [same l (.inr mentioned)] at promised
    exact (h.targets l target r promised).congr sub (same _ (.inl rfl))
  written := fun r read => (h.written r read).imp_left (sub r)

end

structure Point where
  frame : Frame
  /-- Registers that the function is called with. -/
  incoming : List Register
  promise : Promises

namespace Point

def lines (p : Point) : List Line := p.frame.body.toList

def slots (p : Point) : List Register := p.frame.slots.toList.map Prod.fst

def Always (p : Point) (r : Register) : Prop := r ∈ p.incoming ∨ r ∈ p.slots

def Written (p : Point) (r : Register) : Prop := p.Always r ∨ r ∈ settings p.lines

/-- The register can be read. Behind a terminator nothing is ever reached. -/
def Reads (p : Point) (r : Register) : Prop :=
  p.frame.terminated = true ∨ Available p.Always p.promise p.lines r

def Knows (p : Point) (o : Operand) : Prop := ∀ r, o = .reg r → p.Written r ∧ p.Reads r

def KnowsAll (p : Point) (os : List Operand) : Prop := ∀ o ∈ os, p.Knows o

/-- A phi stands first in its block and names the blocks that branch there. Where a left operand was
lowered behind a terminator, the block is never reached. -/
def Merges (p : Point) (before : List Line) : Line → Prop
  | .instr (.phi _ _ arms) _ => ∃ init l, before = init ++ [.label l] ∧ l.isJoin = true ∧
      ((l.isTernaryEnd = false ∧ ∀ r, p.promise l r) ∨
        arms.map Prod.snd = branchesTo l p.lines)
  | _ => True

structure Ok (p : Point) : Prop where
  position : lastLabel p.lines = p.frame.block
  /-- Every register that has been given out is set once. -/
  counted : (p.slots ++ settings p.lines).Perm ((List.range p.frame.nextReg).map .temp)
  sound : Everywhere (LineSound p.Always p.promise) p.lines
  start : ∀ r, ¬p.promise .entry r
  numbered : ∀ line ∈ p.lines, ∀ l, line = .label l ∨ l ∈ line.mentioned →
    l.Below p.frame.nextLabel
  locals : ∀ name l, p.frame.locals.find? name = some l → l.slot ∈ p.slots
  loops : ∀ labels ∈ p.frame.loops, ∀ l ∈ [labels.leave, labels.again],
    l.Below p.frame.nextLabel ∧ l.isJoin = false ∧ ∀ r, p.promise l r → p.Reads r
  merges : Everywhere p.Merges p.lines

/-- What a later point keeps of an earlier one. Blocks where values meet are branched to and opened
only by the rule that makes them. -/
structure Le (p q : Point) : Prop where
  incoming : q.incoming = p.incoming
  slots : p.slots ⊆ q.slots
  labels : p.frame.nextLabel ≤ q.frame.nextLabel
  promise : ∀ l, l.Below p.frame.nextLabel → q.promise l = p.promise l
  loops : q.frame.loops = p.frame.loops
  reads : ∀ r, p.Reads r → q.Reads r
  lines : ∃ more, q.lines = p.lines ++ more ∧ ∀ line ∈ more, ∀ l,
    line = .label l ∨ l ∈ line.targets → l.isJoin = true → ¬l.Below p.frame.nextLabel

variable {p q q' : Point}

theorem Le.rfl : p.Le p where
  incoming := Eq.refl _
  slots := List.Subset.refl _
  labels := Nat.le_refl _
  promise := fun _ _ => Eq.refl _
  loops := Eq.refl _
  reads := fun _ h => h
  lines := ⟨[], (List.append_nil _).symm, fun _ member => nomatch member⟩

theorem Le.trans (h : p.Le q) (h' : q.Le q') : p.Le q' where
  incoming := h'.incoming.trans h.incoming
  slots := fun _ member => h'.slots (h.slots member)
  labels := Nat.le_trans h.labels h'.labels
  promise := fun l below => (h'.promise l (below.mono h.labels)).trans (h.promise l below)
  loops := h'.loops.trans h.loops
  reads := fun r read => h'.reads r (h.reads r read)
  lines := by
    obtain ⟨more, same, fresh⟩ := h.lines
    obtain ⟨more', same', fresh'⟩ := h'.lines
    refine ⟨more ++ more', by rw [same', same, List.append_assoc], fun line member l concerned join => ?_⟩
    rcases List.mem_append.mp member with member | member
    · exact fresh line member l concerned join
    · exact fun below => fresh' line member l concerned join (below.mono h.labels)

theorem Le.always (h : p.Le q) {r : Register} (always : p.Always r) : q.Always r := by
  unfold Always at always ⊢
  rw [h.incoming]
  exact always.imp_right fun slot => h.slots slot

theorem Le.knows (h : p.Le q) {o : Operand} (known : p.Knows o) : q.Knows o := by
  intro r same
  obtain ⟨written, read⟩ := known r same
  refine ⟨written.imp h.always fun set => ?_, h.reads r read⟩
  obtain ⟨more, lines, -⟩ := h.lines
  rw [lines, settings_append]
  exact List.mem_append_left _ set

theorem Le.knowsAll (h : p.Le q) {os : List Operand} (known : p.KnowsAll os) : q.KnowsAll os :=
  fun o member => h.knows (known o member)

theorem Le.branches (h : p.Le q) {l : Label} (join : l.isJoin = true)
    (below : l.Below p.frame.nextLabel) : branchesTo l q.lines = branchesTo l p.lines := by
  obtain ⟨more, lines, fresh⟩ := h.lines
  rw [lines]
  clear lines
  induction more using List.reverseRecOn with
  | nil => rw [List.append_nil]
  | append_singleton init last ih =>
    have untouched : l ∉ last.targets := fun target =>
      fresh last (by simp) l (.inr target) join below
    rw [← List.append_assoc, branchesTo_untouched untouched,
      ih fun line member => fresh line (List.mem_append_left _ member)]

theorem Le.unopened (h : p.Le q) {l : Label} (join : l.isJoin = true)
    (below : l.Below p.frame.nextLabel) (unopened : .label l ∉ p.lines) : .label l ∉ q.lines := by
  obtain ⟨more, lines, fresh⟩ := h.lines
  rw [lines]
  intro member
  rcases List.mem_append.mp member with old | new
  · exact unopened old
  · exact fresh _ new l (.inl (Eq.refl _)) join below

theorem Ok.below_of_split (ok : p.Ok) {before after : List Line} {line : Line}
    (h : p.lines = before ++ line :: after) {l : Label}
    (concerned : l = lastLabel before ∨ l ∈ line.mentioned) : l.Below p.frame.nextLabel := by
  rcases concerned with rfl | mentioned
  · rcases lastLabel_cases before with first | member
    · rw [first]
      exact Label.below_entry _
    · exact ok.numbered _ (by rw [h]; exact List.mem_append_left _ member) _ (.inl (Eq.refl _))
  · exact ok.numbered line (by rw [h]; simp) l (.inr mentioned)

theorem Ok.below_last (ok : p.Ok) : (lastLabel p.lines).Below p.frame.nextLabel := by
  rcases lastLabel_cases p.lines with first | member
  · rw [first]
    exact Label.below_entry _
  · exact ok.numbered _ member _ (.inl (Eq.refl _))

/-! ### Labels -/

def promising (p : Point) (n : Nat) (promise : Promises) : Point :=
  { p with frame := { p.frame with nextLabel := n }, promise }

section

variable {n : Nat} {promise : Promises}

theorem reads_promising (ok : p.Ok)
    (same : ∀ l, l.Below p.frame.nextLabel → promise l = p.promise l) (r : Register) :
    (p.promising n promise).Reads r ↔ p.Reads r := by
  change _ ∨ Available p.Always promise p.lines r ↔ _
  unfold Reads Available
  rw [same _ ok.below_last]
  rfl

theorem Ok.promising (ok : p.Ok) (more : p.frame.nextLabel ≤ n)
    (same : ∀ l, l.Below p.frame.nextLabel → promise l = p.promise l) :
    (p.promising n promise).Ok where
  position := ok.position
  counted := ok.counted
  sound := ok.sound.imp fun before line after split sound =>
    sound.congr (fun _ h => h) fun l concerned => same l (ok.below_of_split split concerned)
  start := fun r promised => ok.start r (same _ (Label.below_entry _) ▸ promised)
  numbered := fun line member l concerned => (ok.numbered line member l concerned).mono more
  locals := ok.locals
  loops := by
    intro labels member l either
    obtain ⟨below, other, kept⟩ := ok.loops labels member l either
    refine ⟨below.mono more, other, fun r promised => (reads_promising ok same r).mpr (kept r ?_)⟩
    rw [← same l below]
    exact promised
  merges := by
    refine ok.merges.imp fun before line after split merges => ?_
    unfold Merges at merges ⊢
    split at merges
    case h_1 =>
      obtain ⟨init, l, rfl, join, either⟩ := merges
      have below : l.Below p.frame.nextLabel :=
        ok.numbered (.label l) (by rw [split]; simp) l (.inl (Eq.refl _))
      refine ⟨init, l, Eq.refl _, join, either.imp_left fun ⟨other, all⟩ => ⟨other, fun r => ?_⟩⟩
      change promise l r
      rw [same l below]
      exact all r
    case h_2 => trivial

theorem Ok.le_promising (ok : p.Ok) (more : p.frame.nextLabel ≤ n)
    (same : ∀ l, l.Below p.frame.nextLabel → promise l = p.promise l) :
    p.Le (p.promising n promise) :=
  { (Le.rfl : p.Le p) with
    labels := more
    promise := same
    reads := fun r => (reads_promising ok same r).mpr }

end

/-! ### Blocks -/

def entered (p : Point) (l : Label) : Point := { p with frame := p.frame.entered l }

theorem lines_entered (p : Point) (l : Label) : (p.entered l).lines = p.lines ++ [.label l] :=
  Array.toList_push

theorem reads_entered (p : Point) (l : Label) (r : Register) :
    (p.entered l).Reads r ↔ p.Always r ∨ p.promise l r := by
  unfold Reads
  rw [lines_entered, available_label]
  simp [entered, Frame.entered, Always, Point.slots]

theorem Ok.entered (ok : p.Ok) {l : Label} (below : l.Below p.frame.nextLabel)
    (loops : ∀ labels ∈ p.frame.loops, ∀ m ∈ [labels.leave, labels.again], ∀ r,
      p.promise m r → p.Always r ∨ p.promise l r) : (p.entered l).Ok where
  position := by rw [lines_entered, lastLabel_concat]; rfl
  counted := by
    rw [lines_entered, settings_append]
    exact (List.append_nil (settings p.lines)).symm ▸ ok.counted
  sound := by
    rw [lines_entered]
    exact ok.sound.concat ⟨nofun, nofun, nofun, nofun⟩
  start := ok.start
  numbered := by
    rw [lines_entered]
    intro line member m concerned
    rcases List.mem_append.mp member with old | new
    · exact ok.numbered line old m concerned
    · rw [List.mem_singleton.mp new] at concerned
      rcases concerned with same | nothing
      · cases same
        exact below
      · cases nothing
  locals := ok.locals
  loops := by
    intro labels member m either
    obtain ⟨below, other, -⟩ := ok.loops labels member m either
    exact ⟨below, other, fun r promised => (reads_entered p l r).mpr (loops labels member m either r promised)⟩
  merges := by
    rw [lines_entered]
    have kept : Everywhere (p.entered l).Merges p.lines := by
      refine ok.merges.imp fun before line after split merges => ?_
      unfold Merges at merges ⊢
      split at merges
      case h_1 =>
        obtain ⟨init, m, rfl, join, either⟩ := merges
        refine ⟨init, m, Eq.refl _, join, either.imp_right fun exact => ?_⟩
        rw [lines_entered, branchesTo_untouched List.not_mem_nil, exact]
      case h_2 => trivial
    exact kept.concat trivial

/-! ### Lines -/

def pushed (p : Point) (line : Line) (nextReg : Nat) (ended : Bool) : Point :=
  { p with frame := { p.frame with body := p.frame.body.push line, nextReg, terminated := ended } }

theorem lines_pushed (p : Point) (line : Line) (n : Nat) (ended : Bool) :
    (p.pushed line n ended).lines = p.lines ++ [line] :=
  Array.toList_push

def SetsNext (p : Point) (line : Line) (n : Nat) : Prop :=
  (line.dst? = none ∧ n = p.frame.nextReg) ∨
    (line.dst? = some (.temp p.frame.nextReg) ∧ n = p.frame.nextReg + 1)

section

variable {line : Line} {n : Nat} {ended : Bool}

theorem reads_pushed (going : p.frame.terminated = false) (inner : line.label? = none)
    {r : Register} (h : p.Reads r ∨ line.dst? = some r) : (p.pushed line n ended).Reads r := by
  refine .inr ?_
  rw [lines_pushed, available_inner inner]
  refine h.imp_left fun read => ?_
  rcases read with stopped | available
  · rw [going] at stopped
    cases stopped
  · exact available

theorem Ok.counted_pushed (ok : p.Ok) (sets : p.SetsNext line n) :
    (p.slots ++ settings (p.lines ++ [line])).Perm ((List.range n).map .temp) := by
  rw [settings_append, ← List.append_assoc]
  rcases sets with ⟨nothing, rfl⟩ | ⟨next, rfl⟩
  · simpa [settings, nothing] using ok.counted
  · rw [List.range_succ, List.map_append]
    exact ok.counted.append (by simp [settings, next])

/-- An open block takes a line that is sound there. Blocks where values meet are not branched to
once they are open. -/
theorem Ok.pushed (ok : p.Ok) (going : p.frame.terminated = false) (inner : line.label? = none)
    (sets : p.SetsNext line n) (sound : LineSound p.Always p.promise p.lines line)
    (mentioned : ∀ l ∈ line.mentioned, l.Below p.frame.nextLabel)
    (targets : ∀ l ∈ line.targets, l.isJoin = true → .label l ∉ p.lines)
    (merges : (p.pushed line n ended).Merges p.lines line) : (p.pushed line n ended).Ok where
  position := by rw [lines_pushed, lastLabel_concat, inner, Option.getD_none]; exact ok.position
  counted := by rw [lines_pushed]; exact ok.counted_pushed sets
  sound := by rw [lines_pushed]; exact ok.sound.concat sound
  start := ok.start
  numbered := by
    rw [lines_pushed]
    intro line' member l concerned
    rcases List.mem_append.mp member with old | new
    · exact ok.numbered line' old l concerned
    · rw [List.mem_singleton.mp new] at concerned
      rcases concerned with rfl | mention
      · cases inner
      · exact mentioned l mention
  locals := ok.locals
  loops := by
    intro labels member l either
    obtain ⟨below, other, kept⟩ := ok.loops labels member l either
    exact ⟨below, other, fun r promised => reads_pushed going inner (.inl (kept r promised))⟩
  merges := by
    rw [lines_pushed]
    have kept : Everywhere (p.pushed line n ended).Merges p.lines := by
      refine ok.merges.imp fun before line' after split merges => ?_
      unfold Merges at merges ⊢
      split at merges
      case h_1 =>
        obtain ⟨init, m, rfl, join, either⟩ := merges
        refine ⟨init, m, Eq.refl _, join, either.imp_right fun exact => ?_⟩
        have untouched : m ∉ line.targets := fun target =>
          targets m target join (by rw [split]; simp)
        rw [lines_pushed, branchesTo_untouched untouched, exact]
      case h_2 => trivial
    exact kept.concat merges

theorem le_pushed (going : p.frame.terminated = false) (inner : line.label? = none)
    (targets : line.targets = []) : p.Le (p.pushed line n ended) :=
  { Le.rfl with
    reads := fun r read => reads_pushed going inner (.inl read)
    lines := by
      refine ⟨[line], lines_pushed p line n ended, fun line' member l concerned => ?_⟩
      rw [List.mem_singleton.mp member, targets] at concerned
      rcases concerned with rfl | nothing
      · cases inner
      · cases nothing }

end

/-! ### Stack slots -/

def withSlot (p : Point) (ty : IrType) : Point :=
  { p with
    frame := { p.frame with
      slots := p.frame.slots.push (.temp p.frame.nextReg, ty)
      nextReg := p.frame.nextReg + 1 } }

theorem slots_withSlot (p : Point) (ty : IrType) :
    (p.withSlot ty).slots = p.slots ++ [.temp p.frame.nextReg] := by
  simp [withSlot, slots]

theorem always_withSlot (p : Point) (ty : IrType) {r : Register} (h : p.Always r) :
    (p.withSlot ty).Always r := by
  unfold Always
  rw [slots_withSlot]
  exact h.imp_right (List.mem_append_left _)

theorem reads_withSlot (p : Point) (ty : IrType) {r : Register} (h : p.Reads r) :
    (p.withSlot ty).Reads r :=
  h.imp_right fun available => available.congr (fun _ => always_withSlot p ty) (Eq.refl _)

theorem Ok.withSlot (ok : p.Ok) (ty : IrType) : (p.withSlot ty).Ok where
  position := ok.position
  counted := by
    rw [slots_withSlot]
    change (p.slots ++ [_] ++ settings p.lines).Perm ((List.range (p.frame.nextReg + 1)).map _)
    rw [List.range_succ, List.map_append, List.append_assoc]
    refine (List.perm_append_comm.append_left p.slots).trans ?_
    rw [← List.append_assoc]
    exact ok.counted.append_right _
  sound := ok.sound.imp fun before line after split sound =>
    sound.congr (fun _ => always_withSlot p ty) fun _ _ => Eq.refl _
  start := ok.start
  numbered := ok.numbered
  locals := fun name l found => by
    rw [slots_withSlot]
    exact List.mem_append_left _ (ok.locals name l found)
  loops := fun labels member l either => by
    obtain ⟨below, other, kept⟩ := ok.loops labels member l either
    exact ⟨below, other, fun r promised => reads_withSlot p ty (kept r promised)⟩
  merges := ok.merges

theorem le_withSlot (p : Point) (ty : IrType) : p.Le (p.withSlot ty) :=
  { Le.rfl with
    slots := by
      rw [slots_withSlot]
      exact List.subset_append_left _ _
    reads := fun _ => reads_withSlot p ty }

theorem knows_slot {r : Register} (slot : r ∈ p.slots) : p.Knows (.reg r) := by
  intro r' same
  cases same
  exact ⟨.inl (.inr slot), .inr (.inl (.inr slot))⟩

end Point

end Backend
