import Mathlib.Data.List.Lattice
import Backend.Proofs.Blocks.Shape

/-!
Registers of a function. `FunctionDef.Ssa` says that every numbered register is set by one line,
which stands before all lines that read it and on every way from the entry to them.

A way through a body that is still growing cannot be followed to its end, so lines are judged by
what each label promises: registers that are set on every way to its block. Where all lines keep the
promises, what a block is promised dominates it (`FunctionDef.supplies_of_available`).
-/

namespace Backend

variable {b : Block} {d l : Label} {line : Line} {trail : List Label}
  {after before lines xs ys : List Line} {r : Register}

def Instr.dst? : Instr → Option Register
  | .store .. => none
  | .load dst .. | .cast dst .. | .address dst .. | .arith dst .. | .compare dst ..
  | .negate dst .. | .extract dst .. | .insert dst .. | .phi dst .. => some dst
  | .call dst .. => dst

/-- The operands that are read where the instruction stands. A phi reads where it comes from. -/
def Instr.operands : Instr → List Operand
  | .store v p => [v.operand, p]
  | .load _ _ p => [p]
  | .cast _ _ v _ | .negate _ v | .extract _ v _ => [v.operand]
  | .address _ _ start indices => start :: indices.map Value.operand
  | .arith _ _ lhs rhs | .compare _ _ lhs rhs => [lhs.operand, rhs]
  | .insert _ v e _ => [v.operand, e.operand]
  | .phi .. => []
  | .call _ _ callee args => callee :: args.map Value.operand

def Instr.arms : Instr → List (Operand × Label)
  | .phi _ _ incoming => incoming
  | _ => []

def Instr.isPhi : Instr → Bool
  | .phi .. => true
  | _ => false

theorem Instr.arms_of_not_phi {i : Instr} (plain : i.isPhi = false) : i.arms = [] := by
  cases i with
  | phi dst ty incoming => cases plain
  | _ => rfl

def Terminator.operands : Terminator → List Operand
  | .ret v => [v.operand]
  | .branch c _ _ => [c]
  | .switch v _ _ => [v.operand]
  | .retVoid | .jump _ | .unreachable => []

namespace Line

def dst? : Line → Option Register
  | .instr i _ => i.dst?
  | _ => none

def operands : Line → List Operand
  | .label _ => []
  | .instr i _ => i.operands
  | .term t _ => t.operands

def arms : Line → List (Operand × Label)
  | .instr i _ => i.arms
  | _ => []

def targets : Line → List Label
  | .term t _ => t.targets
  | _ => []

def mentions (line : Line) : List Operand := line.operands ++ line.arms.map Prod.fst

end Line

def settings (lines : List Line) : List Register := lines.filterMap Line.dst?

@[simp] theorem settings_append (xs ys : List Line) :
    settings (xs ++ ys) = settings xs ++ settings ys := List.filterMap_append

namespace FunctionDef

variable (f : FunctionDef)

def slotRegisters : List Register := f.slots.map Prod.fst

def definitions : List Register := f.slotRegisters ++ settings f.body

def Edge (a b : Label) : Prop :=
  ∃ block ∈ f.blocks, block.label = a ∧ ∃ line ∈ block.lines, b ∈ line.targets

/-- A way from the entry to a block, through the blocks of a trail. -/
inductive Walk : List Label → Label → Prop
  | start : Walk [] .entry
  | step {trail : List Label} {a b : Label} (way : Walk trail a) (edge : f.Edge a b) :
      Walk (trail ++ [a]) b

def Reachable (l : Label) : Prop := ∃ trail, f.Walk trail l

def Dominates (d l : Label) : Prop := ∀ trail, f.Walk trail l → d = l ∨ d ∈ trail

/-- A line of a block sets the register. The slots are set in the entry block. -/
def SetIn (r : Register) (l : Label) : Prop :=
  (l = .entry ∧ r ∈ f.slotRegisters) ∨ ∃ b ∈ f.blocks, b.label = l ∧ r ∈ settings b.lines

/-- The setting of a register dominates a place in a block behind the lines `done` of it: it is one
of them, or it stands in another block, which dominates this one. -/
def Supplies (r : Register) (l : Label) (done : List Line) : Prop :=
  (l = .entry ∧ r ∈ f.slotRegisters) ∨ r ∈ settings done ∨
    ∃ d, d ≠ l ∧ f.SetIn r d ∧ f.Dominates d l

structure Ssa : Prop where
  numbered : ∀ r ∈ f.definitions, ∃ n, r = .temp n
  /-- No register is set by two lines. -/
  unique : (f.definitions.map Register.text).Nodup
  /-- No parameter is taken for a numbered register. -/
  distinct : ∀ p ∈ f.params, ∀ n, (Register.named p.2).text ≠ (Register.temp n).text
  /-- What is mentioned is set further up. -/
  ordered : ∀ before line after, f.body = before ++ line :: after → ∀ n,
    .reg (.temp n) ∈ line.mentions → .temp n ∈ f.slotRegisters ∨ .temp n ∈ settings before
  dominated : ∀ b ∈ f.blocks, f.Reachable b.label → ∀ before line after,
    b.lines = before ++ line :: after → ∀ n, .reg (.temp n) ∈ line.operands →
      f.Supplies (.temp n) b.label before
  /-- An operand of a phi is read at the end of the block that it comes from. -/
  merged : ∀ line ∈ f.body, ∀ n l, (.reg (.temp n), l) ∈ line.arms → f.Reachable l →
    ∀ b ∈ f.blocks, b.label = l → f.Supplies (.temp n) l b.lines

end FunctionDef

/-! ### Places in a list of lines -/

def lastLabel (lines : List Line) : Label :=
  lines.foldl (fun l line => line.label?.getD l) .entry

def openLines (lines : List Line) : List Line :=
  lines.foldl (fun done line => if line.label?.isSome then [] else done ++ [line]) []

def Everywhere (P : List Line → Line → Prop) (lines : List Line) : Prop :=
  ∀ before line after, lines = before ++ line :: after → P before line

@[simp] theorem lastLabel_concat (lines : List Line) (line : Line) :
    lastLabel (lines ++ [line]) = line.label?.getD (lastLabel lines) := by
  simp [lastLabel, List.foldl_append]

theorem openLines_concat (lines : List Line) (line : Line) :
    openLines (lines ++ [line]) =
      if line.label?.isSome then [] else openLines lines ++ [line] := by
  simp [openLines, List.foldl_append]

theorem split_concat {last : Line} (h : lines ++ [last] = before ++ line :: after) :
    (lines = before ∧ last = line ∧ after = []) ∨
      ∃ init, lines = before ++ line :: init ∧ after = init ++ [last] := by
  rcases List.eq_nil_or_concat' after with rfl | ⟨init, final, rfl⟩
  · obtain ⟨same, ends⟩ := List.append_inj' h rfl
    exact .inl ⟨same, List.singleton_inj.mp ends, rfl⟩
  · rw [← List.cons_append, ← List.append_assoc] at h
    obtain ⟨same, ends⟩ := List.append_inj' h rfl
    exact .inr ⟨init, same, by rw [List.singleton_inj.mp ends]⟩

section

variable {P Q : List Line → Line → Prop} {lines : List Line} {line : Line}

theorem everywhere_nil : Everywhere P [] := by
  intro before line after same
  simp at same

theorem Everywhere.concat (h : Everywhere P lines) (last : P lines line) :
    Everywhere P (lines ++ [line]) := by
  intro before line' after same
  rcases split_concat same with ⟨rfl, rfl, -⟩ | ⟨init, rfl, -⟩
  · exact last
  · exact h before line' init rfl

theorem Everywhere.imp (h : Everywhere P lines) (sub : ∀ before line after,
    lines = before ++ line :: after → P before line → Q before line) : Everywhere Q lines :=
  fun before line after same => sub before line after same (h before line after same)

end

theorem openLines_split (h : openLines lines = xs ++ line :: ys) :
    ∃ before after, lines = before ++ line :: after ∧ lastLabel before = lastLabel lines ∧
      openLines before = xs := by
  induction lines using List.reverseRecOn generalizing xs ys with
  | nil => simp [openLines] at h
  | append_singleton init last ih =>
    rw [openLines_concat] at h
    split at h
    case isTrue => simp at h
    case isFalse inner =>
      have unlabelled : last.label? = none := by simpa using inner
      rw [lastLabel_concat, unlabelled, Option.getD_none]
      rcases split_concat h with ⟨same, rfl, -⟩ | ⟨ys, same, -⟩
      · exact ⟨init, [], rfl, rfl, same⟩
      · obtain ⟨before, after, rfl, position, opened⟩ := ih same
        exact ⟨before, after ++ [last], by simp, position, opened⟩

/-- A line of a block stands behind the lines of that block before it. The lines `seen` end in the
block that is under way. -/
theorem blocksFrom_split (seen : List Line)
    (member : b ∈ blocksFrom (lastLabel seen) (openLines seen) lines)
    (h : b.lines = xs ++ line :: ys) :
    ∃ before after, seen ++ lines = before ++ line :: after ∧ lastLabel before = b.label ∧
      openLines before = xs := by
  induction lines generalizing seen with
  | nil =>
    obtain rfl := List.mem_singleton.mp member
    rw [List.append_nil]
    exact openLines_split h
  | cons next rest ih =>
    have later (ended : b ∈ blocksFrom (lastLabel (seen ++ [next])) (openLines (seen ++ [next])) rest) :
        ∃ before after, seen ++ next :: rest = before ++ line :: after ∧
          lastLabel before = b.label ∧ openLines before = xs := by
      rw [List.append_cons]
      exact ih _ ended
    rw [lastLabel_concat, openLines_concat] at later
    cases next with
    | label l =>
      rcases List.mem_cons.mp member with rfl | member
      · obtain ⟨before, after, rfl, position, opened⟩ := openLines_split h
        exact ⟨before, after ++ .label l :: rest, by simp, position, opened⟩
      · exact later member
    | instr i location => exact later member
    | term t location => exact later member

theorem FunctionDef.blocks_split {f : FunctionDef} (member : b ∈ f.blocks)
    (h : b.lines = xs ++ line :: ys) :
    ∃ before after, f.body = before ++ line :: after ∧ lastLabel before = b.label ∧
      openLines before = xs :=
  blocksFrom_split [] member h

theorem blocksFrom_head (label : Label) (done lines : List Line) :
    ∃ more rest, blocksFrom label done lines = ⟨label, done ++ more⟩ :: rest := by
  induction lines generalizing done with
  | nil => exact ⟨[], [], by rw [List.append_nil]; rfl⟩
  | cons next lines ih =>
    cases next with
    | label l => exact ⟨[], blocksFrom l [] lines, by rw [List.append_nil]; rfl⟩
    | instr i location =>
      obtain ⟨more, rest, same⟩ := ih (done ++ [.instr i location])
      exact ⟨.instr i location :: more, rest, same.trans (by rw [List.append_assoc]; rfl)⟩
    | term t location =>
      obtain ⟨more, rest, same⟩ := ih (done ++ [.term t location])
      exact ⟨.term t location :: more, rest, same.trans (by rw [List.append_assoc]; rfl)⟩

theorem exists_block (seen : List Line) (inner : line.label? = none)
    (h : lines = before ++ line :: after) :
    ∃ b ∈ blocksFrom (lastLabel seen) (openLines seen) lines,
      b.label = lastLabel (seen ++ before) ∧ line ∈ b.lines := by
  subst h
  induction before generalizing seen with
  | nil =>
    have grown : blocksFrom (lastLabel seen) (openLines seen) (line :: after) =
        blocksFrom (lastLabel seen) (openLines seen ++ [line]) after := by
      cases line with
      | label l => cases inner
      | instr i location => rfl
      | term t location => rfl
    obtain ⟨more, rest, same⟩ :=
      blocksFrom_head (lastLabel seen) (openLines seen ++ [line]) after
    rw [List.nil_append, grown, same, List.append_nil]
    exact ⟨_, List.mem_cons_self, rfl, by simp⟩
  | cons next before ih =>
    obtain ⟨b, member, position, inside⟩ := ih (seen ++ [next])
    rw [List.append_assoc, List.singleton_append] at position
    rw [lastLabel_concat, openLines_concat] at member
    cases next with
    | label l => exact ⟨b, List.mem_cons_of_mem _ member, position, inside⟩
    | instr i location => exact ⟨b, member, position, inside⟩
    | term t location => exact ⟨b, member, position, inside⟩

theorem FunctionDef.exists_block {f : FunctionDef} {before after : List Line} {line : Line}
    (inner : line.label? = none) (h : f.body = before ++ line :: after) :
    ∃ b ∈ f.blocks, b.label = lastLabel before ∧ line ∈ b.lines :=
  Backend.exists_block [] inner h

theorem settings_blocksFrom (label : Label) (done lines : List Line) :
    (blocksFrom label done lines).flatMap (fun b => settings b.lines) =
      settings done ++ settings lines := by
  induction lines generalizing label done with
  | nil => simp [blocksFrom, settings]
  | cons next rest ih =>
    cases next with
    | label l =>
      rw [blocksFrom, List.flatMap_cons, ih]
      rfl
    | instr i location =>
      refine (ih label (done ++ [.instr i location])).trans ?_
      rw [settings_append, List.append_assoc, ← settings_append, List.singleton_append]
    | term t location =>
      refine (ih label (done ++ [.term t location])).trans ?_
      rw [settings_append, List.append_assoc, ← settings_append, List.singleton_append]

/-! ### Promises -/

/-- What each label promises: registers that are set on every way to its block. -/
abbrev Promises := Label → Register → Prop

section

variable (always : Register → Prop) (promise : Promises)

def Available (lines : List Line) (r : Register) : Prop :=
  always r ∨ promise (lastLabel lines) r ∨ r ∈ settings (openLines lines)

def AvailableAfter (lines : List Line) (l : Label) (r : Register) : Prop :=
  always r ∨ promise l r ∨
    ∃ before line after, lines = before ++ line :: after ∧ lastLabel before = l ∧
      line.dst? = some r

/-- The line reads only what is set, and promises that it passes on are kept. -/
structure LineSound (before : List Line) (line : Line) : Prop where
  reads : ∀ r, .reg r ∈ line.operands → Available always promise before r
  arms : ∀ r l, (.reg r, l) ∈ line.arms → AvailableAfter always promise before l r
  targets : ∀ l ∈ line.targets, ∀ r, promise l r → Available always promise before r
  written : ∀ r, .reg r ∈ line.mentions → always r ∨ r ∈ settings before

end

namespace FunctionDef

variable {f : FunctionDef} {always : Register → Prop} {promise : Promises}

theorem mem_settings_body (member : b ∈ f.blocks) (inside : r ∈ settings b.lines) :
    r ∈ settings f.body := by
  have all := settings_blocksFrom .entry [] f.body
  rw [show settings [] ++ settings f.body = settings f.body from rfl] at all
  rw [← all]
  exact List.mem_flatMap.mpr ⟨b, member, inside⟩

theorem SetIn.mem_definitions (h : f.SetIn r d) : r ∈ f.definitions := by
  rcases h with ⟨-, slot⟩ | ⟨b, member, -, inside⟩
  · exact List.mem_append_left _ slot
  · exact List.mem_append_right _ (mem_settings_body member inside)

theorem SetIn.unique (distinct : f.definitions.Nodup) {d' : Label} (h : f.SetIn r d)
    (h' : f.SetIn r d') : d = d' := by
  have apart := (List.nodup_append.mp distinct).2.2
  have inBody {l : Label} (set : ∃ b ∈ f.blocks, b.label = l ∧ r ∈ settings b.lines) :
      r ∈ settings f.body := by
    obtain ⟨b, member, -, inside⟩ := set
    exact mem_settings_body member inside
  rcases h with ⟨rfl, slot⟩ | set
  · rcases h' with ⟨rfl, -⟩ | set'
    · rfl
    · exact (apart r slot r (inBody set') rfl).elim
  · rcases h' with ⟨rfl, slot⟩ | set'
    · exact (apart r slot r (inBody set) rfl).elim
    · obtain ⟨b, member, rfl, inside⟩ := set
      obtain ⟨b', member', rfl, inside'⟩ := set'
      have once : (f.blocks.flatMap fun b => settings b.lines).Nodup := by
        rw [blocks, settings_blocksFrom]
        exact (List.nodup_append.mp distinct).2.1
      by_contra differ
      have : Std.Symm (Function.onFun List.Disjoint fun b : Block => settings b.lines) :=
        ⟨fun _ _ h => h.symm⟩
      have disjoint := (List.nodup_flatMap.mp once).2.forall member member'
        fun same => differ (congrArg Block.label same)
      exact disjoint inside inside'

theorem Walk.entry_mem (way : f.Walk trail l) (other : l ≠ .entry) : .entry ∈ trail := by
  induction way with
  | start => exact absurd rfl other
  | @step trail a b way edge ih =>
    by_cases first : a = .entry
    · simp [first]
    · exact List.mem_append_left _ (ih first)

theorem Walk.shorter {trail : List Label} {l d : Label} (way : f.Walk trail l) (passed : d ∈ trail) :
    ∃ trail', f.Walk trail' d ∧ trail'.length < trail.length := by
  induction way with
  | start => cases passed
  | @step trail a b way edge ih =>
    rw [List.length_append]
    rcases List.mem_append.mp passed with earlier | last
    · obtain ⟨trail', way', shorter⟩ := ih earlier
      exact ⟨trail', way', Nat.lt_add_right _ shorter⟩
    · rw [List.mem_singleton.mp last]
      exact ⟨trail, way, Nat.lt_succ_self _⟩

theorem Reachable.direct (h : f.Reachable l) : ∃ trail, f.Walk trail l ∧ l ∉ trail := by
  obtain ⟨trail, way⟩ := h
  induction size : trail.length using Nat.strong_induction_on generalizing trail with
  | _ n ih =>
    by_cases passed : l ∈ trail
    · obtain ⟨trail', way', shorter⟩ := way.shorter passed
      exact ih _ (size ▸ shorter) trail' way' rfl
    · exact ⟨trail, way, passed⟩

section

variable (start : ∀ r, ¬promise .entry r) (sound : Everywhere (LineSound always promise) f.body)

include start sound

theorem Walk.keeps_promises (way : f.Walk trail l) (promised : promise l r)
    (sometimes : ¬always r) : ∃ d ∈ trail, f.SetIn r d := by
  induction way with
  | start => exact (start r promised).elim
  | @step trail a b way edge ih =>
    obtain ⟨block, member, rfl, line, inside, target⟩ := edge
    obtain ⟨xs, ys, split⟩ := List.append_of_mem inside
    obtain ⟨before, after, body, position, opened⟩ := blocks_split member split
    rcases (sound before line after body).targets b target r promised with h | h | h
    · exact absurd h sometimes
    · rw [position] at h
      obtain ⟨d, passed, set⟩ := ih h
      exact ⟨d, List.mem_append_left _ passed, set⟩
    · refine ⟨block.label, by simp, .inr ⟨block, member, rfl, ?_⟩⟩
      rw [split, settings_append]
      exact List.mem_append_left _ (opened ▸ h)

theorem not_reachable (promised : promise l r) (sometimes : ¬always r) (never : ∀ d, ¬f.SetIn r d) :
    ¬f.Reachable l := by
  rintro ⟨trail, way⟩
  obtain ⟨d, -, set⟩ := way.keeps_promises start sound promised sometimes
  exact never d set

theorem supplies_of_available (distinct : f.definitions.Nodup) (reached : f.Reachable l)
    {done : List Line} (slots : always r → r ∈ f.slotRegisters)
    (h : always r ∨ promise l r ∨ r ∈ settings done) : f.Supplies r l done := by
  by_cases slot : always r
  · by_cases first : l = .entry
    · exact .inl ⟨first, slots slot⟩
    · exact .inr (.inr ⟨.entry, Ne.symm first, .inl ⟨rfl, slots slot⟩,
        fun trail way => .inr (way.entry_mem first)⟩)
  · rcases h with h | promised | h
    · exact absurd h slot
    · obtain ⟨trail, way, direct⟩ := reached.direct
      obtain ⟨d, passed, set⟩ := way.keeps_promises start sound promised slot
      refine .inr (.inr ⟨d, fun same => direct (same ▸ passed), set, fun trail' way' => ?_⟩)
      obtain ⟨d', passed', set'⟩ := way'.keeps_promises start sound promised slot
      exact .inr (set.unique distinct set' ▸ passed')
    · exact .inr (.inl h)

end

end FunctionDef

end Backend
