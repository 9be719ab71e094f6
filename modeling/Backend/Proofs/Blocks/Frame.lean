import Backend.Proofs.Blocks.Shape
import Backend.Proofs.Success

/-!
The blocks of a body under way. A label is made before its block is opened, so `Frame.Blocks`
names two lists of labels: those that are owed, made and still without a block, and some whose
block is open or done. Labels of both lists may be mentioned.
-/

namespace Backend

namespace Frame

def defined (f : Frame) : List Label := .entry :: f.body.toList.filterMap Line.label?

def known (owed : List Label) (f : Frame) : List Label := owed ++ f.defined

structure Blocks (owed opened : List Label) (f : Frame) : Prop where
  flow : closes f.body.toList = some f.terminated
  unique : ((f.known owed).map Label.number?).Nodup
  numbered : ∀ l ∈ f.known owed, ∀ n, l.number? = some n → n < f.nextLabel
  opened : opened ⊆ f.defined
  current : f.block ∈ f.defined
  mentioned : ∀ line ∈ f.body.toList, line.mentioned ⊆ f.known owed
  loops : ∀ labels ∈ f.loops, labels.leave ∈ f.known owed ∧ labels.again ∈ f.known owed

variable {owed opened : List Label} {f f' : Frame}

/-- The fields that the blocks of a frame depend on. -/
structure SameBlocks (f f' : Frame) : Prop where
  body : f'.body = f.body
  nextLabel : f'.nextLabel = f.nextLabel
  block : f'.block = f.block
  terminated : f'.terminated = f.terminated
  loops : f'.loops = f.loops

theorem Blocks.congr (h : f.Blocks owed opened) (same : SameBlocks f f') :
    f'.Blocks owed opened where
  flow := by rw [same.body, same.terminated]; exact h.flow
  unique := by rw [known, defined, same.body]; exact h.unique
  numbered := by rw [known, defined, same.body, same.nextLabel]; exact h.numbered
  opened := by rw [defined, same.body]; exact h.opened
  current := by rw [defined, same.body, same.block]; exact h.current
  mentioned := by rw [known, defined, same.body]; exact h.mentioned
  loops := by rw [known, defined, same.body, same.loops]; exact h.loops

theorem Blocks.withOpened {opened' : List Label} (h : f.Blocks owed opened)
    (defined : opened' ⊆ f.defined) : f.Blocks owed opened' :=
  { h with opened := defined }

theorem Blocks.known_of_mem {l : Label} (h : f.Blocks owed opened) (member : l ∈ owed ++ opened) :
    l ∈ f.known owed := by
  rcases List.mem_append.mp member with owed | opened
  · exact List.mem_append_left _ owed
  · exact List.mem_append_right _ (h.opened opened)

/-! ### Labels -/

def withFreshLabel (f : Frame) : Frame := { f with nextLabel := f.nextLabel + 1 }

theorem Blocks.fresh (h : f.Blocks owed opened) (stem : String) :
    f.withFreshLabel.Blocks (.fresh stem f.nextLabel :: owed) opened where
  flow := h.flow
  unique := by
    change (some f.nextLabel :: (f.known owed).map Label.number?).Nodup
    refine List.nodup_cons.mpr ⟨?_, h.unique⟩
    intro taken
    obtain ⟨l, member, number⟩ := List.mem_map.mp taken
    have := h.numbered l member f.nextLabel number
    omega
  numbered := by
    intro l member n number
    change n < f.nextLabel + 1
    rcases List.mem_cons.mp member with rfl | old
    · cases number; omega
    · have := h.numbered l old n number; omega
  opened := h.opened
  current := h.current
  mentioned := fun line member l mention =>
    List.mem_cons_of_mem _ (h.mentioned line member mention)
  loops := fun labels member =>
    ⟨List.mem_cons_of_mem _ (h.loops labels member).1,
      List.mem_cons_of_mem _ (h.loops labels member).2⟩

def entered (f : Frame) (label : Label) : Frame :=
  { f with body := f.body.push (.label label), block := label, terminated := false }

theorem defined_entered (f : Frame) (label : Label) :
    (f.entered label).defined = f.defined ++ [label] := by
  simp [defined, entered, Line.label?]

theorem Blocks.entered {before after : List Label} {label : Label}
    (h : f.Blocks (before ++ label :: after) opened) (ended : f.terminated = true) :
    (f.entered label).Blocks (before ++ after) (label :: opened) := by
  have known : (f.known (before ++ label :: after)).Perm
      ((f.entered label).known (before ++ after)) := by
    rw [Frame.known, Frame.known, defined_entered, ← List.append_assoc]
    exact (List.perm_middle.append_right f.defined).trans
      (List.perm_append_singleton label _).symm
  exact {
    flow := by
      have flow := h.flow
      rw [ended] at flow
      simp [Frame.entered, closes_concat, flow, Line.closes]
    unique := (known.map Label.number?).nodup_iff.mp h.unique
    numbered := fun l member => h.numbered l (known.mem_iff.mpr member)
    opened := by
      rw [defined_entered]
      intro l member
      rcases List.mem_cons.mp member with rfl | member
      · exact List.mem_append_right _ (List.mem_singleton.mpr rfl)
      · exact List.mem_append_left _ (h.opened member)
    current := by rw [defined_entered]; exact List.mem_append_right _ (List.mem_singleton.mpr rfl)
    mentioned := by
      intro line member l mention
      rw [Frame.entered, Array.toList_push] at member
      rcases List.mem_append.mp member with old | new
      · exact known.mem_iff.mp (h.mentioned line old mention)
      · rw [List.mem_singleton.mp new] at mention
        cases mention
    loops := fun labels member =>
      ⟨known.mem_iff.mp (h.loops labels member).1, known.mem_iff.mp (h.loops labels member).2⟩ }

/-! ### Lines inside a block -/

def pushed (f : Frame) (line : Line) (ended : Bool) : Frame :=
  { f with body := f.body.push line, terminated := ended }

theorem defined_pushed {line : Line} {ended : Bool} (inner : line.label? = none) :
    (f.pushed line ended).defined = f.defined := by
  simp [defined, pushed, inner]

theorem Blocks.pushed {line : Line} {ended : Bool} (h : f.Blocks owed opened)
    (inner : line.label? = none) (flow : line.closes f.terminated = some ended)
    (mentioned : line.mentioned ⊆ f.known owed) : (f.pushed line ended).Blocks owed opened := by
  have known : (f.pushed line ended).known owed = f.known owed := by
    rw [Frame.known, Frame.known, defined_pushed inner]
  exact {
    flow := by simp [Frame.pushed, closes_concat, h.flow, flow]
    unique := by rw [known]; exact h.unique
    numbered := by rw [known]; exact h.numbered
    opened := by rw [defined_pushed inner]; exact h.opened
    current := by rw [defined_pushed inner]; exact h.current
    mentioned := by
      rw [known]
      intro old member
      rw [Frame.pushed, Array.toList_push] at member
      rcases List.mem_append.mp member with member | member
      · exact h.mentioned old member
      · rw [List.mem_singleton.mp member]; exact mentioned
    loops := by rw [known]; exact h.loops }

end Frame

end Backend
