import Mathlib.Data.List.Chain
import Mathlib.Data.List.Forall2
import Mathlib.Data.List.Infix
import Mathlib.Data.List.InsertIdx
import Mathlib.Data.List.Nodup
import Mathlib.Data.String.Basic
import Mathlib.Logic.Relation
import Mathlib.Order.RelClasses
import Mathlib.Tactic.Common
import Backend.Ir.Module

/-!
Basic blocks of a function. A body is a flat list of lines; a label line opens a block and a
terminator closes it. `FunctionDef.WellFormed` says what a downstream compiler needs of the blocks.
`closes` reads the lines from left to right, and `closed_of_closes` goes from the lines it accepts
to the blocks.
-/

namespace Backend

def Terminator.targets : Terminator → List Label
  | .ret _ | .retVoid | .unreachable => []
  | .jump target => [target]
  | .branch _ onTrue onFalse => [onTrue, onFalse]
  | .switch _ default cases => default :: cases.map Prod.snd

def Instr.incoming : Instr → List Label
  | .phi _ _ incoming => incoming.map Prod.snd
  | _ => []

namespace Line

def label? : Line → Option Label
  | .label l => some l
  | _ => none

def isInstr : Line → Bool
  | .instr .. => true
  | _ => false

def mentioned : Line → List Label
  | .label _ => []
  | .instr i _ => i.incoming
  | .term t _ => t.targets

end Line

/-- A label and the lines up to the next one. -/
structure Block where
  label : Label
  lines : List Line

def Block.Closed (b : Block) : Prop :=
  ∃ instrs t location, b.lines = instrs ++ [.term t location] ∧ ∀ line ∈ instrs, line.isInstr

def blocksFrom (label : Label) (done : List Line) : List Line → List Block
  | [] => [⟨label, done⟩]
  | .label next :: rest => ⟨label, done⟩ :: blocksFrom next [] rest
  | line :: rest => blocksFrom label (done ++ [line]) rest

namespace FunctionDef

/-- The blocks of the body. The stack slots of the function belong to the first one. -/
def blocks (f : FunctionDef) : List Block := blocksFrom .entry [] f.body

/-- Every label is defined once, every block ends with its only terminator, and every label that
is mentioned is defined. -/
structure WellFormed (f : FunctionDef) : Prop where
  unique : (f.blocks.map fun b => b.label.text).Nodup
  closed : ∀ b ∈ f.blocks, b.Closed
  defined : ∀ line ∈ f.body, ∀ l ∈ line.mentioned, l ∈ f.blocks.map Block.label

end FunctionDef

/-! ### Labels and their text -/

def Label.number? : Label → Option Nat
  | .entry => none
  | .fresh _ n => some n

theorem tail_of_append_mark {mark : Char} {xs ys ds es : List Char} (hd : mark ∉ ds)
    (he : mark ∉ es) (h : xs ++ mark :: ds = ys ++ mark :: es) : ds = es := by
  rcases List.append_eq_append_iff.mp h with ⟨as, -, same⟩ | ⟨as, -, same⟩
  · cases as with
    | nil => exact (List.cons.inj same).2
    | cons a as => exact (hd (by rw [(List.cons.inj same).2]; simp)).elim
  · cases as with
    | nil => exact (List.cons.inj same).2.symm
    | cons a as => exact (he (by rw [(List.cons.inj same).2]; simp)).elim

theorem notMem_toDigits {mark : Char} (other : mark.isDigit = false) (n : Nat) :
    mark ∉ Nat.toDigits 10 n := by
  intro h
  rw [Nat.isDigit_of_mem_toDigits (by decide) (by decide) h] at other
  cases other

theorem toDigits_injective {m n : Nat} (h : Nat.toDigits 10 m = Nat.toDigits 10 n) : m = n := by
  rw [← @Nat.ofDigitChars_ten_toDigits m, h, Nat.ofDigitChars_ten_toDigits]

theorem Label.toList_text_fresh (stem : String) (n : Nat) :
    (Label.fresh stem n).text.toList = stem.toList ++ '.' :: Nat.toDigits 10 n := by
  change (stem ++ "." ++ n.repr).toList = _
  simp [String.toList_append]

theorem Label.text_entry_ne_fresh (stem : String) (n : Nat) :
    Label.entry.text ≠ (Label.fresh stem n).text := by
  intro h
  have point : '.' ∈ Label.entry.text.toList := by
    rw [h, toList_text_fresh]
    simp
  exact absurd point (by decide)

theorem Label.number?_of_text {a b : Label} (h : a.text = b.text) : a.number? = b.number? := by
  cases a with
  | entry =>
    cases b with
    | entry => rfl
    | fresh stem n => exact (text_entry_ne_fresh stem n h).elim
  | fresh stem n =>
    cases b with
    | entry => exact (text_entry_ne_fresh stem n h.symm).elim
    | fresh stem' n' =>
      have chars := congrArg String.toList h
      rw [toList_text_fresh, toList_text_fresh] at chars
      have digits := tail_of_append_mark (notMem_toDigits rfl n) (notMem_toDigits rfl n') chars
      rw [number?, number?, toDigits_injective digits]

/-! ### Reading lines from left to right -/

/-- Whether the block is closed after a line, given whether it was before. A label needs a closed
block and everything else an open one. -/
def Line.closes (ended : Bool) : Line → Option Bool
  | .label _ => if ended then some false else none
  | .instr .. => if ended then none else some false
  | .term .. => if ended then none else some true

/-- Whether the last block is closed, if the lines make up blocks at all. -/
def closes (lines : List Line) : Option Bool := lines.foldlM Line.closes false

theorem closes_concat (lines : List Line) (line : Line) :
    closes (lines ++ [line]) = (closes lines).bind fun ended => line.closes ended := by
  simp [closes, List.foldlM_append]

def Block.UnderWay (ended : Bool) (done : List Line) : Prop :=
  if ended then ∃ instrs t location, done = instrs ++ [.term t location] ∧
    ∀ line ∈ instrs, line.isInstr
  else ∀ line ∈ done, line.isInstr

theorem Block.underWay_nil : Block.UnderWay false [] := by
  simp [Block.UnderWay]

theorem closed_of_foldlM {lines done : List Line} {label : Label} {ended : Bool}
    (underWay : Block.UnderWay ended done)
    (h : lines.foldlM Line.closes ended = some true) :
    ∀ b ∈ blocksFrom label done lines, b.Closed := by
  induction lines generalizing label done ended with
  | nil =>
    simp only [List.foldlM_nil, Option.pure_def, Option.some.injEq] at h
    subst h
    intro b member
    obtain rfl := List.mem_singleton.mp member
    exact underWay
  | cons line rest ih =>
    rw [List.foldlM_cons] at h
    cases line with
    | label next =>
      cases ended with
      | false => simp [Line.closes] at h
      | true =>
        intro b member
        rcases List.mem_cons.mp member with rfl | member
        · exact underWay
        · exact ih Block.underWay_nil h b member
    | instr i location =>
      cases ended with
      | true => simp [Line.closes] at h
      | false =>
        have grown : Block.UnderWay false (done ++ [.instr i location]) := by
          intro line member
          rcases List.mem_append.mp member with old | new
          · exact underWay line old
          · rw [List.mem_singleton.mp new]; rfl
        exact ih grown h
    | term t location =>
      cases ended with
      | true => simp [Line.closes] at h
      | false =>
        have ended : Block.UnderWay true (done ++ [.term t location]) :=
          ⟨done, t, location, rfl, underWay⟩
        exact ih ended h

theorem closed_of_closes {f : FunctionDef} (h : closes f.body = some true) :
    ∀ b ∈ f.blocks, b.Closed :=
  closed_of_foldlM Block.underWay_nil h

theorem blocksFrom_labels (label : Label) (done lines : List Line) :
    (blocksFrom label done lines).map Block.label = label :: lines.filterMap Line.label? := by
  induction lines generalizing label done with
  | nil => rfl
  | cons line rest ih => cases line <;> simp [blocksFrom, List.filterMap_cons, Line.label?, ih]

theorem FunctionDef.blocks_labels (f : FunctionDef) :
    f.blocks.map Block.label = .entry :: f.body.filterMap Line.label? :=
  blocksFrom_labels .entry [] f.body

end Backend
