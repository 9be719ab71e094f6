import Backend.Proofs.Flow.Ssa

/-!
Phis and the blocks that they name. Main statement: a phi stands first in its block and, where the
block can be reached, it names just the blocks that branch there.
-/

namespace Backend

/-! ### Branches as lists and as edges -/

theorem branchesFrom_blocksFrom (l here : Label) (done lines : List Line) :
    (blocksFrom here done lines).flatMap (fun b => b.lines.flatMap fun line =>
        if l ∈ line.targets then [b.label] else []) =
      (done.flatMap fun line => if l ∈ line.targets then [here] else []) ++
        branchesFrom l here lines := by
  induction lines generalizing here done with
  | nil => simp [blocksFrom, branchesFrom]
  | cons next rest ih =>
    cases next with
    | label l' =>
      rw [blocksFrom, List.flatMap_cons, ih]
      rfl
    | instr i location =>
      refine (ih here (done ++ [.instr i location])).trans ?_
      rw [List.flatMap_append, List.append_assoc, branchesFrom]
      simp [Line.label?]
    | term t location =>
      refine (ih here (done ++ [.term t location])).trans ?_
      rw [List.flatMap_append, List.append_assoc, branchesFrom]
      simp [Line.label?]

namespace FunctionDef

variable {f : FunctionDef}

theorem branchesTo_body (l : Label) : branchesTo l f.body = f.blocks.flatMap fun b =>
    b.lines.flatMap fun line => if l ∈ line.targets then [b.label] else [] :=
  (branchesFrom_blocksFrom l .entry [] f.body).symm

theorem mem_branchesTo {a l : Label} : a ∈ branchesTo l f.body ↔ f.Edge a l := by
  rw [branchesTo_body, Edge]
  simp only [List.mem_flatMap, List.mem_ite_nil_right, List.mem_singleton]
  grind

end FunctionDef

theorem Block.Closed.branches_sublist {b : Block} (closed : b.Closed) (l : Label) :
    (b.lines.flatMap fun line => if l ∈ line.targets then [b.label] else []).Sublist [b.label] := by
  obtain ⟨instrs, t, location, lines, plain⟩ := closed
  have none : (instrs.flatMap fun line => if l ∈ line.targets then [b.label] else []) = [] := by
    refine List.flatMap_eq_nil_iff.mpr fun line member => ?_
    cases line with
    | instr i location => exact if_neg List.not_mem_nil
    | _ => cases plain _ member
  rw [lines, List.flatMap_append, none, List.nil_append, List.flatMap_singleton]
  split
  · exact List.Sublist.refl _
  · exact List.nil_sublist _

namespace FunctionDef

variable {f : FunctionDef}

theorem branchesTo_nodup (wellFormed : f.WellFormed) (l : Label) : (branchesTo l f.body).Nodup := by
  have labels : (f.blocks.map Block.label).Nodup := by
    refine List.Nodup.of_map Label.text ?_
    rw [List.map_map]
    exact wellFormed.unique
  refine List.Nodup.sublist ?_ labels
  rw [branchesTo_body]
  have closed := wellFormed.closed
  generalize f.blocks = blocks at closed ⊢
  induction blocks with
  | nil => exact List.Sublist.refl _
  | cons b rest ih =>
    obtain ⟨first, others⟩ := List.forall_mem_cons.mp closed
    exact (first.branches_sublist l).append (ih others)

end FunctionDef

/-! ### Phis -/

/-- A phi of a complete function stands first in its block. It names the blocks that branch there,
unless it belongs to an `and` or an `or` that nothing leads to. -/
theorem Point.Describes.phi {p : Point} {f : FunctionDef} (h : p.Describes f)
    (wellFormed : f.WellFormed) {b : Block} (member : b ∈ f.blocks) {before after : List Line}
    {dst : Register} {ty : IrType} {arms : List (Operand × Label)} {location : Option Nat}
    (split : b.lines = before ++ .instr (.phi dst ty arms) location :: after) :
    before = [] ∧ (f.Reachable b.label ∨ b.label.isTernaryEnd = true →
      (arms.map Prod.snd).Nodup ∧ ∀ a, a ∈ arms.map Prod.snd ↔ f.Edge a b.label) := by
  obtain ⟨lines, rest, body, position, opened⟩ := FunctionDef.blocks_split member split
  obtain ⟨init, l, rfl, -, merges⟩ := h.ok.merges lines _ rest (h.lines ▸ body)
  rw [lastLabel_concat] at position
  rw [openLines_concat] at opened
  obtain rfl : l = b.label := position
  refine ⟨opened.symm, fun counts => ?_⟩
  rcases merges with ⟨other, all⟩ | exact
  · -- Everything is promised to the block, so also a register that is never set.
    have never : .temp p.frame.nextReg ∉ f.definitions := by
      rw [h.definitions_perm.mem_iff]
      simp
    have unreached : ¬f.Reachable b.label := FunctionDef.not_reachable h.ok.start h.sound
      (all (.temp p.frame.nextReg))
      (fun always => never (List.mem_append_left _ (h.slot_of_always always)))
      fun d set => never set.mem_definitions
    rcases counts with reached | ternary
    · exact (unreached reached).elim
    · rw [ternary] at other
      cases other
  · rw [exact, ← h.lines]
    exact ⟨FunctionDef.branchesTo_nodup wellFormed _, fun a => FunctionDef.mem_branchesTo⟩

/-- In the function that is added to the output every phi is the first instruction of its block. If
the block can be reached, or belongs to a conditional expression, the phi names every block that
branches there once, and no other block. -/
theorem Gen.emitFunction_phi (sig : Signature) (body : List Stmt) (σ : Substitution)
    (s s' : Session) (h : Gen.emitFunction sig body σ s = .ok () s') :
    ∃ earlier f, s'.output.functions = earlier ++ [f] ∧ f.symbol = sig.symbol ∧
      ∀ b ∈ f.blocks, ∀ before dst ty arms location after,
        b.lines = before ++ .instr (.phi dst ty arms) location :: after →
        before = [] ∧ (f.Reachable b.label ∨ b.label.isTernaryEnd = true →
          (arms.map Prod.snd).Nodup ∧ ∀ a, a ∈ arms.map Prod.snd ↔ f.Edge a b.label) := by
  obtain ⟨⟨f, frame⟩, s₁, ran, added⟩ := Gen.bind_ok h
  cases added
  obtain ⟨symbol, wellFormed⟩ := Emit.functionDef_wellFormed ran (Frame.blocks_start _ _)
  obtain ⟨p, describes, -⟩ := Emit.functionDef_describes ran
  exact ⟨s₁.output.functions, f, rfl, symbol,
    fun b member before dst ty arms location after split => describes.phi wellFormed member split⟩

theorem Gen.emitFunction_phi_deadCode :
    ∃ s', Gen.emitFunction { symbol := "f", returnType := .i32 } deadCode {} {} = .ok () s' ∧
      ∃ earlier f, s'.output.functions = earlier ++ [f] ∧ f.symbol = "f" ∧
        ∀ b ∈ f.blocks, ∀ before dst ty arms location after,
          b.lines = before ++ .instr (.phi dst ty arms) location :: after →
          before = [] ∧ (f.Reachable b.label ∨ b.label.isTernaryEnd = true →
            (arms.map Prod.snd).Nodup ∧ ∀ a, a ∈ arms.map Prod.snd ↔ f.Edge a b.label) := by
  have succeeds : (Gen.emitFunction { symbol := "f", returnType := .i32 } deadCode {}).succeeds {} =
      true := by decide +kernel
  obtain ⟨_, s', h⟩ := Gen.exists_ok succeeds
  exact ⟨s', h, Gen.emitFunction_phi _ _ _ _ _ h⟩

instance (f : FunctionDef) (a b : Label) : Decidable (f.Edge a b) :=
  inferInstanceAs (Decidable (∃ block ∈ f.blocks, block.label = a ∧ ∃ line ∈ block.lines, b ∈ line.targets))

def andAfterReturn : List Stmt :=
  [.ret none {}, .expr (.binary { ty := .bool } .and (.ofBool true) (.ofBool false))]

/-- Behind a return the phi of an `and` names a block that does not branch to it. -/
theorem Gen.emitFunction_phi_stale :
    ∃ s', Gen.emitFunction { symbol := "f", returnType := .void } andAfterReturn {} {} = .ok () s' ∧
      ∃ f ∈ s'.output.functions, ∃ b ∈ f.blocks, ∃ line ∈ b.lines, ∃ arm ∈ line.arms,
        ¬f.Edge arm.2 b.label := by
  have reached : (Gen.emitFunction { symbol := "f", returnType := .void } andAfterReturn {}).reaches {}
      (fun s => ∃ f ∈ s.output.functions, ∃ b ∈ f.blocks, ∃ line ∈ b.lines, ∃ arm ∈ line.arms,
        ¬f.Edge arm.2 b.label) = true := by decide +kernel
  obtain ⟨_, s', ran, stale⟩ := Gen.exists_reached reached
  exact ⟨s', ran, stale⟩

end Backend
