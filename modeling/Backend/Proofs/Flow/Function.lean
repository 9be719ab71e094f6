import Backend.Proofs.Blocks.Function
import Backend.Proofs.Emission.Function
import Backend.Proofs.Flow.Expr

/-!
Statements proceed, and what a function adds to the output is in single-assignment form.
-/

namespace Backend

namespace Emit

variable {os : List Operand}

/-! ### Statements -/

theorem terminate_proceeds {t : Terminator} (leaves : t.targets = [])
    (known : AllKnown os t.operands) : Proceeds os (terminate t) :=
  .of_under fun p₀ => (terminate_under [] (by rw [leaves]; exact List.nil_subset _)
    fun _ _ => Point.knowsAll_of_allKnown known).imp (fun _ under => ⟨Point.knowsAll_nil, under⟩) fun _ _ under => under.le

section

variable {p₀ : Point} {labels : List Label}

theorem inBlock_under {x : Emit Unit} {label next : Label} (member : label ∈ labels)
    (goesOn : next ∈ labels)
    (h : Carries (p₀.Under os labels) x fun _ => p₀.Under os labels) :
    Carries (p₀.Under os labels) (inBlock label next x) fun _ => p₀.Under os labels := by
  refine .bind (startBlock_under member) fun _ => .imp ?_ (fun _ h => h.2) fun _ _ h => h
  exact .bind h fun _ => jumpTo_under goesOn

theorem startBlock_le {label : Label} (member : label ∈ labels) :
    Carries (p₀.Under os labels) (startBlock label) fun _ => p₀.Le :=
  (startBlock_under member).imp (fun _ h => h) fun _ _ h => h.2.le

theorem inLoop_under {x : Emit Unit} (h : Proceeds [] x) {around : LoopLabels}
    (leave : around.leave ∈ labels) (again : around.again ∈ labels) :
    Carries (p₀.Under os labels) (inLoop around x) fun _ => p₀.Under os labels := by
  intro p s _ f' s' ran ok under
  obtain ⟨_, f₁, s₁, got, looping⟩ := bind_ok ran
  obtain ⟨rfl, rfl, rfl⟩ := get_ok got
  obtain ⟨_, f₂, s₂, set, running⟩ := bind_ok looping
  obtain ⟨rfl, rfl⟩ := modify_ok set
  obtain ⟨_, f₃, s₃, body, restored⟩ := bind_ok running
  obtain ⟨rfl, rfl⟩ := modify_ok restored
  have own {l : Label} (member : l ∈ labels) :
      l.Below p.frame.nextLabel ∧ l.isJoin = false ∧ ∀ r, p.promise l r → p.Reads r := by
    have made := under.made l member
    exact ⟨made.below, under.plain l member,
      fun r promised => under.le.reads r ((made.promise r).mp promised)⟩
  have inside : ({ p with frame := { p.frame with loops := around :: p.frame.loops } } : Point).Ok :=
    { ok with
      loops := List.forall_mem_cons.mpr ⟨by
        intro l either
        rcases List.mem_pair.mp either with rfl | rfl
        · exact own leave
        · exact own again, ok.loops⟩ }
  obtain ⟨q, rfl, ok', le⟩ := h _ body inside ⟨rfl, Point.knowsAll_nil⟩
  refine ⟨{ q with frame := { q.frame with loops := p.frame.loops } }, rfl, ?_, ?_⟩
  · exact { ok' with
      loops := fun labels member => ok'.loops labels (le.loops ▸ List.mem_cons_of_mem _ member) }
  · refine under.later { le with loops := rfl }

end

theorem ifElse_proceeds {condition : Code} (hc : Supplies [] condition.condition fun o => [o])
    {thenBlock : Emit Unit} (ht : Proceeds [] thenBlock) {elseBlock : Option (Emit Unit)} (he : ∀ x ∈ elseBlock, Proceeds [] x) :
    Proceeds [] (ifElse condition thenBlock elseBlock) := by
  refine .bind hc fun test => .of_under fun p₀ => ?_
  refine .bind (freshLabel_under rfl) fun thenLabel => .bind (freshLabel_under rfl) fun endLabel => ?_
  have test_known (p : Point) (h : p.KnowsAll ([test] ++ [])) :
      p.KnowsAll [test] := by simpa using h
  cases elseBlock with
  | none =>
    refine .bind (.imp (terminate_under [] (by simp [Terminator.targets]) fun p _ => test_known p)
      (fun _ under => ⟨Point.knowsAll_nil, under⟩) fun _ _ h => h) fun _ => ?_
    exact .bind (inBlock_under (by simp) (by simp) ht.anywhere.under) fun _ => startBlock_le (by simp)
  | some elseBlock =>
    refine .bind (freshLabel_under rfl) fun elseLabel => ?_
    refine .bind (.imp (terminate_under [] (by simp [Terminator.targets]) fun p _ => test_known p)
      (fun _ under => ⟨Point.knowsAll_nil, under⟩) fun _ _ h => h) fun _ => ?_
    refine .bind (inBlock_under (by simp) (by simp) ht.anywhere.under) fun _ => ?_
    exact .bind (inBlock_under (by simp) (by simp) (he _ rfl).anywhere.under) fun _ =>
      startBlock_le (by simp)

theorem whileLoop_proceeds {condition : Code} (hc : Supplies [] condition.condition fun o => [o])
    {body : Emit Unit} (hb : Proceeds [] body) : Proceeds [] (whileLoop condition body) := by
  refine .of_under fun p₀ => .bind (freshLabel_under rfl) fun conditionLabel => ?_
  refine .bind (freshLabel_under rfl) fun bodyLabel => .bind (freshLabel_under rfl) fun endLabel => ?_
  refine .bind (startBlock_under (by simp)) fun _ => .imp ?_ (fun _ h => h.2) fun _ _ h => h
  refine .bind hc.under fun test => ?_
  refine .bind (terminate_under [test] (by simp [Terminator.targets]) fun _ h _ => h) fun _ => ?_
  refine .bind (inBlock_under (by simp) (by simp) (inLoop_under hb (by simp) (by simp))) fun _ => ?_
  exact startBlock_le (by simp)

theorem loopJump_proceeds (keyword : String) {target : LoopLabels → Label}
    (either : ∀ labels, target labels = labels.leave ∨ target labels = labels.again) :
    Proceeds [] (loopJump keyword target) := by
  intro p₀ p s _ f' s' h ok start
  obtain ⟨rfl, -⟩ := start
  obtain ⟨now, f₁, s₁, got, rest⟩ := bind_ok h
  obtain ⟨rfl, rfl, rfl⟩ := get_ok got
  cases around : p.frame.loops with
  | nil => rw [around] at rest; exact (fail_ok rest).elim
  | cons labels outer =>
    rw [around] at rest
    obtain ⟨below, plain, kept⟩ := ok.loops labels (by rw [around]; exact List.mem_cons_self)
      (target labels) (List.mem_pair.mpr (either labels))
    refine ⟨p.ended (.jump (target labels)), (terminate_run rest).symm, ?_, ?_⟩
    · refine ok.ended Point.knowsAll_nil fun l member => ?_
      rw [List.mem_singleton.mp member, plain]
      exact ⟨below, kept, nofun⟩
    · refine Point.le_ended ok .rfl fun l member => ?_
      rw [List.mem_singleton.mp member, plain]
      exact nofun

section

variable {p₀ : Point} {labels : List Label}

theorem labelCases_under (cases : List (Int × Emit Unit)) (h : ∀ c ∈ cases, Proceeds [] c.2) :
    Carries (p₀.Under os labels) (labelCases cases) fun labelled q =>
      (∀ c ∈ labelled, Proceeds [] c.2.2) ∧
        p₀.Under os ((labelled.map fun c => c.2.1).reverse ++ labels) q := by
  induction cases generalizing labels with
  | nil => exact .pure fun _ under => ⟨List.forall_mem_nil _, under⟩
  | cons c rest ih =>
    refine .bind (freshLabel_under rfl) fun label => ?_
    refine .bind (ih fun c member => h c (List.mem_cons_of_mem _ member)) fun labelled => ?_
    exact .pure fun _ after =>
      ⟨List.forall_mem_cons.mpr ⟨h c List.mem_cons_self, after.1⟩, by simpa using after.2⟩

theorem caseBodies_under {labelled : List (Int × Label × Emit Unit)} {endLabel : Label}
    (h : ∀ c ∈ labelled, Proceeds [] c.2.2) (members : (labelled.map fun c => c.2.1) ⊆ labels)
    (ends : endLabel ∈ labels) :
    Carries (p₀.Under os labels)
      (labelled.forM fun (_, label, body) => inBlock label endLabel body)
      fun _ => p₀.Under os labels := by
  induction labelled with
  | nil => exact .pure fun _ under => under
  | cons c rest ih =>
    obtain ⟨member, members⟩ := List.cons_subset.mp members
    refine .bind (inBlock_under member ends (h c List.mem_cons_self).anywhere.under) fun _ => ?_
    exact ih (fun c member => h c (List.mem_cons_of_mem _ member)) members

theorem switchCases_under {v : Value} {cases : List (Int × Emit Unit)}
    (h : ∀ c ∈ cases, Proceeds [] c.2) {endLabel defaultLabel : Label} (ends : endLabel ∈ labels)
    (others : defaultLabel ∈ labels) (known : Known os v.operand) :
    Carries (p₀.Under os labels) (switchCases v endLabel defaultLabel cases)
      fun _ => p₀.Under os labels := by
  refine .bind (labelCases_under cases h) fun labelled => .assuming fun bodies => ?_
  have cases : ((labelled.map fun (n, label, _) => (n, label)).map Prod.snd) ⊆
      (labelled.map fun c => c.2.1).reverse ++ labels := by
    intro l member
    have label : l ∈ labelled.map fun c => c.2.1 := by simpa using member
    exact List.mem_append_left _ (List.mem_reverse.mpr label)
  refine .bind (.imp (terminate_under [] (switch_targets_subset (List.mem_append_right _ others) cases)
    fun p _ h => ?_) (fun _ under => ⟨Point.knowsAll_nil, under⟩) fun _ _ h => h) fun _ => ?_
  · simpa [Terminator.operands] using Point.knows_of_known known h
  refine (caseBodies_under bodies ?_ (List.mem_append_right _ ends)).imp (fun _ h => h) fun _ _ under => ?_
  · exact fun l member => List.mem_append_left _ (List.mem_reverse.mpr member)
  · exact { under with
      made := fun l member => under.made l (List.mem_append_right _ member)
      plain := fun l member => under.plain l (List.mem_append_right _ member) }

end

theorem switchOn_proceeds {v : Value} {cases : List (Int × Emit Unit)}
    (h : ∀ c ∈ cases, Proceeds [] c.2) {default : Option (Emit Unit)} (hd : ∀ x ∈ default, Proceeds [] x)
    (known : Known os v.operand) :
    Proceeds os (switchOn v cases default) := by
  refine .of_under fun p₀ => .bind (freshLabel_under rfl) fun endLabel => ?_
  cases default with
  | none =>
    refine .bind (switchCases_under h (by simp) (by simp) known) fun _ => ?_
    exact startBlock_le (by simp)
  | some body =>
    refine .bind (freshLabel_under rfl) fun defaultLabel => ?_
    refine .bind (switchCases_under h (by simp) (by simp) known) fun _ => ?_
    exact .bind (inBlock_under (by simp) (by simp) (hd _ rfl).anywhere.under) fun _ =>
      startBlock_le (by simp)

theorem placed_proceeds (location : Location) {x : Emit Unit} (h : Proceeds [] x) :
    Proceeds [] (placed location x) := by
  refine .bind (setLocation_supplies location) fun _ p₀ p s a f' s' ran ok start => ?_
  exact h p₀ (Gen.locating_ok ran) ok start

theorem Acts.proceeds {b : Bool} {α : Type} {x : Emit α} (h : Acts b os x) : Proceeds os x := by
  induction h with
  | step h => exact h.supplies.proceeds
  | anywhere _ ih => exact ih.anywhere
  | bind first _ rest => exact .bind first.supplies rest
  | andThen _ _ first rest => exact .andThen first rest
  | inScope _ ih => exact inScope_proceeds ih
  | placed location _ ih => exact placed_proceeds location ih
  | terminate leaves known => exact terminate_proceeds leaves known
  | ifElse test _ _ onTrue onFalse => exact ifElse_proceeds test.supplies onTrue onFalse
  | whileLoop test _ body => exact whileLoop_proceeds test.supplies body
  | loopJump keyword either => exact loopJump_proceeds keyword either
  | switchOn known _ _ each otherwise => exact switchOn_proceeds each otherwise known

end Emit

/-! ### Whole functions -/

namespace Emit

def Still {α : Type} (x : Emit α) : Prop := ∀ ⦃f s a f' s'⦄, x f s = .ok (a, f') s' → f' = f

theorem Still.lift {α : Type} (x : Gen α) : Still (liftM x : Emit α) :=
  fun _ _ _ _ _ h => (lift_ok h).1

theorem Still.pure {α : Type} (a : α) : Still (pure a) := fun _ _ _ _ _ h => (pure_ok h).2.1

theorem Still.bind {α β : Type} {x : Emit α} {k : α → Emit β} (first : x.Still)
    (rest : ∀ a, (k a).Still) : (x >>= k).Still := by
  intro f s b f' s' h
  obtain ⟨a, f₁, s₁, ran, h⟩ := bind_ok h
  rw [rest a h, first ran]

theorem resolve_still (ty : TypeRef) : (resolve ty).Still :=
  Still.bind (fun _ _ _ _ _ h => (get_ok h).2.1) fun _ => .lift _

theorem resultType_still (isMain : Bool) (declared : TypeRef) : (resultType isMain declared).Still := by
  unfold resultType
  split
  · exact .pure _
  · exact resolve_still declared

theorem receiverParam_still (receiver : Option String) : (receiverParam receiver).Still := by
  cases receiver with
  | none => exact .pure _
  | some owner => exact (Still.lift _).bind fun _ => .pure _

theorem incomingParams_still (params : List Field) : (incomingParams params).Still := by
  unfold incomingParams
  induction params with
  | nil => exact .pure _
  | cons p rest ih =>
    rw [List.mapM_cons]
    exact ((resolve_still p.ty).bind fun _ => .pure _).bind fun _ => ih.bind fun _ => .pure _

end Emit

/-! ### The start of a body -/

def Point.start (symbol : String) (σ : Substitution) (returnType : IrType) (scope : Option Nat)
    (incoming : List String) : Point where
  frame := { symbol, subst := σ, returnType, scope }
  incoming := incoming.map .named
  promise := fun _ _ => False

section

variable (symbol : String) (σ : Substitution) (returnType : IrType) (scope : Option Nat)
  (incoming : List String)

theorem Point.start_ok : (Point.start symbol σ returnType scope incoming).Ok where
  position := rfl
  counted := .nil
  sound := everywhere_nil
  start := fun _ => id
  numbered := List.forall_mem_nil _
  locals := nofun
  loops := List.forall_mem_nil _
  merges := everywhere_nil

theorem Point.start_knows : (Point.start symbol σ returnType scope incoming).KnowsAll
    (incoming.map fun name => .reg (.named name)) := by
  intro o member r same
  obtain ⟨name, among, rfl⟩ := List.mem_map.mp member
  cases same
  have always : (Point.start symbol σ returnType scope incoming).Always (.named name) :=
    .inl (List.mem_map_of_mem among)
  exact ⟨.inl always, .inr (.inl always)⟩

end

end Backend
