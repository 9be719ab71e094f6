import Backend.Proofs.Blocks.Step
import Backend.Proofs.Emission.Rules

/-!
Code that is put together by the rules keeps the blocks of a body (`Emit.Yields.keeps`). The rules
that branch open the blocks that they owe.
-/

namespace Backend

variable {default endLabel label : Label} {arms : List ArmCode} {labels opened owed : List Label}

theorem Instr.incoming_of_not_phi {i : Instr} (plain : i.isPhi = false) : i.incoming = [] := by
  cases i with
  | phi dst ty incoming => cases plain
  | _ => rfl

namespace Emit

/-! ### Operators -/

theorem shortCircuit_keeps {lhs rhs : Code} (hl : lhs.condition.Keeps) (hr : rhs.condition.Keeps)
    (stem : String) (continueOn : Bool) :
    (shortCircuit stem continueOn lhs rhs).Keeps := by
  intro owed opened
  refine .bind (freshLabel_leads _) fun rhsLabel => .bind (freshLabel_leads _) fun endLabel => ?_
  refine .bind (hl _ _) fun l => .bind get_leads fun left => ?_
  refine .bind (terminate_leads ?_) fun _ => ?_
  · cases continueOn <;> simp [Terminator.targets]
  refine .bind (startBlock_leads [endLabel] rhsLabel) fun _ => ?_
  refine .bind (hr _ _) fun r => .bind get_leads fun right => ?_
  refine .bind (terminate_leads ?_) fun _ => ?_
  · simp [Terminator.targets]
  refine .forgetting [endLabel, right.block, rhsLabel, left.block] ?_
  refine .bind (startBlock_leads [] endLabel) fun _ => emitValue_leads _ fun dst => ?_
  simp [Instr.incoming]

theorem ternaryBranch_leads {branch : Code} {target : IrType} (h : (branch.coerced target).Keeps)
    (before after : List Label) (owes : endLabel ∈ before ++ after) :
    Leads (Frame.Blocks (before ++ label :: after) opened)
      (ternaryBranch label endLabel branch target)
      fun result => Frame.Blocks (before ++ after) (result.2 :: opened) := by
  refine .bind (startBlock_leads before label) fun _ => .bind (h _ _) fun v => ?_
  refine .bind (terminate_leads ?_) fun _ => .bind get_leads fun now => .pure fun f blocks => ?_
  · exact List.cons_subset.mpr ⟨List.mem_append_left _ owes, List.nil_subset _⟩
  · exact blocks.withOpened fun l member => blocks.opened (by grind)

theorem ternary_keeps {condition thenValue elseValue : Code} (ty : TypeRef)
    (hc : condition.condition.Keeps) (ht : ∀ target, (thenValue.coerced target).Keeps)
    (he : ∀ target, (elseValue.coerced target).Keeps) :
    (ternary condition thenValue elseValue ty).Keeps := by
  intro owed opened
  refine .bind (resolve_keeps ty _ _) fun target => .bind (hc _ _) fun test => ?_
  refine .bind (freshLabel_leads _) fun thenLabel => .bind (freshLabel_leads _) fun elseLabel => ?_
  refine .bind (freshLabel_leads _) fun endLabel => .bind (terminate_leads ?_) fun _ => ?_
  · simp [Terminator.targets]
  refine .bind (ternaryBranch_leads (ht target) [endLabel, elseLabel] owed ?_) fun onTrue => ?_
  · simp
  refine .bind (ternaryBranch_leads (he target) [endLabel] owed ?_) fun onFalse => ?_
  · simp
  refine .forgetting [endLabel, onFalse.2, onTrue.2] ?_
  refine .bind (startBlock_leads [] endLabel) fun _ => ?_
  split
  · exact .pure fun _ h => h
  · refine emitValue_leads _ fun dst => ?_
    simp [Instr.incoming]

/-! ### Matches -/

theorem armTag_keeps (layout : EnumLayout) (variant : Option String) :
    (armTag layout variant).Keeps := by
  cases variant with
  | some variant => exact (Keeps.orFail _ _).bind fun _ => .pure _
  | none => exact .pure _

theorem armTargets_leads (layout : EnumLayout) (arms : List ArmCode) :
    Leads (Frame.Blocks owed opened) (armTargets layout arms) fun targets f =>
      targets.length = arms.length ∧ f.Blocks ((targets.map Prod.snd).reverse ++ owed) opened := by
  induction arms generalizing owed with
  | nil => exact .pure fun f h => ⟨rfl, h⟩
  | cons arm rest ih =>
    refine .bind (freshLabel_leads _) fun label => .bind (armTag_keeps _ _ _ _) fun tag => ?_
    exact .bind ih fun targets => .pure fun f h => ⟨by simp [h.1], by simpa using h.2⟩

/-- What an arm does in its block. -/
structure ArmKeeps (layout : EnumLayout) (base : Operand) (result : MatchResult) (arm : ArmCode) :
    Prop where
  body : (inScope do bindArm layout base arm; arm.body.value).Keeps
  keep : ∀ v : Value, (keepResult result v arm.body.ty).Keeps

variable {layout : EnumLayout} {base : Operand} {result : MatchResult}

theorem matchArm_leads {arm : ArmCode} (h : ArmKeeps layout base result arm)
    (before after : List Label) (owes : endLabel ∈ before ++ after) :
    Leads (Frame.Blocks (before ++ label :: after) opened)
      (matchArm layout base result endLabel arm label)
      fun _ => Frame.Blocks (before ++ after) opened := by
  refine .forgetting [label] (.bind (startBlock_leads before label) fun _ => ?_)
  refine .bind (h.body _ _) fun value => .bind (h.keep value _ _) fun _ => ?_
  exact jumpTo_leads (List.mem_append_left _ owes)

theorem matchArms_leads (h : ∀ arm ∈ arms, ArmKeeps layout base result arm)
    (length : labels.length = arms.length) (owes : endLabel ∈ owed) :
    Leads (Frame.Blocks (labels.reverse ++ owed) opened)
      ((arms.zip labels).forM fun (arm, label) => matchArm layout base result endLabel arm label)
      fun _ => Frame.Blocks owed opened := by
  induction arms generalizing labels with
  | nil =>
    obtain rfl := List.eq_nil_of_length_eq_zero length
    exact .pure fun _ h => h
  | cons arm arms ih =>
    obtain ⟨label, labels, rfl⟩ := List.exists_cons_of_length_eq_add_one length
    rw [List.reverse_cons, List.append_assoc]
    refine .bind ?_ fun _ => ih (fun arm member => h arm (List.mem_cons_of_mem _ member))
      (Nat.succ.inj length)
    exact matchArm_leads (h arm List.mem_cons_self) _ _ (List.mem_append_right _ owes)

theorem firstCases_subset (targets : List (Int × Label)) : firstCases targets ⊆ targets := by
  have grown (targets done : List (Int × Label)) :
      targets.foldl (fun done t => if done.any (·.1 = t.1) then done else done ++ [t]) done ⊆
        done ++ targets := by
    induction targets generalizing done with
    | nil => simp
    | cons t rest ih =>
      rw [List.foldl_cons]
      split
      · exact List.Subset.trans (ih done) (by simp)
      · simpa using ih (done ++ [t])
  exact grown targets []

theorem switch_targets_subset {v : Value} {targets : List (Int × Label)} (hd : default ∈ labels)
    (h : targets.map Prod.snd ⊆ labels) :
    (Terminator.switch v default (firstCases targets)).targets ⊆ labels := by
  refine List.cons_subset.mpr ⟨hd, ?_⟩
  exact List.Subset.trans (List.map_subset _ (firstCases_subset targets)) h

theorem matchDefault_leads (name : String) :
    Leads (Frame.Blocks (label :: owed) opened) (matchDefault name label)
      fun _ => Frame.Blocks owed opened := by
  refine .forgetting [label] (.bind (startBlock_leads [] label) fun _ => ?_)
  refine .bind (Keeps.lift _ _ _) fun message => .bind (emit_keeps rfl _ _) fun _ => ?_
  exact terminate_keeps rfl _ _

theorem armTargets_leads_default (layout : EnumLayout) (arms : List ArmCode) :
    Leads (fun f => f.Blocks (default :: owed) opened ∧ f.Blocks owed opened)
      (armTargets layout arms) fun targets f => targets.length = arms.length ∧
        f.Blocks ((targets.map Prod.snd).reverse ++
          if (targets.find? fun t => t.1.isNone).isNone then default :: owed else owed) opened := by
  intro f s targets f' s' h start
  obtain ⟨length, withDefault⟩ := armTargets_leads layout arms h start.1
  obtain ⟨-, withoutDefault⟩ := armTargets_leads layout arms h start.2
  refine ⟨length, ?_⟩
  split
  · exact withDefault
  · exact withoutDefault

theorem armCases_subset (targets : List (Option Nat × Label)) :
    (targets.filterMap fun t => t.1.map fun (tag : Nat) => ((tag : Int), t.2)).map Prod.snd ⊆
      targets.map Prod.snd := by
  intro l member
  obtain ⟨c, found, rfl⟩ := List.mem_map.mp member
  obtain ⟨t, among, tagged⟩ := List.mem_filterMap.mp found
  obtain ⟨tag, -, rfl⟩ := Option.map_eq_some_iff.mp tagged
  exact List.mem_map_of_mem among

theorem matchSwitch_keeps (h : ∀ arm ∈ arms, ArmKeeps layout base result arm) (name : String)
    (tag : Value) : (matchSwitch name layout base result tag arms).Keeps := by
  intro owed opened
  refine .bind (freshLabel_leads _) fun endLabel => ?_
  -- A label for the default is made in any case, but it is mentioned only without a wildcard.
  refine .bind (Leads.both (freshLabel_leads _) (freshLabel_keeps _ _ _)) fun default => ?_
  refine .bind (armTargets_leads_default layout arms) fun targets => .assuming fun length => ?_
  have length : (targets.map Prod.snd).length = arms.length := by rw [List.length_map, length]
  have cases {rest : List Label} :
      (targets.filterMap fun t => t.1.map fun (tag : Nat) => ((tag : Int), t.2)).map Prod.snd ⊆
        (targets.map Prod.snd).reverse ++ rest :=
    fun l member => List.mem_append_left _ (List.mem_reverse.mpr (armCases_subset targets member))
  cases found : targets.find? fun t => t.1.isNone with
  | none =>
    refine .bind (terminate_leads ?_) fun _ => ?_
    · rw [List.append_assoc]
      exact switch_targets_subset (List.mem_append_right _ List.mem_cons_self) cases
    refine .bind (matchArms_leads h length ?_) fun _ => ?_
    · exact List.mem_cons_of_mem _ List.mem_cons_self
    refine .bind (matchDefault_leads name) fun _ => ?_
    exact .forgetting [endLabel] (startBlock_leads [] endLabel)
  | some wildcard =>
    have taken : wildcard.2 ∈ (targets.map Prod.snd).reverse :=
      List.mem_reverse.mpr (List.mem_map_of_mem (List.mem_of_find?_eq_some found))
    refine .bind (terminate_leads ?_) fun _ => ?_
    · rw [List.append_assoc]
      exact switch_targets_subset (List.mem_append_left _ taken) cases
    refine .bind (matchArms_leads h length List.mem_cons_self) fun _ => ?_
    exact .forgetting [endLabel] (startBlock_leads [] endLabel)

/-! ### Function values -/

theorem makeClosure_keeps (symbol : String) (ret : IrType) (params : List IrType) (env : Operand) :
    (makeClosure symbol ret params env).Keeps :=
  (emitValue_keeps _ fun _ => rfl).bind fun _ => emitValue_keeps _ fun _ => rfl

theorem lambda_keeps (info : ExprInfo) (params : List Field) (body : List Stmt)
    {captures : List Field} (h : ∀ name types, (makeEnvironment name captures types).Keeps) :
    (lambda info params body captures).Keeps := by
  refine .bind (Keeps.get.bind fun _ => .lift _) fun ty => ?_
  split
  · refine (Keeps.lift _).bind fun id => Keeps.get.bind fun f => ?_
    refine (resolve_keeps _).bind fun ret => .bind (Keeps.get.bind fun _ => .lift _) fun params => ?_
    refine .bind (Keeps.get.bind fun _ => .lift _) fun types => (h _ types).bind fun env => ?_
    exact .bind (Keeps.get.bind fun _ => .lift _) fun _ => makeClosure_keeps _ _ _ _
  · exact .fail _

/-! ### All code -/

theorem Yields.keeps {b : Bool} {α : Type} {os : List Operand} {x : Emit α} {R : α → List Operand}
    (h : Yields b os x R) : x.Keeps := by
  induction h with
  | weaken _ _ ih => exact ih
  | bind _ _ first rest => exact first.bind rest
  | pure => exact .pure _
  | fail cause => exact .fail cause
  | get => exact .get
  | session => exact .lift _
  | ask question => exact .lift _
  | internString text => exact .lift _
  | emit plain => exact emit_keeps (Instr.incoming_of_not_phi plain)
  | emitValue ty plain => exact emitValue_keeps ty fun r => Instr.incoming_of_not_phi (plain r).1
  | alloca ty => exact alloca_keeps ty
  | findLocal? name => exact Keeps.get.bind fun _ => .pure _
  | bindSlot ty name slot _ filled =>
    exact (alloca_keeps ty).bind fun r => (filled r).bind fun _ => bindLocal_keeps _ _
  | inScope _ ih => exact inScope_keeps ih
  | and _ _ left right => exact shortCircuit_keeps left right _ _
  | or _ _ left right => exact shortCircuit_keeps left right _ _
  | ternary ty _ _ _ test onTrue onFalse => exact ternary_keeps ty test onTrue onFalse
  | matchSwitch name _ _ _ body keep =>
    exact matchSwitch_keeps (fun arm member => ⟨body arm member, keep arm member⟩) name _
  | functionRef name typeArgs =>
    exact .bind (Keeps.get.bind fun _ => .lift _) fun _ => makeClosure_keeps _ _ _ _
  | lambda info params body _ environment => exact lambda_keeps info params body environment

end Emit

end Backend
