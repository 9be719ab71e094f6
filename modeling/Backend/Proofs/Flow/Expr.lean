import Backend.Proofs.Blocks.Expr
import Backend.Proofs.Flow.Branch

/-!
Code that is put together by the rules supplies its results (`Emit.Yields.supplies`). The rules that
branch go back to what was known where they started.
-/

namespace Backend

namespace Emit

variable {os : List Operand} {lhs rhs : Code}

/-! ### Operators -/

/-- The left block of a phi is read before the branch. It is the one that branches, unless the rule
started behind a terminator; then its blocks are never reached. -/
theorem shortCircuit_supplies (hl : Supplies [] lhs.condition fun o => [o])
    (hr : Supplies [] rhs.condition fun o => [o]) {stem : String} (continueOn : Bool)
    (plain : (Label.fresh (stem ++ ".rhs") 0).isJoin = false)
    (join : (Label.fresh (stem ++ ".end") 0).isJoin = true)
    (other : (Label.fresh (stem ++ ".end") 0).isTernaryEnd = false) :
    Supplies [] (shortCircuit stem continueOn lhs rhs) fun v => [v.operand] := by
  intro p₀ p s v f' s' ran ok start
  obtain ⟨rfl, known⟩ := start
  obtain ⟨_, _, _, fresh, ran₁⟩ := bind_ok ran
  obtain ⟨rfl, rfl⟩ := freshLabel_run p fresh
  obtain ⟨_, _, _, fresh, ran₂⟩ := bind_ok ran₁
  obtain ⟨rfl, rfl⟩ := freshLabel_run p fresh
  have ok₁ := ok.labelled p (stem ++ ".rhs")
  have under₁ := (ok.under known).labelled ok _ plain
  have ok₂ := ok₁.labelled p (stem ++ ".end")
  have under₂ := under₁.later (Point.le_labelled p ok₁ (stem ++ ".end"))
  have joining₂ := Point.joining_labelled ok₁ under₁.le _ join
  obtain ⟨l, _, _, left, ran₃⟩ := bind_ok ran₂
  obtain ⟨p₃, rfl, ok₃, le₃, going₃, known₃⟩ := hl _ left ok₂ ⟨rfl, Point.knowsAll_nil⟩
  obtain ⟨_, _, _, got, ran₄⟩ := bind_ok ran₃
  obtain ⟨rfl, rfl, rfl⟩ := get_ok got
  obtain ⟨_, _, _, branched, ran₅⟩ := bind_ok ran₄
  obtain ⟨p₄, rfl, ok₄, -, same₄, under₄, joining₄, grows₄⟩ := terminate_joins branched ok₃
    (under₂.later le₃) (joining₂.later le₃)
    (by cases continueOn <;> exact known₃)
    (by cases continueOn <;> simp [Terminator.targets])
    (by cases continueOn <;> simp [Terminator.targets])
  obtain ⟨_, _, _, started, ran₆⟩ := bind_ok ran₅
  obtain ⟨r, _, _, right, ran₇⟩ := bind_ok ran₆
  obtain ⟨_, _, _, got, ran₈⟩ := bind_ok ran₇
  obtain ⟨rfl, rfl, rfl⟩ := get_ok got
  obtain ⟨_, _, _, jumped, ran₉⟩ := bind_ok ran₈
  obtain ⟨same₅, p₅, rfl, ok₅, stopped, under₅, joining₅, known₅, grows₅⟩ :=
    arm_joins hr ok₄ under₄ joining₄ List.mem_cons_self started right jumped
  obtain ⟨_, _, _, opened, merged⟩ := bind_ok ran₉
  rw [same₅] at merged
  have constant := ok₃.knowsAt_constant (o := .bool !continueOn) fun _ same => by cases same
  have arms : (∀ r, p.Reads r) ∨ p₄.frame.block = p₃.frame.block := by
    cases ended : p.frame.terminated with
    | true => exact .inl fun _ => .inl ended
    | false => exact .inr (same₄ (going₃ ended))
  obtain ⟨q, rfl, ok₆, le, going, supplied⟩ := phi_joins ok₅ stopped under₅ joining₅
    (by simpa using ⟨(grows₄.trans grows₅).knowsAt constant, known₅⟩)
    (arms.imp (fun all => ⟨other, all⟩) fun same => by simp [same]) opened merged
  exact ⟨q, rfl, ok₆, le, fun _ => going, supplied⟩

theorem ternaryBranch_joins {branch : Code} {target : IrType}
    (h : Supplies [] (branch.coerced target) fun v => [v.operand]) {p₀ p : Point} {os : List Operand}
    {labels sources : List Label} {label endLabel : Label} {s s' : Session} {f' : Frame}
    {result : Operand × Label} (ok : p.Ok) (under : p₀.Under os labels p)
    (joining : p₀.Joining endLabel sources p) (member : label ∈ labels)
    (ran : ternaryBranch label endLabel branch target p.frame s = .ok (result, f') s') :
    ∃ q : Point, q.frame = f' ∧ q.Ok ∧ q.frame.terminated = true ∧ p₀.Under os labels q ∧
      p₀.Joining endLabel (sources ++ [result.2]) q ∧ q.KnowsAt result ∧ p.Grows q := by
  obtain ⟨_, _, _, started, ran₁⟩ := bind_ok ran
  obtain ⟨v, _, _, computed, ran₂⟩ := bind_ok ran₁
  obtain ⟨_, _, _, jumped, ran₃⟩ := bind_ok ran₂
  obtain ⟨_, _, _, got, ran₄⟩ := bind_ok ran₃
  obtain ⟨rfl, rfl, rfl⟩ := get_ok got
  obtain ⟨rfl, rfl, rfl⟩ := pure_ok ran₄
  exact (arm_joins h ok under joining member started computed jumped).2

theorem ternary_supplies {condition thenValue elseValue : Code} (ty : TypeRef)
    (hc : Supplies [] condition.condition fun o => [o])
    (ht : ∀ target, Supplies [] (thenValue.coerced target) fun v => [v.operand])
    (he : ∀ target, Supplies [] (elseValue.coerced target) fun v => [v.operand]) :
    Supplies [] (ternary condition thenValue elseValue ty) fun v => [v.operand] := by
  refine (resolve_supplies ty).bind fun target => Supplies.bind hc fun test => ?_
  intro p₀ p s v f' s' ran ok start
  obtain ⟨rfl, known⟩ := start
  obtain ⟨_, _, _, fresh, ran₁⟩ := bind_ok ran
  obtain ⟨rfl, rfl⟩ := freshLabel_run p fresh
  obtain ⟨_, _, _, fresh, ran₂⟩ := bind_ok ran₁
  obtain ⟨rfl, rfl⟩ := freshLabel_run p fresh
  obtain ⟨_, _, _, fresh, ran₃⟩ := bind_ok ran₂
  obtain ⟨rfl, rfl⟩ := freshLabel_run p fresh
  have ok₁ := ok.labelled p "ternary.then"
  have ok₂ := ok₁.labelled p "ternary.else"
  have ok₃ := ok₂.labelled p "ternary.end"
  have under₂ := ((ok.under known).labelled ok "ternary.then" rfl).labelled ok₁ "ternary.else" rfl
  have under₃ := under₂.later (Point.le_labelled p ok₂ "ternary.end")
  have joining₃ := Point.joining_labelled ok₂ under₂.le "ternary.end" rfl
  obtain ⟨_, _, _, branched, ran₄⟩ := bind_ok ran₃
  obtain ⟨p₄, rfl, ok₄, under₄, joining₄⟩ := terminate_aside branched ok₃ under₃ joining₃
    (by simpa [Terminator.operands] using (under₃.le.knowsAll known)) (by simp [Terminator.targets])
  obtain ⟨onTrue, _, _, yes, ran₅⟩ := bind_ok ran₄
  obtain ⟨p₅, rfl, ok₅, stopped₅, under₅, joining₅, known₅, grows₅⟩ :=
    ternaryBranch_joins (ht target) ok₄ under₄ joining₄ (by simp) yes
  obtain ⟨onFalse, _, _, no, ran₆⟩ := bind_ok ran₅
  obtain ⟨p₆, rfl, ok₆, stopped₆, under₆, joining₆, known₆, grows₆⟩ :=
    ternaryBranch_joins (he target) ok₅ under₅ joining₅ (by simp) no
  obtain ⟨_, _, _, opened, merged⟩ := bind_ok ran₆
  split at merged
  case isTrue =>
    obtain ⟨rfl, rfl, rfl⟩ := pure_ok merged
    obtain rfl := startBlock_run opened
    obtain ⟨ok₇, le, -, -⟩ := joining₆.opened under₆ ok₆ stopped₆
    exact ⟨_, rfl, ok₇, le, fun _ => p₆.started_going _, by simp [Value.void]⟩
  case isFalse =>
    obtain ⟨q, rfl, ok₇, le, going, supplied⟩ := phi_joins ok₆ stopped₆ under₆ joining₆
      (by simpa using ⟨grows₆.knowsAt known₅, known₆⟩) (.inr (by simp)) opened merged
    exact ⟨q, rfl, ok₇, le, fun _ => going, supplied⟩

/-! ### Matches -/

theorem armTag_supplies (layout : EnumLayout) (variant : Option String) :
    Supplies os (armTag layout variant) fun _ => [] := by
  cases variant with
  | some variant => exact (Supplies.orFail _ _).bind fun _ => .pure fun _ _ => by simp
  | none => exact .pure fun _ _ => by simp

section

variable {p₀ : Point} {labels : List Label}

theorem armTargets_under (layout : EnumLayout) (arms : List ArmCode) :
    Carries (p₀.Under os labels) (armTargets layout arms) fun targets =>
      p₀.Under os ((targets.map Prod.snd).reverse ++ labels) := by
  induction arms generalizing labels with
  | nil => exact .pure fun _ h => h
  | cons arm rest ih =>
    refine .bind (freshLabel_under rfl) fun label => ?_
    refine .bind (armTag_supplies _ _).under fun tag => .imp ?_ (fun _ h => h.2) fun _ _ h => h
    exact .bind ih fun targets => .pure fun _ h => by simpa using h

/-- What an arm does in its block. -/
structure ArmSupplies (os : List Operand) (layout : EnumLayout) (base : Operand)
    (result : MatchResult) (arm : ArmCode) : Prop where
  body : Supplies os (inScope do bindArm layout base arm; arm.body.value) fun v => [v.operand]
  keep : ∀ v : Value, Supplies (v.operand :: os) (keepResult result v arm.body.ty) fun _ => []

variable {layout : EnumLayout} {base : Operand} {result : MatchResult}

theorem matchArm_under {arm : ArmCode} (h : ArmSupplies os layout base result arm)
    {endLabel label : Label} (member : label ∈ labels) (ends : endLabel ∈ labels) :
    Carries (p₀.Under os labels) (matchArm layout base result endLabel arm label)
      fun _ => p₀.Under os labels := by
  refine .bind (startBlock_under member) fun _ => .imp ?_ (fun _ h => h.2) fun _ _ h => h
  refine .bind h.body.under fun value => ?_
  refine .bind (Supplies.underAlso [value.operand] (h.keep value)) fun _ => ?_
  exact (jumpTo_under ends).imp (fun _ h => h.2) fun _ _ h => h

theorem matchArms_under {arms : List ArmCode} (h : ∀ arm ∈ arms, ArmSupplies os layout base result arm)
    {endLabel : Label} {targets : List Label} (members : targets ⊆ labels) (ends : endLabel ∈ labels) :
    Carries (p₀.Under os labels)
      ((arms.zip targets).forM fun (arm, label) => matchArm layout base result endLabel arm label)
      fun _ => p₀.Under os labels := by
  induction arms generalizing targets with
  | nil => exact .pure fun _ h => h
  | cons arm arms ih =>
    cases targets with
    | nil => exact .pure fun _ h => h
    | cons label targets =>
      obtain ⟨member, members⟩ := List.cons_subset.mp members
      refine .bind (matchArm_under (h arm List.mem_cons_self) member ends) fun _ => ?_
      exact ih (fun arm member => h arm (List.mem_cons_of_mem _ member)) members

theorem matchDefault_under (name : String) {label : Label} (member : label ∈ labels) :
    Carries (p₀.Under os labels) (matchDefault name label) fun _ => p₀.Under os labels := by
  refine .bind (startBlock_under member) fun _ => .imp ?_ (fun _ h => h.2) fun _ _ h => h
  refine .bind (internString_supplies _).under fun message => ?_
  refine .bind (Supplies.underAlso [message] (emit_supplies rfl rfl fun _ h => ?_)) fun _ => ?_
  · simp_all [Instr.operands]
  · exact terminate_under [] (List.nil_subset _) fun _ _ _ => Point.knowsAll_nil

end

theorem matchSwitch_supplies {layout : EnumLayout} {base : Operand} {result : MatchResult}
    {arms : List ArmCode} (h : ∀ arm ∈ arms, ArmSupplies os layout base result arm) (name : String)
    {tag : Value} (known : Known os tag.operand) :
    Supplies os (matchSwitch name layout base result tag arms) fun _ => [] := by
  refine .of_under fun p₀ => ?_
  refine .bind (freshLabel_under rfl) fun endLabel => .bind (freshLabel_under rfl) fun default => ?_
  refine .bind (armTargets_under layout arms) fun targets => ?_
  have cases :
      (targets.filterMap fun t => t.1.map fun (tag : Nat) => ((tag : Int), t.2)).map Prod.snd ⊆
        (targets.map Prod.snd).reverse ++ [default, endLabel] :=
    fun l member => List.mem_append_left _ (List.mem_reverse.mpr (armCases_subset targets member))
  have otherwise : ((targets.find? fun t => t.1.isNone).map Prod.snd).getD default ∈
      (targets.map Prod.snd).reverse ++ [default, endLabel] := by
    cases found : targets.find? fun t => t.1.isNone with
    | none => simp
    | some wildcard =>
      have among := List.mem_map_of_mem (f := Prod.snd) (List.mem_of_find?_eq_some found)
      exact List.mem_append_left _ (List.mem_reverse.mpr among)
  refine .bind (.imp (terminate_under [] (switch_targets_subset otherwise cases) fun p _ h => ?_)
    (fun _ under => ⟨Point.knowsAll_nil, under⟩) fun _ _ h => h) fun _ => ?_
  · simpa [Terminator.operands] using Point.knows_of_known known h
  refine .bind (matchArms_under h ?_ ?_) fun _ => ?_
  · exact fun l member => List.mem_append_left _ (List.mem_reverse.mpr member)
  · simp
  have finish : Carries (p₀.Under os ((targets.map Prod.snd).reverse ++ [default, endLabel]))
      (startBlock endLabel) fun _ q =>
        p₀.Le q ∧ q.frame.terminated = false ∧ q.KnowsAll [] :=
    (startBlock_under (by simp)).imp (fun _ h => h) fun _ _ h => ⟨h.2.le, h.1, Point.knowsAll_nil⟩
  split
  · exact .bind (matchDefault_under name (by simp)) fun _ => finish
  · exact finish

/-! ### Function values -/

theorem makeClosure_supplies (symbol : String) (ret : IrType) (params : List IrType) {env : Operand}
    (known : ∀ p : Point, p.KnowsAll os → p.Knows env) :
    Supplies os (makeClosure symbol ret params env) fun v => [v.operand] := by
  refine (emitValue_supplies _ fun _ => ⟨rfl, rfl, fun p h => ?_⟩).bind fun _ =>
    emitValue_supplies _ fun _ => ⟨rfl, rfl, fun p h => ?_⟩
  · simp [Instr.operands]
  · have := known p
    simp_all [Instr.operands]

theorem functionRef_supplies (name : String) (typeArgs : List TypeRef) :
    Supplies os (functionRef name typeArgs) fun v => [v.operand] :=
  Supplies.bind (Supplies.get.bind fun _ => .lift _) fun _ =>
    makeClosure_supplies _ _ _ fun _ _ => by simp

theorem lambda_supplies (info : ExprInfo) (params : List Field) (body : List Stmt)
    {captures : List Field}
    (h : ∀ name types, Supplies [] (makeEnvironment name captures types) fun o => [o]) :
    Supplies os (lambda info params body captures) fun v => [v.operand] := by
  have asked (types : List TypeRef) {os : List Operand} :
      Supplies os (resolveAll types) fun _ => [] := Supplies.get.bind fun _ => .lift _
  have queued (symbol : String) (body : LiftedLambda) {os : List Operand} :
      Supplies os (queueLambda symbol body) fun _ => [] := Supplies.get.bind fun _ => .lift _
  refine Supplies.bind (Supplies.get.bind fun _ => .lift _) fun ty => ?_
  split
  · refine (Supplies.lift _).bind fun id => Supplies.get.bind fun f => ?_
    refine (resolve_supplies _).bind fun ret => (asked _).bind fun params => ?_
    refine (asked _).bind fun types => (h _ types).anywhere.bind fun env => ?_
    exact (queued _ _).bind fun _ => makeClosure_supplies _ _ _ fun _ h => by simp_all
  · exact .fail _

/-! ### All code -/

theorem Yields.supplies {b : Bool} {α : Type} {x : Emit α} {R : α → List Operand}
    (h : Yields b os x R) :
    Supplies os x R := by
  induction h with
  | weaken _ known ih => exact ih.weaken fun _ => Point.knowsAll_of_allKnown known
  | bind _ _ first rest => exact first.bind rest
  | pure known => exact .pure fun _ => Point.knowsAll_of_allKnown known
  | fail cause => exact .fail cause
  | get => exact .get
  | session => exact .lift _
  | ask question => exact .lift _
  | internString text => exact internString_supplies text
  | emit plain dst known => exact emit_supplies plain dst fun _ h => Point.knowsAll_reads known h
  | emitValue ty plain known =>
    exact emitValue_supplies ty fun r =>
      ⟨(plain r).1, (plain r).2, fun _ h => Point.knowsAll_reads (known r) h⟩
  | alloca ty => exact alloca_supplies ty
  | findLocal? name => exact findLocal?_supplies name
  | bindSlot ty name slot _ filled => exact bindSlot_supplies ty name slot filled
  | inScope _ ih => exact inScope_supplies ih
  | and _ _ left right => exact shortCircuit_supplies left right true rfl rfl rfl
  | or _ _ left right => exact shortCircuit_supplies left right false rfl rfl rfl
  | ternary ty _ _ _ test onTrue onFalse => exact ternary_supplies ty test onTrue onFalse
  | matchSwitch name known _ _ body keep =>
    exact matchSwitch_supplies (fun arm member => ⟨body arm member, keep arm member⟩) name known
  | functionRef name typeArgs => exact functionRef_supplies name typeArgs
  | lambda info params body _ environment => exact lambda_supplies info params body environment

end Emit

end Backend
