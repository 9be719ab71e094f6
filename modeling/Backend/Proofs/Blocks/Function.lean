import Backend.Proofs.Blocks.Expr
import Backend.Proofs.Emission.Function

/-!
Statements keep the blocks of a body too, and a function ends with its last block closed. Main
statement: the function that `Gen.emitFunction` adds to the output is well-formed.
-/

namespace Backend

variable {condition : Code} {f : Frame} {d : FunctionDef} {endLabel : Label}
  {opened owed : List Label}

namespace Emit

theorem inBlock_leads {x : Emit Unit} (before : List Label) {after : List Label}
    {label next : Label}
    (h : Leads (Frame.Blocks (before ++ after) (label :: opened)) x fun _ =>
      Frame.Blocks (before ++ after) (label :: opened))
    (known : next ∈ (before ++ after) ++ opened) :
    Leads (Frame.Blocks (before ++ label :: after) opened) (inBlock label next x)
      fun _ => Frame.Blocks (before ++ after) opened := by
  refine .forgetting [label] (.bind (startBlock_leads before label) fun _ => ?_)
  refine .bind h fun _ => jumpTo_leads ?_
  rcases List.mem_append.mp known with owed | opened
  · exact List.mem_append_left _ owed
  · exact List.mem_append_right _ (List.mem_cons_of_mem _ opened)

theorem ifElse_keeps (hc : condition.condition.Keeps) {thenBlock : Emit Unit}
    (ht : thenBlock.Keeps) {elseBlock : Option (Emit Unit)} (he : ∀ x ∈ elseBlock, x.Keeps) :
    (ifElse condition thenBlock elseBlock).Keeps := by
  intro owed opened
  refine .bind (hc _ _) fun test => .bind (freshLabel_leads _) fun thenLabel => ?_
  refine .bind (freshLabel_leads _) fun endLabel => .forgetting [endLabel] ?_
  cases elseBlock with
  | none =>
    refine .bind (terminate_leads (by simp [Terminator.targets])) fun _ => ?_
    refine .bind (inBlock_leads [endLabel] (ht _ _) (by simp)) fun _ => ?_
    exact startBlock_leads [] endLabel
  | some elseBlock =>
    refine .bind (freshLabel_leads _) fun elseLabel => ?_
    refine .bind (terminate_leads (by simp [Terminator.targets])) fun _ => ?_
    refine .bind (inBlock_leads [elseLabel, endLabel] (ht _ _) (by simp)) fun _ => ?_
    refine .bind (inBlock_leads [] (he _ rfl _ _) (by simp)) fun _ => ?_
    exact startBlock_leads [] endLabel

theorem inLoop_leads {x : Emit Unit} (h : x.Keeps) {labels : LoopLabels}
    (leave : labels.leave ∈ owed ++ opened) (again : labels.again ∈ owed ++ opened) :
    Leads (Frame.Blocks owed opened) (inLoop labels x) fun _ => Frame.Blocks owed opened := by
  intro f s _ f' s' ran start
  obtain ⟨now, f₁, s₁, got, looping⟩ := bind_ok ran
  obtain ⟨rfl, rfl, rfl⟩ := get_ok got
  obtain ⟨_, f₂, s₂, set, running⟩ := bind_ok looping
  obtain ⟨rfl, rfl⟩ := modify_ok set
  obtain ⟨_, f₃, s₃, body, restore⟩ := bind_ok running
  obtain ⟨rfl, rfl⟩ := modify_ok restore
  have inside : Frame.Blocks owed (opened ++ f₁.defined) { f₁ with loops := labels :: f₁.loops } :=
    { start with
      opened := List.append_subset.mpr ⟨start.opened, fun _ member => member⟩
      loops := List.forall_mem_cons.mpr
        ⟨⟨start.known_of_mem leave, start.known_of_mem again⟩, start.loops⟩ }
  have after := h _ _ body inside
  have known {l : Label} (member : l ∈ f₁.known owed) : l ∈ f₃.known owed := by
    refine after.known_of_mem ?_
    rcases List.mem_append.mp member with owed | defined
    · exact List.mem_append_left _ owed
    · exact List.mem_append_right _ (List.mem_append_right _ defined)
  exact {
    after with
    opened := fun l member => after.opened (List.mem_append_left _ member)
    loops := fun labels member =>
      ⟨known (start.loops labels member).1, known (start.loops labels member).2⟩ }

theorem whileLoop_keeps (hc : condition.condition.Keeps) {body : Emit Unit} (hb : body.Keeps) :
    (whileLoop condition body).Keeps := by
  intro owed opened
  refine .bind (freshLabel_leads _) fun conditionLabel => .bind (freshLabel_leads _) fun bodyLabel => ?_
  refine .bind (freshLabel_leads _) fun endLabel => .forgetting [endLabel, conditionLabel] ?_
  refine .bind (startBlock_leads [endLabel, bodyLabel] conditionLabel) fun _ => ?_
  refine .bind (hc _ _) fun test => ?_
  refine .bind (terminate_leads (by simp [Terminator.targets])) fun _ => ?_
  refine .bind (inBlock_leads [endLabel] (inLoop_leads hb ?_ ?_) ?_) fun _ => ?_
  · simp
  · simp
  · simp
  · exact startBlock_leads [] endLabel

theorem loopJump_keeps (keyword : String) {target : LoopLabels → Label}
    (either : ∀ labels, target labels = labels.leave ∨ target labels = labels.again) :
    (loopJump keyword target).Keeps := by
  intro owed opened f s _ f' s' h start
  obtain ⟨now, f₁, s₁, got, rest⟩ := bind_ok h
  obtain ⟨rfl, rfl, rfl⟩ := get_ok got
  cases around : f₁.loops with
  | nil => rw [around] at rest; exact (fail_ok rest).elim
  | cons labels outer =>
    rw [around] at rest
    have known : target labels ∈ f₁.known owed := by
      obtain ⟨leave, again⟩ := start.loops labels (by rw [around]; exact List.mem_cons_self)
      rcases either labels with same | same
      · rw [same]; exact leave
      · rw [same]; exact again
    -- Every block that there is counts as opened here.
    have all : f₁.Blocks owed (opened ++ f₁.defined) :=
      start.withOpened (List.append_subset.mpr ⟨start.opened, fun _ member => member⟩)
    have targets : (Terminator.jump (target labels)).targets ⊆ owed ++ (opened ++ f₁.defined) := by
      refine List.cons_subset.mpr ⟨?_, List.nil_subset _⟩
      rcases List.mem_append.mp known with owed | defined
      · exact List.mem_append_left _ owed
      · exact List.mem_append_right _ (List.mem_append_right _ defined)
    have jumped := terminate_leads targets rest all
    exact jumped.withOpened fun l member => jumped.opened (List.mem_append_left _ member)

theorem labelCases_leads (cases : List (Int × Emit Unit)) (h : ∀ c ∈ cases, c.2.Keeps) :
    Leads (Frame.Blocks owed opened) (labelCases cases) fun labelled f =>
      (∀ c ∈ labelled, c.2.2.Keeps) ∧
        f.Blocks ((labelled.map fun c => c.2.1).reverse ++ owed) opened := by
  induction cases generalizing owed with
  | nil => exact .pure fun f blocks => ⟨List.forall_mem_nil _, blocks⟩
  | cons c rest ih =>
    refine .bind (freshLabel_leads _) fun label => ?_
    refine .bind (ih fun c member => h c (List.mem_cons_of_mem _ member)) fun labelled => ?_
    exact .pure fun f after =>
      ⟨List.forall_mem_cons.mpr ⟨h c List.mem_cons_self, after.1⟩, by simpa using after.2⟩

theorem caseBodies_leads {labelled : List (Int × Label × Emit Unit)}
    (h : ∀ c ∈ labelled, c.2.2.Keeps) (owes : endLabel ∈ owed) :
    Leads (Frame.Blocks ((labelled.map fun c => c.2.1).reverse ++ owed) opened)
      (labelled.forM fun (_, label, body) => inBlock label endLabel body)
      fun _ => Frame.Blocks owed opened := by
  induction labelled with
  | nil => exact .pure fun _ blocks => blocks
  | cons c rest ih =>
    rw [List.map_cons, List.reverse_cons, List.append_assoc]
    refine .bind (inBlock_leads _ (h c List.mem_cons_self _ _) ?_) fun _ => ?_
    · exact List.mem_append_left _ (List.mem_append_right _ owes)
    · exact ih fun c member => h c (List.mem_cons_of_mem _ member)

theorem switchCases_leads (v : Value) {cases : List (Int × Emit Unit)}
    (h : ∀ c ∈ cases, c.2.Keeps) {defaultLabel : Label} (owesEnd : endLabel ∈ owed)
    (owesDefault : defaultLabel ∈ owed) :
    Leads (Frame.Blocks owed opened) (switchCases v endLabel defaultLabel cases)
      fun _ => Frame.Blocks owed opened := by
  refine .bind (labelCases_leads cases h) fun labelled => .assuming fun bodies => ?_
  refine .bind (terminate_leads (switch_targets_subset ?_ ?_)) fun _ => ?_
  · simp [owesDefault]
  · intro l member
    have label : l ∈ labelled.map fun c => c.2.1 := by simpa using member
    exact List.mem_append_left _ (List.mem_append_left _ (List.mem_reverse.mpr label))
  · exact caseBodies_leads bodies owesEnd

theorem switchOn_keeps (v : Value) {cases : List (Int × Emit Unit)} (h : ∀ c ∈ cases, c.2.Keeps)
    {default : Option (Emit Unit)} (hd : ∀ x ∈ default, x.Keeps) :
    (switchOn v cases default).Keeps := by
  intro owed opened
  refine .bind (freshLabel_leads _) fun endLabel => .forgetting [endLabel] ?_
  cases default with
  | none =>
    refine .bind (switchCases_leads v h (by simp) (by simp)) fun _ => ?_
    exact startBlock_leads [] endLabel
  | some body =>
    refine .bind (freshLabel_leads _) fun defaultLabel => ?_
    refine .bind (switchCases_leads v h (by simp) (by simp)) fun _ => ?_
    refine .bind (inBlock_leads [] (hd _ rfl _ _) (by simp)) fun _ => ?_
    exact startBlock_leads [] endLabel

theorem placed_keeps (location : Location) {x : Emit Unit} (h : x.Keeps) :
    (placed location x).Keeps :=
  (setLocation_keeps location).bind fun _ => locating_keeps location h

theorem Acts.keeps {b : Bool} {α : Type} {os : List Operand} {x : Emit α} (h : Acts b os x) :
    x.Keeps := by
  induction h with
  | step h => exact h.keeps
  | anywhere _ ih => exact ih
  | bind first _ rest => exact first.keeps.bind rest
  | andThen _ _ first rest => exact first.bind rest
  | inScope _ ih => exact inScope_keeps ih
  | placed location _ ih => exact placed_keeps location ih
  | terminate leaves => exact terminate_keeps leaves
  | ifElse test _ _ onTrue onFalse => exact ifElse_keeps test.keeps onTrue onFalse
  | whileLoop test _ body => exact whileLoop_keeps test.keeps body
  | loopJump keyword either => exact loopJump_keeps keyword either
  | switchOn _ _ _ each otherwise => exact switchOn_keeps _ each otherwise

end Emit

/-! ### Whole functions -/

namespace Emit

theorem receiverParam_keeps (receiver : Option String) : (receiverParam receiver).Keeps := by
  cases receiver with
  | none => exact .pure _
  | some owner => exact (Keeps.lift _).bind fun _ => .pure _

theorem incomingParams_keeps (params : List Field) : (incomingParams params).Keeps :=
  .mapM params fun _ _ => (resolve_keeps _).bind fun _ => .pure _

theorem resultType_keeps (isMain : Bool) (declared : TypeRef) : (resultType isMain declared).Keeps :=
  .ite (.pure _) (resolve_keeps declared)

theorem terminate_terminates (t : Terminator) :
    Leads (fun _ => True) (terminate t) fun _ f => f.terminated = true := by
  intro f s _ f' s' h _
  obtain ⟨_, f₁, s₁, -, rest⟩ := bind_ok h
  cases rest
  rfl

theorem defaultReturn_terminates :
    Leads (fun _ => True) defaultReturn fun _ f => f.terminated = true := by
  refine .bind (fun _ _ _ _ _ _ _ => trivial) fun f => ?_
  split
  · exact terminate_terminates _
  · split
    · exact terminate_terminates _
    · exact terminate_terminates _

theorem functionBody_terminates (incoming : List Incoming) (captures : Option Captures)
    (body : List Stmt) :
    Leads (fun _ => True) (functionBody incoming captures body) fun _ f => f.terminated = true := by
  refine .bind (fun _ _ _ _ _ _ _ => trivial) fun _ => .bind (fun _ _ _ _ _ _ _ => trivial) fun _ => ?_
  refine .bind (Q := fun _ _ => True) (fun _ _ _ _ _ _ _ => trivial) fun _ => ?_
  intro f s _ f' s' h _
  obtain ⟨now, f₁, s₁, got, rest⟩ := bind_ok h
  obtain ⟨rfl, rfl, rfl⟩ := get_ok got
  split at rest
  case isTrue ended =>
    obtain ⟨-, rfl, -⟩ := pure_ok rest
    exact ended
  case isFalse => exact defaultReturn_terminates rest trivial

theorem functionBody_leads (incoming : List Incoming) (captures : Option Captures)
    (body : List Stmt) : Leads (Frame.Blocks owed opened) (functionBody incoming captures body)
      fun _ f => f.terminated = true ∧ f.Blocks owed opened :=
  .both (fun _ _ _ _ _ ran _ => functionBody_terminates _ _ _ ran trivial)
    ((functionBody_acts_incoming incoming captures body).keeps _ _)

end Emit

theorem Frame.Blocks.wellFormed (h : f.Blocks [] []) (ended : f.terminated = true)
    (body : d.body = f.body.toList) : d.WellFormed := by
  have labels : d.blocks.map Block.label = f.defined := by
    rw [FunctionDef.blocks_labels, body, Frame.defined]
  refine ⟨?_, closed_of_closes ?_, ?_⟩
  · have distinct : f.defined.Pairwise fun a b => a.text ≠ b.text := by
      refine (List.pairwise_map.mp h.unique).imp fun differ same => ?_
      exact differ (Label.number?_of_text same)
    rw [← labels] at distinct
    have blocks := List.pairwise_map.mp distinct
    exact List.pairwise_map.mpr blocks
  · rw [body, h.flow, ended]
  · rw [labels, body]
    exact fun line member l mention => h.mentioned line member mention

theorem Frame.blocks_start (symbol : String) (σ : Substitution) :
    Frame.Blocks [] [] { symbol, subst := σ } where
  flow := rfl
  unique := List.nodup_singleton _
  numbered := by
    intro l member n number
    rw [List.mem_singleton.mp member] at number
    cases number
  opened := List.nil_subset _
  current := List.mem_singleton.mpr rfl
  mentioned := List.forall_mem_nil _
  loops := List.forall_mem_nil _

theorem Emit.functionDef_wellFormed {sig : Signature} {body : List Stmt} {f' : Frame}
    {s s' : Session} (h : functionDef sig body f s = .ok (d, f') s') (start : f.Blocks [] []) :
    d.symbol = sig.symbol ∧ d.WellFormed := by
  have leads : Leads (Frame.Blocks [] []) (functionDef sig body)
      fun d _ => d.symbol = sig.symbol ∧ d.WellFormed := by
    refine .bind (Keeps.get _ _) fun now => .bind (resultType_keeps _ _ _ _) fun ret => ?_
    refine .bind (receiverParam_keeps _ _ _) fun receiver => ?_
    refine .bind (incomingParams_keeps _ _ _) fun params => .bind (Keeps.lift _ _ _) fun scope => ?_
    refine .bind (Keeps.modify (g := fun f => { f with returnType := ret, scope })
      (fun _ => ⟨rfl, rfl, rfl, rfl, rfl⟩) _ _) fun _ => .bind (functionBody_leads _ _ _) fun _ => ?_
    intro f s d f' s' ran ended
    obtain ⟨now, f₁, s₁, got, rest⟩ := bind_ok ran
    obtain ⟨rfl, rfl, rfl⟩ := get_ok got
    obtain ⟨rfl, -, -⟩ := pure_ok rest
    exact ⟨rfl, ended.2.wellFormed ended.1 rfl⟩
  exact leads h start

/-- The function that is added to the output is well-formed: its labels are distinct, each of its
blocks ends with its only terminator, and every label that is mentioned is one of them. -/
theorem Gen.emitFunction_wellFormed (sig : Signature) (body : List Stmt) (σ : Substitution)
    (s s' : Session) (h : Gen.emitFunction sig body σ s = .ok () s') :
    ∃ earlier f, s'.output.functions = earlier ++ [f] ∧ f.symbol = sig.symbol ∧ f.WellFormed := by
  obtain ⟨⟨f, frame⟩, s₁, ran, added⟩ := Gen.bind_ok h
  cases added
  obtain ⟨symbol, wellFormed⟩ := Emit.functionDef_wellFormed ran (Frame.blocks_start _ _)
  exact ⟨s₁.output.functions, f, rfl, symbol, wellFormed⟩

/-- A loop whose body goes on after it has returned and after it has left the loop. -/
def deadCode : List Stmt :=
  [.whileLoop (.binary { ty := .bool } .and (.ofBool true) (.ofBool false))
    [.ifElse (.ofBool true) [.ret (some (.ofInt 1)) {}, .breakLoop {}, .expr (.ofInt 2)] none {},
      .continueLoop {},
      .expr (.ternary { ty := .i32 } (.ofBool true) (.ofInt 3) (.ofInt 4))] {}]

theorem Gen.emitFunction_wellFormed_deadCode :
    ∃ s', Gen.emitFunction { symbol := "f", returnType := .i32 } deadCode {} {} = .ok () s' ∧
      ∃ earlier f, s'.output.functions = earlier ++ [f] ∧ f.symbol = "f" ∧ f.WellFormed := by
  have succeeds : (Gen.emitFunction { symbol := "f", returnType := .i32 } deadCode {}).succeeds {} =
      true := by decide +kernel
  obtain ⟨_, s', h⟩ := Gen.exists_ok succeeds
  exact ⟨s', h, Gen.emitFunction_wellFormed _ _ _ _ _ h⟩

end Backend
