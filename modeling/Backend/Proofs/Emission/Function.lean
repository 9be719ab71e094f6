import Backend.Proofs.Emission.Expr

/-! Statements and bodies of functions are put together by the rules. -/

namespace Backend

namespace Emit

variable {b : Bool} {os : List Operand}

theorem defaultReturn_acts : Acts b os defaultReturn :=
  .bind .get fun _ => .ite (.terminate rfl (by simp [Terminator.operands]))
    (.ite (.terminate rfl (by simp [Terminator.operands]))
      (.terminate rfl (by simp [Terminator.operands])))

theorem initialValue_yields (ir : IrType) {value : Option Code} (h : ∀ c ∈ value, c.Yields) :
    Yields b os (initialValue ir value) fun v => [v.operand] := by
  cases value with
  | none => exact .pure (by simp)
  | some c => exact ((h c rfl).coerced ir).anywhere

theorem letVar_yields (name : String) (ty : TypeRef) {value : Option Code}
    (h : ∀ c ∈ value, c.Yields) : Yields true os (letVar name ty value) fun _ => [] := by
  refine (Yields.resolve ty).bind fun ir => ?_
  simp only [← bind_assoc (initialValue ir value)]
  refine .bindSlot ir name (fun _ => rfl) fun slot => ?_
  exact (initialValue_yields ir h).bind fun init => .store (by simp) (by simp)

theorem ret_acts {value : Option Code} (h : ∀ c ∈ value, c.Yields) : Acts b os (ret value) := by
  refine .bind .get fun f => ?_
  cases value with
  | none => exact defaultReturn_acts
  | some c =>
    refine .ite (.bind (h c rfl).value.discard.anywhere fun _ => defaultReturn_acts) ?_
    exact .bind ((h c rfl).coerced _).anywhere fun _ =>
      .terminate rfl (by simp [Terminator.operands])

theorem switch_acts {scrutinee : Code} (hs : scrutinee.Yields) {cases : List (Int × Emit Unit)}
    (h : ∀ c ∈ cases, Acts b [] c.2) {default : Option (Emit Unit)}
    (hd : ∀ x ∈ default, Acts b [] x) : Acts b [] (switch scrutinee cases default) :=
  .bind hs.value fun _ => .ite (.switchOn (by simp) h hd) (.fail _)

end Emit

open Emit

theorem optionCode_yields (value : Option Expr) : ∀ c ∈ value.map Expr.code, c.Yields := by
  intro c member
  obtain ⟨e, -, rfl⟩ := Option.map_eq_some_iff.mp member
  exact e.code_yields

/-- A statement leaves no name bound, unless it declares a variable. -/
def Stmt.declares : Stmt → Bool
  | .letVar .. => true
  | _ => false

mutual

theorem Stmt.emit_acts {b : Bool} : (stmt : Stmt) → stmt.declares ≤ b → Acts b [] stmt.emit
  | .letVar _ _ value l, le =>
    Bool.eq_true_of_true_le le ▸ .placed l (.step (letVar_yields _ _ (optionCode_yields value)))
  | .expr e, _ => .placed _ (.step e.code_yields.value.discard)
  | .ret value l, _ => .placed l (ret_acts (optionCode_yields value))
  | .ifElse condition thenBlock elseBlock l, _ =>
    .placed l (.ifElse condition.code_yields.condition (.inScope (emitStmts_act thenBlock))
      (emitOptional_acts elseBlock))
  | .whileLoop condition body l, _ =>
    .placed l (.whileLoop condition.code_yields.condition (.inScope (emitStmts_act body)))
  | .breakLoop l, _ => .placed l (.loopJump _ fun _ => .inl rfl)
  | .continueLoop l, _ => .placed l (.loopJump _ fun _ => .inr rfl)
  | .switch scrutinee cases default l, _ =>
    .placed l (switch_acts scrutinee.code_yields (emitCases_act cases) (emitOptional_acts default))
  | .block body, _ => .inScope (emitStmts_act body)

theorem emitStmts_act : (body : List Stmt) → Acts true [] (emitStmts body)
  | [] => .pure ()
  | stmt :: rest => .andThen (stmt.emit_acts (Bool.le_true _)) fun _ => emitStmts_act rest

theorem emitOptional_acts {b : Bool} :
    (body : Option (List Stmt)) → ∀ x ∈ emitOptional body, Acts b [] x
  | none => nofun
  | some body => fun _ same => Option.some.inj same ▸ .inScope (emitStmts_act body)

theorem emitCases_act {b : Bool} : (cases : List SwitchCase) → ∀ c ∈ emitCases cases, Acts b [] c.2
  | [] => List.forall_mem_nil _
  | .mk _ body :: rest =>
    List.forall_mem_cons.mpr ⟨.inScope (emitStmts_act body), emitCases_act rest⟩

end

def Captures.unpacked (captures : Option Captures) : Bool := captures.any fun c => !c.fields.isEmpty

namespace Emit

variable {os : List Operand}

theorem loadCaptures_yields (envType : IrType) {env : Operand} (captures : List Field) (i : Nat)
    (known : Known os env) : Yields true os (loadCaptures envType env captures i) fun _ => [] := by
  induction captures generalizing i os with
  | nil => exact .pure (by simp)
  | cons capture rest ih =>
    refine (Yields.resolve _).bind fun ir => (Yields.slotAddress _ _ _ known).bind fun field => ?_
    refine (Yields.load _ (by simp)).bind fun value => ?_
    exact (Yields.declareLocal _ _ (by simp)).bind fun _ => ih (i + 1) (by simp [known])

theorem unpackOptional_yields (captures : Option Captures)
    (known : Captures.unpacked captures = true → .reg (.named environmentParam) ∈ os) :
    Yields true os (unpackOptional captures) fun _ => [] := by
  cases captures with
  | none => exact .pure (by simp)
  | some c =>
    change Yields true os (ite (c.fields.isEmpty = true) _ _) _
    split
    case isTrue => exact .pure (by simp)
    case isFalse filled =>
      have known := known (by simpa [Captures.unpacked] using filled)
      refine (Yields.emitValue _ (fun _ => ⟨rfl, rfl⟩) fun _ => ?_).bind fun env => ?_
      · exact allKnown_cons.mpr ⟨.inl known, allKnown_nil⟩
      · exact loadCaptures_yields _ _ _ (by simp)

theorem functionBody_acts {incoming : List Incoming} {captures : Option Captures} (body : List Stmt)
    (params : ∀ i ∈ incoming, .reg (.named i.register) ∈ os)
    (environment : Captures.unpacked captures = true → .reg (.named environmentParam) ∈ os) :
    Acts true os (functionBody incoming captures body) := by
  refine .bind (Yields.forM incoming fun i member => ?_) fun _ => ?_
  · exact .declareLocal _ _ (.inl (params i member))
  refine .bind (unpackOptional_yields captures environment) fun _ => ?_
  refine .andThen (.anywhere (.inScope (emitStmts_act body))) fun _ => ?_
  exact .bind .get fun f => .ite (.pure _) defaultReturn_acts

theorem functionBody_acts_incoming (incoming : List Incoming) (captures : Option Captures)
    (body : List Stmt) :
    Acts true (.reg (.named environmentParam) :: incoming.map fun i => .reg (.named i.register))
      (functionBody incoming captures body) := by
  refine functionBody_acts body (fun i member => List.mem_cons_of_mem _ ?_) fun _ => List.mem_cons_self
  exact List.mem_map_of_mem (f := fun i : Incoming => Operand.reg (.named i.register)) member

end Emit

end Backend
