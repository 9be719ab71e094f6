import Backend.Proofs.Lowering.Call

/-!
Whole bodies under a lawful pairing, by induction on the syntax. Main statement:
`Pairing.Lawful.emitFunction_pairs`, a function and the same function with its types replaced add
the same code to the output.
-/

namespace Backend

variable {incoming incoming' : List Incoming} {body : List Stmt} {captures : Option Captures}
  {value value' : Option Code} {sig : Signature}

namespace Pairing

variable {p : Pairing}

/-! ### Expressions -/

theorem unary_pairs (law : p.Lawful) {c c' : Code} (h : p.Codes c c') {i : ExprInfo}
    (allowed : p.allows i.ty = true) (op : UnaryOp) :
    p.Codes (.unary i op c) (.unary (i.mapType p.image) op c') := by
  cases op with
  | neg => exact ofValue_pairs allowed (negate_pairs h)
  | not => exact ofValue_pairs allowed (complement_pairs h)
  | addressOf => exact ofValue_pairs allowed (addressOf_pairs h)
  | deref => exact ⟨allowed, rfl, dereference_pairs law h allowed, pointeePlace_pairs h, pointeePlace_pairs h⟩

namespace Lawful

mutual

theorem code_pairs (law : p.Lawful) : (e : Expr) → e.all p.allows p.calls = true →
    p.Codes e.code (e.mapTypes p.image).code
  | .literal i l, h => by
    simp only [Expr.all] at h
    exact ofValue_pairs h (literal_pairs law h l)
  | .var i name, h => by
    simp only [Expr.all] at h
    exact var_pairs law h name
  | .binary i op lhs rhs, h => by
    simp only [Expr.all, Bool.and_eq_true] at h
    obtain ⟨⟨allowed, hl⟩, hr⟩ := h
    exact ofValue_pairs allowed
      (binary_pairs law (code_pairs law lhs hl) (code_pairs law rhs hr) op allowed)
  | .unary i op operand, h => by
    simp only [Expr.all, Bool.and_eq_true] at h
    exact unary_pairs law (code_pairs law operand h.2) h.1 op
  | .assign i target value, h => by
    simp only [Expr.all, Bool.and_eq_true] at h
    obtain ⟨⟨allowed, ht⟩, hv⟩ := h
    exact ofValue_pairs allowed (assign_pairs law (code_pairs law target ht) (code_pairs law value hv))
  | .call i callee typeArgs args, h => by
    simp only [Expr.all, Bool.and_eq_true] at h
    obtain ⟨⟨⟨allowed, callable⟩, types⟩, ha⟩ := h
    exact ofValue_pairs allowed (callName_pairs law (codes_pairs law args ha) callable types allowed)
  | .methodCall i receiver method typeArgs args, h => by
    simp only [Expr.all, Bool.and_eq_true] at h
    obtain ⟨⟨⟨allowed, hr⟩, types⟩, ha⟩ := h
    exact ofValue_pairs allowed
      (callMethod_pairs law (codes_pairs law args ha) (code_pairs law receiver hr) method types)
  | .staticCall i owner method typeArgs args, h => by
    simp only [Expr.all, Bool.and_eq_true] at h
    obtain ⟨⟨⟨allowed, ho⟩, types⟩, ha⟩ := h
    exact ofValue_pairs allowed (callStatic_pairs law (codes_pairs law args ha) ho method types)
  | .closureCall i callee args, h => by
    simp only [Expr.all, Bool.and_eq_true] at h
    obtain ⟨⟨allowed, hc⟩, ha⟩ := h
    refine ofValue_pairs allowed ((code_pairs law callee hc).value.andThen fun closure => ?_)
    exact callClosure_pairs law (codes_pairs law args ha) closure allowed
  | .functionRef i name typeArgs, h => by
    simp only [Expr.all, Bool.and_eq_true] at h
    exact ofValue_pairs h.1 (functionRef_pairs law name h.2)
  | .member i object field, h => by
    simp only [Expr.all, Bool.and_eq_true] at h
    exact ofPlace_pairs h.1 (memberPlace_pairs law (code_pairs law object h.2) field)
  | .index i object position, h => by
    simp only [Expr.all, Bool.and_eq_true] at h
    obtain ⟨⟨allowed, ho⟩, hp⟩ := h
    exact ofPlace_pairs allowed
      (indexPlace_pairs law (code_pairs law object ho) (code_pairs law position hp))
  | .tupleIndex i object position, h => by
    simp only [Expr.all, Bool.and_eq_true] at h
    exact ofPlace_pairs h.1 (tuplePlace_pairs law (code_pairs law object h.2) position)
  | .structLiteral i fields, h => by
    simp only [Expr.all, Bool.and_eq_true] at h
    exact ofValue_pairs h.1 (structLiteral_pairs law h.1 (inits_pairs law fields h.2))
  | .tupleLiteral i elems, h => by
    simp only [Expr.all, Bool.and_eq_true] at h
    exact ofValue_pairs h.1 (tupleLiteral_pairs (codes_pairs law elems h.2))
  | .arrayLiteral i elems, h => by
    simp only [Expr.all, Bool.and_eq_true] at h
    exact ofValue_pairs h.1 (arrayLiteral_pairs law (codes_pairs law elems h.2) h.1)
  | .enumVariant i variant args, h => by
    simp only [Expr.all, Bool.and_eq_true] at h
    exact ofValue_pairs h.1 (enumVariant_pairs law (codes_pairs law args h.2) h.1 variant)
  | .matchOn i scrutinee arms, h => by
    simp only [Expr.all, Bool.and_eq_true] at h
    obtain ⟨⟨allowed, hs⟩, ha⟩ := h
    exact ofValue_pairs allowed
      (matchOn_pairs law (code_pairs law scrutinee hs) (arms_pairs law arms ha) allowed)
  | .lambda i params body captures, h => by
    simp only [Expr.all, Bool.and_eq_true] at h
    obtain ⟨⟨⟨allowed, hp⟩, hb⟩, hc⟩ := h
    exact ofValue_pairs allowed (lambdaValue_pairs law allowed hp hb hc)
  | .ternary i condition thenValue elseValue, h => by
    simp only [Expr.all, Bool.and_eq_true] at h
    obtain ⟨⟨⟨allowed, hc⟩, ht⟩, he⟩ := h
    exact ofValue_pairs allowed (ternary_pairs law (code_pairs law condition hc)
      (code_pairs law thenValue ht) (code_pairs law elseValue he) allowed)
  | .cast i value, h => by
    simp only [Expr.all, Bool.and_eq_true] at h
    exact ofValue_pairs h.1 (cast_pairs law (code_pairs law value h.2) h.1)
  | .sizeof i ty, h => by
    simp only [Expr.all, Bool.and_eq_true] at h
    exact ofValue_pairs h.1 (sizeof_pairs law h.2)

theorem codes_pairs (law : p.Lawful) : (es : List Expr) → allExprs p.allows p.calls es = true →
    List.Forall₂ p.Codes (exprCodes es) (exprCodes (mapExprs p.image es))
  | [], _ => .nil
  | e :: rest, h => by
    simp only [allExprs, Bool.and_eq_true] at h
    exact .cons (code_pairs law e h.1) (codes_pairs law rest h.2)

theorem inits_pairs (law : p.Lawful) : (fields : List FieldInit) →
    allInits p.allows p.calls fields = true →
    p.Inits (fieldCodes fields) (fieldCodes (mapInits p.image fields))
  | [], _ => .nil
  | .mk name value :: rest, h => by
    simp only [allInits, Bool.and_eq_true] at h
    exact .cons ⟨rfl, code_pairs law value h.1⟩ (inits_pairs law rest h.2)

theorem arms_pairs (law : p.Lawful) : (arms : List MatchArm) →
    allArms p.allows p.calls arms = true →
    List.Forall₂ p.Arms (armCodes arms) (armCodes (mapArms p.image arms))
  | [], _ => .nil
  | .mk variant bindings body :: rest, h => by
    simp only [allArms, Bool.and_eq_true] at h
    exact .cons ⟨rfl, rfl, code_pairs law body h.1⟩ (arms_pairs law rest h.2)

end

end Lawful

/-! ### Statements -/

theorem defaultReturn_same : p.Same Emit.defaultReturn :=
  .reading fun _ _ _ => .ite (terminate_same _) (.ite (terminate_same _) (terminate_same _))

section

variable (law : p.Lawful)

abbrev Values (p : Pairing) : Option Code → Option Code → Prop := Option.Rel p.Codes

include law in
theorem letVar_pairs (name : String) {ty : TypeRef} (allowed : p.allows ty = true)
    (h : p.Values value value') :
    p.OnBody Eq (Emit.letVar name ty value) (Emit.letVar name (p.image ty) value') := by
  refine (law.resolve_pairs allowed).andThen fun ir => (alloca_same ir).andThen fun slot => ?_
  have init : p.OnBody Eq (Emit.initialValue ir value) (Emit.initialValue ir value') := by
    cases h with
    | none => exact .pure rfl
    | some codes => exact codes.coerced law ir
  exact init.andThen fun _ => (store_same _ _).andThen fun _ =>
    bindLocal_pairs name ⟨rfl, rfl, law.reads allowed ir⟩

include law in
theorem ret_pairs (h : p.Values value value') : p.OnBody Eq (Emit.ret value) (Emit.ret value') := by
  refine .reading fun _ _ _ => ?_
  cases h with
  | none => exact defaultReturn_same
  | some codes =>
    exact .ite (codes.value.discard.andThen fun _ => defaultReturn_same)
      ((codes.coerced law _).andThen fun _ => terminate_same _)

end

section

variable {c c' : Code} (codes : p.Codes c c') {body body' : Emit Unit} (h : p.OnBody Eq body body')

include h in
theorem inBlock_pairs (label next : Label) :
    p.OnBody Eq (Emit.inBlock label next body) (Emit.inBlock label next body') :=
  (startBlock_same _).andThen fun _ => h.andThen fun _ => jumpTo_same _

abbrev OptionalBlocks (p : Pairing) : Option (Emit Unit) → Option (Emit Unit) → Prop :=
  Option.Rel (p.OnBody Eq)

include codes h in
theorem ifElse_pairs {other other' : Option (Emit Unit)} (ho : p.OptionalBlocks other other') :
    p.OnBody Eq (Emit.ifElse c body other) (Emit.ifElse c' body' other') := by
  refine codes.condition.andThen fun test => (freshLabel_same _).andThen fun thenLabel => ?_
  refine (freshLabel_same _).andThen fun endLabel => ?_
  cases ho with
  | none =>
    exact (terminate_same _).andThen fun _ => (inBlock_pairs h _ _).andThen fun _ => startBlock_same _
  | some elseBlock =>
    refine (freshLabel_same _).andThen fun elseLabel => (terminate_same _).andThen fun _ => ?_
    exact (inBlock_pairs h _ _).andThen fun _ => (inBlock_pairs elseBlock _ _).andThen fun _ =>
      startBlock_same _

include h in
theorem inLoop_pairs (labels : LoopLabels) :
    p.OnBody Eq (Emit.inLoop labels body) (Emit.inLoop labels body') :=
  .reading fun _ _ _ => OnBody.andThen (.modify (fun _ _ _ => rfl) fun _ => rfl) fun _ =>
    h.andThen fun _ => .modify (fun _ _ _ => rfl) fun _ => rfl

include codes h in
theorem whileLoop_pairs : p.OnBody Eq (Emit.whileLoop c body) (Emit.whileLoop c' body') := by
  refine (freshLabel_same _).andThen fun conditionLabel => (freshLabel_same _).andThen fun bodyLabel => ?_
  refine (freshLabel_same _).andThen fun endLabel => (startBlock_same _).andThen fun _ => ?_
  refine codes.condition.andThen fun test => (terminate_same _).andThen fun _ => ?_
  exact (inBlock_pairs (inLoop_pairs h _) _ _).andThen fun _ => startBlock_same _

theorem loopJump_same (keyword : String) (target : LoopLabels → Label) :
    p.Same (Emit.loopJump keyword target) :=
  .reading fun _ _ _ => by
    dsimp only
    split
    · exact terminate_same _
    · exact .fail

abbrev Cases (p : Pairing) : List (Int × Emit Unit) → List (Int × Emit Unit) → Prop :=
  List.Forall₂ fun case case' => case'.1 = case.1 ∧ p.OnBody Eq case.2 case'.2

abbrev Labelled (p : Pairing) :
    List (Int × Label × Emit Unit) → List (Int × Label × Emit Unit) → Prop :=
  List.Forall₂ fun case case' =>
    case'.1 = case.1 ∧ case'.2.1 = case.2.1 ∧ p.OnBody Eq case.2.2 case'.2.2

theorem labelCases_pairs {cases cases' : List (Int × Emit Unit)} (hc : p.Cases cases cases') :
    p.OnBody p.Labelled (Emit.labelCases cases) (Emit.labelCases cases') := by
  induction hc with
  | nil => exact .pure .nil
  | cons head _ ih =>
    exact (freshLabel_same _).andThen fun _ => ih.bind fun _ _ tail =>
      .pure (.cons ⟨head.1, rfl, head.2⟩ tail)

theorem caseLabels_eq {labelled labelled' : List (Int × Label × Emit Unit)}
    (hl : p.Labelled labelled labelled') :
    (labelled'.map fun case => (case.1, case.2.1)) = labelled.map fun case => (case.1, case.2.1) := by
  induction hl with
  | nil => rfl
  | cons head _ ih => rw [List.map_cons, List.map_cons, ih, head.1, head.2.1]

theorem switchCases_pairs (v : Value) (endLabel defaultLabel : Label)
    {cases cases' : List (Int × Emit Unit)} (hc : p.Cases cases cases') :
    p.OnBody Eq (Emit.switchCases v endLabel defaultLabel cases)
      (Emit.switchCases v endLabel defaultLabel cases') := by
  refine (labelCases_pairs hc).bind fun labelled labelled' hl => ?_
  have labels := caseLabels_eq hl
  dsimp only at labels ⊢
  rw [labels]
  refine (terminate_same _).andThen fun _ => .forM (hl.imp ?_)
  rintro ⟨n, label, body⟩ ⟨n', label', body'⟩ ⟨-, same, related⟩
  obtain rfl : label' = label := same
  exact inBlock_pairs related _ _

theorem switchOn_pairs (v : Value) {cases cases' : List (Int × Emit Unit)}
    (hc : p.Cases cases cases') {default default' : Option (Emit Unit)}
    (hd : p.OptionalBlocks default default') :
    p.OnBody Eq (Emit.switchOn v cases default) (Emit.switchOn v cases' default') := by
  refine (freshLabel_same _).andThen fun endLabel => ?_
  cases hd with
  | none => exact (switchCases_pairs v _ _ hc).andThen fun _ => startBlock_same _
  | some body =>
    refine (freshLabel_same _).andThen fun defaultLabel => ?_
    exact (switchCases_pairs v _ _ hc).andThen fun _ => (inBlock_pairs body _ _).andThen fun _ =>
      startBlock_same _

include codes in
theorem switch_pairs {cases cases' : List (Int × Emit Unit)} (hc : p.Cases cases cases')
    {default default' : Option (Emit Unit)} (hd : p.OptionalBlocks default default') :
    p.OnBody Eq (Emit.switch c cases default) (Emit.switch c' cases' default') :=
  codes.value.andThen fun v => .ite (switchOn_pairs v hc hd) .fail

end

namespace Lawful

variable (law : p.Lawful)

include law in
theorem setLocation_same (location : Location) : p.Same (Emit.setLocation location) := by
  refine .reading fun f _ _ => OnBody.andThen ?_ fun id => .modify (fun _ _ _ => rfl) fun _ => rfl
  dsimp only
  cases f.scope with
  | none => exact .pure rfl
  | some scope => exact lift_same (law.describeLocation location scope)

include law in
theorem placed_pairs (location : Location) {x y : Emit Unit} (h : p.OnBody Eq x y) :
    p.OnBody Eq (Emit.placed location x) (Emit.placed location y) :=
  (law.setLocation_same location).andThen fun _ => locating_pairs location h

omit law

theorem value_pairs (law : p.Lawful) {value : Option Expr}
    (h : allValue p.allows p.calls value = true) :
    p.Values (value.map Expr.code) ((mapValue p.image value).map Expr.code) := by
  cases value with
  | none => exact .none
  | some e => exact .some (law.code_pairs e h)

mutual

theorem stmt_pairs (law : p.Lawful) : (s : Stmt) → s.all p.allows p.calls = true →
    p.OnBody Eq s.emit (s.mapTypes p.image).emit
  | .letVar name ty value l, h => by
    simp only [Stmt.all, Bool.and_eq_true] at h
    exact law.placed_pairs l (letVar_pairs law name h.1 (law.value_pairs h.2))
  | .expr e, h => by
    simp only [Stmt.all] at h
    simp only [Stmt.mapTypes, Stmt.emit, Expr.location_mapTypes]
    exact law.placed_pairs _ (law.code_pairs e h).value.discard
  | .ret value l, h => by
    simp only [Stmt.all] at h
    exact law.placed_pairs l (ret_pairs law (law.value_pairs h))
  | .ifElse condition thenBlock elseBlock l, h => by
    simp only [Stmt.all, Bool.and_eq_true] at h
    obtain ⟨⟨hc, ht⟩, he⟩ := h
    exact law.placed_pairs l (ifElse_pairs (law.code_pairs condition hc)
      (inScope_pairs (stmts_pairs law thenBlock ht)) (optional_pairs law elseBlock he))
  | .whileLoop condition body l, h => by
    simp only [Stmt.all, Bool.and_eq_true] at h
    exact law.placed_pairs l (whileLoop_pairs (law.code_pairs condition h.1)
      (inScope_pairs (stmts_pairs law body h.2)))
  | .breakLoop l, _ => law.placed_pairs l (loopJump_same _ _)
  | .continueLoop l, _ => law.placed_pairs l (loopJump_same _ _)
  | .switch scrutinee cases default l, h => by
    simp only [Stmt.all, Bool.and_eq_true] at h
    obtain ⟨⟨hs, hc⟩, hd⟩ := h
    exact law.placed_pairs l (switch_pairs (law.code_pairs scrutinee hs)
      (cases_pairs law cases hc) (optional_pairs law default hd))
  | .block body, h => by
    simp only [Stmt.all] at h
    exact inScope_pairs (stmts_pairs law body h)

theorem stmts_pairs (law : p.Lawful) : (body : List Stmt) → allStmts p.allows p.calls body = true →
    p.OnBody Eq (emitStmts body) (emitStmts (mapStmts p.image body))
  | [], _ => .pure rfl
  | s :: rest, h => by
    simp only [allStmts, Bool.and_eq_true] at h
    exact (stmt_pairs law s h.1).andThen fun _ => stmts_pairs law rest h.2

theorem optional_pairs (law : p.Lawful) : (block : Option (List Stmt)) →
    allBlock p.allows p.calls block = true →
    p.OptionalBlocks (emitOptional block) (emitOptional (mapBlock p.image block))
  | none, _ => .none
  | some body, h => by
    simp only [allBlock] at h
    exact .some (inScope_pairs (stmts_pairs law body h))

theorem cases_pairs (law : p.Lawful) : (cases : List SwitchCase) →
    allCases p.allows p.calls cases = true →
    p.Cases (emitCases cases) (emitCases (mapCases p.image cases))
  | [], _ => .nil
  | .mk value body :: rest, h => by
    simp only [allCases, Bool.and_eq_true] at h
    exact .cons ⟨rfl, inScope_pairs (stmts_pairs law body h.1)⟩ (cases_pairs law rest h.2)

end

end Lawful

/-! ### Functions -/

/-- What comes in, on both sides. -/
structure Incomings (p : Pairing) (a a' : Incoming) : Prop where
  register : a'.register = a.register
  name : a'.name = a.name
  ir : a'.ir = a.ir
  reads : p.Reads a.ir a.ty a'.ty

namespace Lawful

variable (law : p.Lawful)

include law in
theorem receiverParam_pairs (receiver : Option String) :
    p.OnBody (List.Forall₂ p.Incomings) (Emit.receiverParam receiver)
      (Emit.receiverParam receiver) := by
  cases receiver with
  | none => exact .pure .nil
  | some owner =>
    refine (lift_same (law.ownerType_pairs owner)).andThen fun ty => .pure (.cons ?_ .nil)
    exact ⟨rfl, rfl, rfl, law.receiver owner ty⟩

include law in
theorem incomingParams_pairs {params : List Field} (h : Field.allTypes p.allows params = true) :
    p.OnBody (List.Forall₂ p.Incomings) (Emit.incomingParams params)
      (Emit.incomingParams (params.map (Field.mapType p.image))) := by
  refine .mapM ?_
  refine List.forall₂_map_right_iff.mpr (List.forall₂_same.mpr fun f member => ?_)
  have allowed := List.all_eq_true.mp h f member
  exact (law.resolve_pairs allowed).andThen fun ir => .pure ⟨rfl, rfl, rfl, law.reads allowed ir⟩

include law in
theorem loadCaptures_pairs (envType : IrType) (env : Operand) {fields : List Field}
    (h : Field.allTypes p.allows fields = true) (i : Nat) :
    p.OnBody Eq (Emit.loadCaptures envType env fields i)
      (Emit.loadCaptures envType env (fields.map (Field.mapType p.image)) i) := by
  induction fields generalizing i with
  | nil => exact .pure rfl
  | cons capture rest ih =>
    simp only [Field.allTypes, List.all_cons, Bool.and_eq_true] at h
    refine (law.resolve_pairs h.1).andThen fun ir => (slotAddress_same _ _ _ _).andThen fun _ => ?_
    refine (load_typed _ _).bind fun v _ ⟨same, typed⟩ => ?_
    rw [same]
    exact (declareLocal_pairs capture.name (law.reads h.1 v.ty)).andThen fun _ => ih h.2 (i + 1)

include law in
theorem unpackOptional_pairs (h : captures.all (fun c => Field.allTypes p.allows c.fields) = true) :
    p.OnBody Eq (Emit.unpackOptional captures)
      (Emit.unpackOptional (captures.map fun c =>
        { c with fields := c.fields.map (Field.mapType p.image) })) := by
  cases captures with
  | none => exact .pure rfl
  | some c =>
    unfold Emit.unpackOptional Emit.unpackCaptures
    simp only [Option.map_some, List.isEmpty_map]
    exact .ite (.pure rfl) ((emitValue_same _ _).andThen fun _ => law.loadCaptures_pairs _ _ h 0)

include law in
theorem functionBody_pairs (hi : List.Forall₂ p.Incomings incoming incoming')
    (hc : captures.all (fun c => Field.allTypes p.allows c.fields) = true)
    (hb : allStmts p.allows p.calls body = true) :
    p.OnBody Eq (Emit.functionBody incoming captures body)
      (Emit.functionBody incoming' (captures.map fun c =>
        { c with fields := c.fields.map (Field.mapType p.image) }) (mapStmts p.image body)) := by
  refine (OnBody.forM (hi.imp fun a a' related => ?_)).andThen fun _ => ?_
  · rw [related.register, related.name, related.ir]
    exact declareLocal_pairs _ related.reads
  · refine (law.unpackOptional_pairs hc).andThen fun _ => ?_
    refine (inScope_pairs (law.stmts_pairs body hb)).andThen fun _ => .reading fun _ _ _ => ?_
    exact .ite (.pure rfl) defaultReturn_same

theorem params_eq (h : List.Forall₂ p.Incomings incoming incoming') :
    (incoming'.map fun a => (a.ir, a.register)) = incoming.map fun a => (a.ir, a.register) := by
  induction h with
  | nil => rfl
  | cons head _ ih => rw [List.map_cons, List.map_cons, ih, head.ir, head.register]

include law in
theorem functionDef_pairs (hs : sig.all p.allows = true)
    (hb : allStmts p.allows p.calls body = true) : p.OnBody Eq (Emit.functionDef sig body)
      (Emit.functionDef (sig.mapTypes p.image) (mapStmts p.image body)) := by
  simp only [Signature.all, Bool.and_eq_true] at hs
  obtain ⟨⟨params, result⟩, captures⟩ := hs
  refine .reading fun f locals frames => OnBody.andThen ?_ fun returnType => ?_
  · exact .ite (.pure rfl) (law.resolve_pairs result)
  · refine (law.receiverParam_pairs sig.receiver).bind fun receiver receiver' first => ?_
    refine (law.incomingParams_pairs params).bind fun rest rest' later => ?_
    refine (lift_same (law.describeFunction _ _ _)).andThen fun scope => ?_
    refine OnBody.andThen (.modify (fun _ _ _ => rfl) fun _ => rfl) fun _ => ?_
    have incoming := List.rel_append first later
    refine (law.functionBody_pairs incoming captures hb).andThen fun _ => .reading fun _ _ _ => .pure ?_
    simp only [Signature.mapTypes]
    rw [← params_eq incoming]
    rfl

include law in
theorem emitFunction_pairs (adds : p.AddsFunction) (symbol : sig.symbol = p.symbol)
    (hs : sig.all p.allows = true) (hb : allStmts p.allows p.calls body = true) :
    p.Answers (Gen.emitFunction sig body p.left)
      (Gen.emitFunction (sig.mapTypes p.image) (mapStmts p.image body) p.right) := by
  have start : p.Frames { symbol := sig.symbol, subst := p.left }
      { symbol := sig.symbol, subst := p.right } := ⟨rfl, symbol, rfl, .nil⟩
  refine (law.functionDef_pairs hs hb start).bind ?_
  rintro ⟨f, _⟩ ⟨f', _⟩ ⟨same, -⟩
  obtain rfl : f = f' := same
  dsimp only [Signature.mapTypes]
  rw [symbol]
  exact adds f

end Lawful

end Pairing

end Backend
