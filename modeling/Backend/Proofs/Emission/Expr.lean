import Backend.Proofs.Emission.Rules

/-!
Expressions are put together by the rules. Each lowering reads only what its parts yield, so the
code of every expression yields its result wherever it stands.
-/

namespace Backend

variable {base pointer : Operand} {what : String} {ty : TypeRef}
  {current l r subject v view : Value}

/-- All code of an expression yields its result. -/
structure Code.Yields (c : Code) : Prop where
  value : ∀ {b : Bool}, Emit.Yields b [] c.value fun v => [v.operand]
  lvalue : ∀ {b : Bool}, Emit.Yields b [] c.lvalue fun p => [p.address]
  place : ∀ {b : Bool}, Emit.Yields b [] c.place fun p => [p.address]

variable {b : Bool}

namespace Emit

variable {os : List Operand}

/-! ### Conversions and places -/

theorem convert_yields (target : IrType) (sourceUnsigned targetUnsigned : Bool)
    (known : Known os v.operand) :
    Yields b os (convert v target sourceUnsigned targetUnsigned) fun v => [v.operand] := by
  unfold convert
  refine .ite (.pure (by simpa using known)) ?_
  split
  · exact .emitValue _ (fun _ => ⟨rfl, rfl⟩) fun _ => by
      simpa [Instr.reads, Instr.operands] using known
  · exact .fail _

theorem coerce_yields (source : TypeRef) (target : IrType) (known : Known os v.operand) :
    Yields b os (coerce v source target) fun v => [v.operand] := by
  unfold coerce
  refine .ite (.pure (by simpa using known)) ?_
  split
  · exact .pure (by simp)
  · exact .pure (by simp)
  · exact (Yields.concrete source).bind fun _ => convert_yields _ _ _ known

theorem truth_yields (known : Known os v.operand) : Yields b os (truth v) fun o => [o] := by
  have compared : Yields b os (emitValue .i1 fun dst => .compare dst .ne v v.ty.zero)
      fun v => [v.operand] :=
    .emitValue _ (fun _ => ⟨rfl, rfl⟩) fun _ => by simpa [Instr.reads, Instr.operands] using known
  unfold truth
  split
  · exact .pure (by simpa using known)
  · exact compared.bind fun _ => .pure (by simp)
  · exact compared.bind fun _ => .pure (by simp)
  · exact .fail _

end Emit

open Emit

theorem unaddressable_yields (what : String) (ty : TypeRef) {os : List Operand}
    {R : Place → List Operand} : Yields b os (unaddressable what ty) R :=
  .fail _

theorem materialize_yields {value : Emit Value} (h : Yields b [] value fun v => [v.operand]) :
    Yields b [] (materialize what ty value) fun p => [p.address] := by
  refine h.bind fun v => .ite (unaddressable_yields what ty) ?_
  refine (Yields.alloca v.ty).bind fun slot => (Yields.store (by simp) (by simp)).bind fun _ => ?_
  exact .pure (by simp)

namespace Code

theorem ofValue_yields {value : Emit Value}
    (h : ∀ {b : Bool}, Emit.Yields b [] value fun v => [v.operand]) :
    (ofValue what ty value).Yields where
  value := h
  lvalue := unaddressable_yields what ty
  place := materialize_yields h

theorem ofPlace_yields {place : Emit Place}
    (h : ∀ {b : Bool}, Emit.Yields b [] place fun p => [p.address]) :
    (ofPlace ty place).Yields where
  value := h.bind fun _ => .load _ (by simp)
  lvalue := h
  place := h

namespace Yields

variable {c : Code} (h : c.Yields)

include h

theorem condition : Emit.Yields b [] c.condition fun o => [o] :=
  h.value.bind fun _ => truth_yields (by simp)

theorem coerced (target : IrType) : Emit.Yields b [] (c.coerced target) fun v => [v.operand] :=
  h.value.bind fun _ => coerce_yields _ _ (by simp)

theorem aggregate : Emit.Yields b [] c.aggregate fun p => [p.address] := by
  refine (Emit.Yields.resolve c.ty).bind fun ty => ?_
  split
  · exact .ite (h.value.bind fun _ => .pure (by simp)) h.place
  · exact h.place

end Yields

end Code

namespace Emit

variable {os : List Operand}

/-! ### Operators -/

theorem literal_yields (ty : TypeRef) (l : Literal) :
    Yields b [] (literal ty l) fun v => [v.operand] := by
  cases l with
  | int n => exact (Yields.resolve ty).bind fun ir => by split <;> exact .pure (by simp)
  | float x => exact (Yields.resolve ty).bind fun ir => by split <;> exact .pure (by simp)
  | bool b => exact .pure (by simp)
  | string s => exact (Yields.internString s).bind fun _ => .pure (by simp)
  | null => exact (Yields.resolve ty).bind fun ir => by split <;> exact .pure (by simp)

theorem compareLiveness_yields (op : BinaryOp) (name : String) (known : Known os subject.operand) :
    Yields b os (compareLiveness op name subject) fun v => [v.operand] := by
  refine (Yields.ask (.structLayout name)).bind fun layout => ?_
  refine (Yields.emitValue _ (fun _ => ⟨rfl, rfl⟩) fun _ => ?_).bind fun bit => ?_
  · simpa [Instr.reads, Instr.operands] using known
  · exact .emitValue _ (fun _ => ⟨rfl, rfl⟩) fun _ => by simp [Instr.reads, Instr.operands]

theorem compareValues_yields (op : BinaryOp) (unsigned : Bool) {lhs rhs : Value}
    (left : Known os lhs.operand) (right : Known os rhs.operand) :
    Yields b os (compareValues op unsigned lhs rhs) fun v => [v.operand] := by
  unfold compareValues
  split
  · exact .emitValue _ (fun _ => ⟨rfl, rfl⟩) fun _ => by
      simp [Instr.reads, Instr.operands, left, right]
  · exact .fail _

theorem arithOp_yields (op : BinaryOp) (unsigned : Bool) (ty : IrType) :
    Yields b os (arithOp op unsigned ty) fun _ => [] :=
  .ite (.orFail _ _) (.ite (.orFail _ _) (.fail _))

theorem operate_yields (op : BinaryOp) (lhsType rhsType ty : TypeRef) (left : Known os l.operand)
    (right : Known os r.operand) :
    Yields b os (operate op l r lhsType rhsType ty) fun v => [v.operand] := by
  refine (coerce_yields _ _ right).bind fun r' => (Yields.concrete _).bind fun source => .ite ?_ ?_
  · exact compareValues_yields _ _ (by simp [left]) (by simp)
  · refine (arithOp_yields _ _ _).bind fun instr => ?_
    refine (Yields.emitValue _ (fun _ => ⟨rfl, rfl⟩) fun _ => ?_).bind fun result => ?_
    · simp [Instr.reads, Instr.operands, left]
    · exact (Yields.resolve ty).bind fun target => coerce_yields _ _ (by simp)

theorem livenessSubject?_known {name : String} (h : livenessSubject? l r = some (name, subject))
    (left : Known os l.operand) (right : Known os r.operand) : Known os subject.operand := by
  unfold livenessSubject? at h
  split at h
  · cases h
    exact left
  · cases h
    exact right
  · cases h

variable {lhs rhs : Code}

theorem strict_yields (hl : lhs.Yields) (hr : rhs.Yields) (op : BinaryOp) (ty : TypeRef) :
    Yields b [] (strict op lhs rhs ty) fun v => [v.operand] := by
  refine hl.value.bind fun l => hr.value.anywhere.bind fun r => ?_
  split
  case h_1 found =>
    exact compareLiveness_yields _ _ (livenessSubject?_known found (by simp) (by simp))
  case h_2 found =>
    exact compareLiveness_yields _ _ (livenessSubject?_known found (by simp) (by simp))
  case h_3 => exact operate_yields _ _ _ _ (by simp) (by simp)

theorem binary_yields (hl : lhs.Yields) (hr : rhs.Yields) (op : BinaryOp) (ty : TypeRef) :
    Yields b [] (binary op lhs rhs ty) fun v => [v.operand] := by
  unfold binary
  split
  · exact .and hl.condition hr.condition
  · exact .or hl.condition hr.condition
  · exact strict_yields hl hr _ _

theorem negate_yields (h : lhs.Yields) : Yields b [] (negate lhs) fun v => [v.operand] := by
  refine h.value.bind fun v => .emitValue _ (fun _ => ?_) fun _ => ?_
  · split <;> exact ⟨rfl, rfl⟩
  · split <;> simp [Instr.reads, Instr.operands]

theorem complement_yields (h : lhs.Yields) : Yields b [] (complement lhs) fun v => [v.operand] :=
  h.value.bind fun v => .emitValue _ (fun _ => ⟨rfl, rfl⟩) fun _ => by
    split <;> simp [Instr.reads, Instr.operands]

theorem addressOf_yields (h : lhs.Yields) : Yields b [] (addressOf lhs) fun v => [v.operand] :=
  h.lvalue.bind fun _ => .pure (by simp)

theorem pointeeType_yields (pointer : Value) (ty : TypeRef) :
    Yields b os (pointeeType pointer ty) fun _ => [] := by
  unfold pointeeType
  split
  · exact .pure (by simp)
  · exact .resolve ty

theorem dereference_yields (h : lhs.Yields) (ty : TypeRef) :
    Yields b [] (dereference lhs ty) fun v => [v.operand] :=
  h.value.bind fun _ => (pointeeType_yields _ ty).bind fun _ => .load _ (by simp)

theorem pointeePlace_yields (h : lhs.Yields) :
    Yields b [] (pointeePlace lhs) fun p => [p.address] := by
  refine h.value.bind fun pointer => ?_
  split
  · exact .pure (by simp)
  · exact .fail _

theorem assign_yields (hl : lhs.Yields) (hr : rhs.Yields) :
    Yields b [] (assign lhs rhs) fun v => [v.operand] := by
  refine hl.lvalue.bind fun p => hr.value.anywhere.bind fun v => ?_
  refine (coerce_yields _ _ (by simp)).bind fun v => ?_
  exact (Yields.store (by simp) (by simp)).bind fun _ => .pure (by simp)

theorem cast_yields (h : lhs.Yields) (ty : TypeRef) :
    Yields b [] (cast lhs ty) fun v => [v.operand] :=
  (Yields.concrete _).bind fun _ => (Yields.concrete _).bind fun _ => (Yields.resolve ty).bind fun _ =>
    h.value.bind fun _ => convert_yields _ _ _ (by simp)

theorem sizeof_yields (ty : TypeRef) : Yields b [] (sizeof ty) fun v => [v.operand] :=
  (Yields.resolve ty).bind fun _ => (Yields.ask (.sizeOf _)).bind fun _ => .pure (by simp)

/-! ### Aggregates -/

theorem memberPlace_yields (h : lhs.Yields) (field : String) :
    Yields b [] (memberPlace lhs field) fun p => [p.address] := by
  refine h.aggregate.bind fun base => ?_
  split
  · refine (Yields.ask (.structLayout _)).bind fun _ => (Yields.orFail _ _).bind fun _ => ?_
    refine (Yields.orFail _ _).bind fun _ => (Yields.slotAddress _ _ _ (by simp)).bind fun _ => ?_
    exact .pure (by simp)
  · exact .fail _

theorem tuplePlace_yields (h : lhs.Yields) (position : Nat) :
    Yields b [] (tuplePlace lhs position) fun p => [p.address] := by
  refine h.aggregate.bind fun base => ?_
  split
  · refine (Yields.orFail _ _).bind fun _ => (Yields.slotAddress _ _ _ (by simp)).bind fun _ => ?_
    exact .pure (by simp)
  · exact .fail _

theorem indexBase_ofArray_yields (h : lhs.Yields) : Yields b [] (indexBase.ofArray lhs)
    fun found => found.1.address :: found.2.2.map Value.operand := by
  refine h.aggregate.bind fun base => ?_
  split
  · exact .pure (by simp)
  · exact .fail _

theorem indexBase_yields (h : lhs.Yields) : Yields b [] (indexBase lhs)
    fun found => found.1.address :: found.2.2.map Value.operand := by
  refine (Yields.resolve _).bind fun ty => ?_
  split
  · exact indexBase_ofArray_yields h
  · exact h.value.bind fun _ => .pure (by simp)
  · exact indexBase_ofArray_yields h

theorem indexPlace_yields (hl : lhs.Yields) (hr : rhs.Yields) :
    Yields b [] (indexPlace lhs rhs) fun p => [p.address] := by
  refine (indexBase_yields hl).bind fun base => (hr.coerced _).anywhere.bind fun i => ?_
  refine (Yields.emitValue _ (fun _ => ⟨rfl, rfl⟩) fun _ => ?_).bind fun _ => .pure (by simp)
  intro o member
  simp only [Instr.reads, Instr.operands, List.map_append, List.map_cons, List.map_nil, List.mem_cons,
    List.mem_append, List.not_mem_nil, or_false] at member
  simp only [known_append, List.mem_cons, List.not_mem_nil, or_false]
  exact member.elim (fun h => .inr (.inl (.inl h))) fun h =>
    h.elim (fun h => .inr (.inl (.inr h))) .inl

theorem insertField_yields {value : Code} (h : value.Yields) (name : String)
    (layout : StructLayout) (field : String) (known : Known os current.operand) :
    Yields b os (insertField name layout field value current) fun v => [v.operand] :=
  .ite (.fail _) <| (Yields.orFail _ _).bind fun _ => (Yields.orFail _ _).bind fun ty =>
    (h.coerced ty).anywhere.bind fun _ => .insertAt _ (by simp [known]) (by simp)

theorem insertFields_yields (name : String) (layout : StructLayout)
    (fields : List (String × Code)) (h : ∀ field ∈ fields, field.2.Yields)
    (known : Known os current.operand) :
    Yields b os (insertFields name layout fields current) fun v => [v.operand] := by
  induction fields generalizing current os with
  | nil => exact .pure (by simpa using known)
  | cons field rest ih =>
    refine (insertField_yields (h field List.mem_cons_self) _ _ _ known).bind fun next => ?_
    exact ih (fun field member => h field (List.mem_cons_of_mem _ member)) (by simp)

theorem blankStruct_yields (name : String) (layout : StructLayout) :
    Yields b os (blankStruct name layout) fun v => [v.operand] := by
  unfold blankStruct
  split
  · exact (Yields.ask (.dispatchLayout _)).bind fun _ => .insertAt _ (by simp) (by simp)
  · exact .pure (by simp)

theorem structLiteral_yields (ty : TypeRef) {fields : List (String × Code)}
    (h : ∀ field ∈ fields, field.2.Yields) :
    Yields b [] (structLiteral ty fields) fun v => [v.operand] := by
  refine (Yields.resolve ty).bind fun ir => ?_
  split
  · refine (Yields.ask (.structLayout _)).bind fun layout => ?_
    refine (blankStruct_yields _ layout).bind fun start => ?_
    refine (insertFields_yields _ layout fields h (by simp)).bind fun _ => ?_
    exact .insertAt _ (by simp) (by simp)
  · exact .fail _

theorem insertAll_yields (values : List Value) (i : Nat) (known : Known os current.operand)
    (all : AllKnown os (values.map Value.operand)) :
    Yields b os (insertAll values i current) fun v => [v.operand] := by
  induction values generalizing i current os with
  | nil => exact .pure (by simpa using known)
  | cons v rest ih =>
    obtain ⟨first, others⟩ := allKnown_cons.mp all
    exact (Yields.insertAt _ known first).bind fun next => ih (i + 1) (by simp) (others.later _)

theorem tupleLiteral_yields {elems : List Code} (h : ∀ c ∈ elems, c.Yields) :
    Yields b [] (tupleLiteral elems) fun v => [v.operand] := by
  refine (Yields.mapM elems fun c member => (h c member).value).bind fun values => ?_
  refine insertAll_yields _ _ ?_ fun o member => known_append.mpr (.inl ?_)
  · split <;> simp
  · rwa [List.map_eq_flatMap] at member

theorem insertElems_yields (elemType : IrType) (elems : List Code) (h : ∀ c ∈ elems, c.Yields)
    (i : Nat) (known : Known os current.operand) :
    Yields b os (insertElems elemType elems i current) fun v => [v.operand] := by
  induction elems generalizing i current os with
  | nil => exact .pure (by simpa using known)
  | cons c rest ih =>
    refine ((h c List.mem_cons_self).coerced elemType).anywhere.bind fun v => ?_
    refine (Yields.insertAt _ (by simp [known]) (by simp)).bind fun next => ?_
    exact ih (fun c member => h c (List.mem_cons_of_mem _ member)) (i + 1) (by simp)

theorem arrayLiteral_yields (ty : TypeRef) {elems : List Code} (h : ∀ c ∈ elems, c.Yields) :
    Yields b [] (arrayLiteral ty elems) fun v => [v.operand] := by
  refine (Yields.resolve ty).bind fun target => ?_
  dsimp only
  split
  · exact .ite (.fail _) (insertElems_yields _ elems h _ (by split <;> simp))
  · exact .fail _

/-! ### Enum values and matches -/

theorem payloadView_yields (layout : EnumLayout) (v : VariantLayout) (known : Known os base) :
    Yields b os (payloadView layout base v) fun view => [view.operand] :=
  (Yields.slotAddress _ _ _ known).bind fun _ =>
    .emitValue _ (fun _ => ⟨rfl, rfl⟩) fun _ => by simp [Instr.reads, Instr.operands]

theorem storePayload_yields (v : VariantLayout) (args : List (Code × IrType))
    (h : ∀ arg ∈ args, arg.1.Yields) (i : Nat) (known : Known os view.operand) :
    Yields b os (storePayload v view args i) fun _ => [] := by
  induction args generalizing i os with
  | nil => exact .pure (by simp)
  | cons arg rest ih =>
    refine ((h arg List.mem_cons_self).coerced arg.2).anywhere.bind fun value => ?_
    refine (Yields.slotAddress _ _ _ (by simp [known])).bind fun field => ?_
    refine (Yields.store (by simp) (by simp)).bind fun _ => ?_
    exact ih (fun arg member => h arg (List.mem_cons_of_mem _ member)) (i + 1) (by simp [known])

theorem fillPayload_yields (layout : EnumLayout) (v : VariantLayout) {args : List Code}
    (h : ∀ c ∈ args, c.Yields) (known : Known os base) :
    Yields b os (fillPayload layout v base args) fun _ => [] := by
  refine .ite (.pure (by simp)) ((payloadView_yields _ _ known).bind fun view => ?_)
  exact storePayload_yields _ _ (fun arg member => h _ (List.of_mem_zip member).1) _ (by simp)

theorem makeVariant_yields (name : String) (layout : EnumLayout) (v : VariantLayout)
    {args : List Code} (h : ∀ c ∈ args, c.Yields) :
    Yields b os (makeVariant name layout v args) fun v => [v.operand] := by
  refine (Yields.alloca _).bind fun slot => (Yields.slotAddress _ _ _ (by simp)).bind fun tag => ?_
  refine (Yields.store (by simp) (by simp)).bind fun _ => ?_
  exact (fillPayload_yields layout v h (by simp)).bind fun _ => .load _ (by simp)

theorem enumVariant_yields (ty : TypeRef) (variant : String) {args : List Code}
    (h : ∀ c ∈ args, c.Yields) :
    Yields b [] (enumVariant ty variant args) fun v => [v.operand] := by
  refine (Yields.resolve ty).bind fun ir => ?_
  split
  · refine (Yields.ask (.enumLayout _)).bind fun layout => (Yields.orFail _ _).bind fun v => ?_
    exact .ite (.fail _) (makeVariant_yields _ layout v h)
  · exact .fail _

theorem bindFields_yields (v : VariantLayout) (names : List String)
    (fields : List (IrType × TypeRef)) (i : Nat) (known : Known os view.operand) :
    Yields true os (bindFields v view names fields i) fun _ => [] := by
  induction names generalizing fields i os with
  | nil => exact .pure (by simp)
  | cons name names ih =>
    cases fields with
    | nil => exact .pure (by simp)
    | cons field fields =>
      unfold bindFields
      dsimp only
      split
      · exact ih fields (i + 1) known
      · refine (Yields.slotAddress _ _ _ known).bind fun address => ?_
        refine (Yields.load _ (by simp)).bind fun value => ?_
        exact (Yields.declareLocal _ _ (by simp)).bind fun _ => ih fields (i + 1) (by simp [known])

theorem bindPayload_yields (layout : EnumLayout) (v : VariantLayout) (bindings : List String)
    (known : Known os base) : Yields true os (bindPayload layout base v bindings) fun _ => [] :=
  .ite (.pure (by simp)) <| .ite (.fail _) <|
    (payloadView_yields _ _ known).bind fun _ => bindFields_yields _ _ _ _ (by simp)

theorem bindArm_yields (layout : EnumLayout) (arm : ArmCode) (known : Known os base) :
    Yields true os (bindArm layout base arm) fun _ => [] := by
  unfold bindArm
  split
  · exact (Yields.orFail _ _).bind fun _ => bindPayload_yields _ _ _ known
  · exact .pure (by simp)

def resultSlot (result : MatchResult) : List Operand := result.toList.map fun target => .reg target.1

theorem matchResult_yields (target : IrType) : Yields b os (matchResult target) resultSlot :=
  .ite (.pure (by simp [resultSlot]))
    ((Yields.alloca _).bind fun _ => .pure (by simp [resultSlot]))

theorem keepResult_yields {result : MatchResult} {value : Value} (source : TypeRef)
    (known : Known os value.operand) (slot : AllKnown os (resultSlot result)) :
    Yields b os (keepResult result value source) fun _ => [] := by
  unfold keepResult
  split
  · have slot := (allKnown_cons.mp slot).1
    refine Yields.get.bind fun _ => .ite (.pure (by simp)) ?_
    exact (coerce_yields _ _ known).bind fun _ => .store (by simp) (by simp [slot])
  · exact .pure (by simp)

theorem takeResult_yields {result : MatchResult} (slot : AllKnown os (resultSlot result)) :
    Yields b os (takeResult result) fun v => [v.operand] := by
  cases result with
  | some target => exact .load _ (allKnown_cons.mp slot).1
  | none => exact .pure (by simp [Value.void])

theorem matchOn_yields {scrutinee : Code} (hs : scrutinee.Yields) {arms : List ArmCode}
    (h : ∀ arm ∈ arms, arm.body.Yields) (ty : TypeRef) :
    Yields b [] (matchOn scrutinee arms ty) fun v => [v.operand] := by
  refine hs.aggregate.bind fun base => ?_
  split
  · refine (Yields.ask (.enumLayout _)).bind fun layout => (Yields.resolve ty).bind fun target => ?_
    refine (matchResult_yields _).bind fun result => ?_
    refine (Yields.slotAddress _ _ _ (by simp)).bind fun place => ?_
    refine (Yields.load _ (by simp)).bind fun tag => ?_
    have slot {os : List Operand} : AllKnown (resultSlot result ++ os) (resultSlot result) :=
      fun o member => known_append.mpr (.inl member)
    refine (Yields.matchSwitch _ (by simp) (fun arm member => ?_) fun arm member v => ?_).bind fun _ => ?_
    · exact .inScope ((bindArm_yields layout arm (by simp)).bind fun _ => (h arm member).value.anywhere)
    · exact keepResult_yields _ (by simp) (((slot.later [place.operand]).later [tag.operand]).later [v.operand])
    · exact takeResult_yields (((slot.later _).later _).later _)
  · exact .fail _

/-! ### Calls and lambdas -/

theorem promote_yields (known : Known os v.operand) :
    Yields b os (promote v) fun v => [v.operand] :=
  .ite (convert_yields _ _ _ known) (.pure (by simpa using known))

theorem arguments_yields {args : List Code} (h : ∀ c ∈ args, c.Yields) (params : List IrType) :
    Yields b os (arguments args params) fun values => values.map Value.operand := by
  induction args generalizing params os with
  | nil => exact .pure (by simp)
  | cons arg rest ih =>
    have first := h arg List.mem_cons_self
    have others := fun c member => h c (List.mem_cons_of_mem _ member)
    have both {v : Value} {values : List Value} {os : List Operand} :
        AllKnown (values.map Value.operand ++ ([v.operand] ++ os)) ((v :: values).map Value.operand) := by
      intro o member
      rcases List.mem_cons.mp member with rfl | later
      · simp
      · exact known_append.mpr (.inl later)
    cases params with
    | nil =>
      refine first.value.anywhere.bind fun _ => (promote_yields (by simp)).bind fun _ => ?_
      exact (ih others []).bind fun _ => .pure both
    | cons param params =>
      exact (first.coerced param).anywhere.bind fun _ => (ih others params).bind fun _ => .pure both

theorem callAs_yields {ty : IrType} (ret : IrType) {callee : Operand} {args : List Value}
    (known : ∀ dst, AllKnown os (Instr.call dst ty callee args).reads) :
    Yields b os (callAs ty ret callee args) fun v => [v.operand] :=
  .ite ((Yields.emit rfl rfl (known none)).bind fun _ => .pure (by simp [Value.void]))
    (.emitValue _ (fun _ => ⟨rfl, rfl⟩) fun r => known (some r))

section

variable {args : List Code} (h : ∀ c ∈ args, c.Yields)

include h in
theorem callClosure_yields {closure : Value} (ty : TypeRef) (known : Known os closure.operand) :
    Yields b os (callClosure closure args ty) fun v => [v.operand] := by
  refine (Yields.orFail _ _).bind fun sig => ?_
  refine (Yields.emitValue _ (fun _ => ⟨rfl, rfl⟩) fun _ => ?_).bind fun code => ?_
  · simp [Instr.reads, Instr.operands, known]
  refine (Yields.emitValue _ (fun _ => ⟨rfl, rfl⟩) fun _ => ?_).bind fun env => ?_
  · simp [Instr.reads, Instr.operands, known]
  refine (arguments_yields h _).bind fun values => ?_
  refine (callAs_yields _ (allKnown_call ?_)).bind fun _ => ?_
  · refine allKnown_cons.mpr ⟨by simp, allKnown_cons.mpr ⟨by simp, fun o member => ?_⟩⟩
    exact known_append.mpr (.inl member)
  · exact (Yields.resolve ty).bind fun _ => coerce_yields _ _ (by simp)

include h in
theorem callSymbol_yields (symbol : String) (ty ret : IrType) (params : List IrType)
    (before : List Value) (known : AllKnown os (before.map Value.operand)) :
    Yields b os (do
        let values ← arguments args params
        callAs ty ret (.global symbol) (before ++ values))
      fun v => [v.operand] := by
  refine (arguments_yields h params).bind fun values => callAs_yields _ fun dst o member => ?_
  rw [Instr.reads, List.map_append] at member
  rcases List.mem_append.mp member with first | later
  · exact known_append.mpr (.inr (known o first))
  · exact known_append.mpr (.inl later)

include h in
theorem callExternal_yields (ext : ExternDecl) :
    Yields b os (callExternal ext args) fun v => [v.operand] :=
  Yields.get.bind fun _ => (Yields.ask (.resolveSignature _ _ _)).bind fun _ =>
    callSymbol_yields h _ _ _ _ [] allKnown_nil

include h in
theorem callFunction_yields (name : String) (typeArgs : List TypeRef) :
    Yields b os (callFunction name ⟨typeArgs, args⟩) fun v => [v.operand] := by
  have target : Yields b os (functionTarget name typeArgs) fun _ => [] :=
    Yields.get.bind fun _ => .ask (.functionTarget _ _ _)
  refine target.bind fun (symbol, params, ret) => ?_
  exact callSymbol_yields h symbol ret ret params (if symbol = "main" then [] else [noEnvironment])
    (by split <;> simp [noEnvironment])

include h in
theorem callName_yields (name : String) (typeArgs : List TypeRef) (ty : TypeRef) :
    Yields b [] (callName name ⟨typeArgs, args⟩ ty) fun v => [v.operand] := by
  refine (Yields.findLocal? name).bind fun found => ?_
  split
  · exact (Yields.load _ (by simp)).bind fun _ => callClosure_yields h _ (by simp)
  · refine Yields.session.bind fun s => ?_
    split
    · exact callExternal_yields h _
    · exact callFunction_yields h _ _

include h in
theorem callDirect_yields (owner : String) (m : FunctionDecl) {receiver : List Value}
    (typeArgs : List TypeRef) (known : AllKnown os (receiver.map Value.operand)) :
    Yields b os (callDirect owner m receiver ⟨typeArgs, args⟩) fun v => [v.operand] :=
  Yields.get.bind fun _ => (Yields.ask (.methodTarget _ _ _ _)).bind fun _ =>
    callSymbol_yields h _ _ _ _ (noEnvironment :: receiver)
      (allKnown_cons.mpr ⟨by simp [noEnvironment], known⟩)

include h in
theorem callDispatched_yields (owner : String) (declOwner : String) (m : FunctionDecl)
    {receiver : Value} (known : Known os pointer) (this : Known os receiver.operand) :
    Yields b os (callDispatched owner pointer declOwner m receiver args) fun v => [v.operand] := by
  refine (Yields.ask (.structLayout _)).bind fun _ => (Yields.orFail _ _).bind fun _ => ?_
  refine (Yields.ask (.dispatchSlot? _ _)).bind fun _ => (Yields.orFail _ _).bind fun _ => ?_
  refine (Yields.ask (.methodType _ _ _)).bind fun _ => ?_
  refine (Yields.slotAddress _ _ _ (by simp [known])).bind fun _ => ?_
  refine (Yields.load _ (by simp)).bind fun _ => ?_
  refine (Yields.emitValue _ (fun _ => ⟨rfl, rfl⟩) fun _ => ?_).bind fun _ => ?_
  · simp [Instr.reads, Instr.operands]
  refine (Yields.emitValue _ (fun _ => ⟨rfl, rfl⟩) fun _ => ?_).bind fun _ => ?_
  · simp [Instr.reads, Instr.operands]
  refine (Yields.load _ (by simp)).bind fun _ => ?_
  refine (Yields.emitValue _ (fun _ => ⟨rfl, rfl⟩) fun _ => ?_).bind fun code => ?_
  · simp [Instr.reads, Instr.operands]
  refine (Yields.ask (.resolveSignature _ _ _)).bind fun _ => (arguments_yields h _).bind fun values => ?_
  refine callAs_yields _ (allKnown_call ?_)
  refine allKnown_cons.mpr ⟨by simp, allKnown_cons.mpr ⟨by simp [noEnvironment],
    allKnown_cons.mpr ⟨by simp [this], fun o member => ?_⟩⟩⟩
  exact known_append.mpr (.inl member)

theorem upcast_yields (owner : String) (target : String) (known : Known os pointer) :
    Yields b os (upcast owner pointer target) fun v => [v.operand] := by
  refine (Yields.ask (.ownerType _)).bind fun _ => .ite (.pure (by simpa using known)) ?_
  exact (Yields.ask (.ownerType _)).bind fun _ => .emitValue _ (fun _ => ⟨rfl, rfl⟩) fun _ => by
    simpa [Instr.reads, Instr.operands] using known

theorem receiverOf_yields {receiver : Code} (hr : receiver.Yields) (method : String) :
    Yields b [] (receiverOf receiver method) fun found => [found.2] := by
  refine (Yields.resolve _).bind fun ty => ?_
  split
  · exact hr.value.bind fun _ => .pure (by simp)
  · exact hr.value.bind fun _ => .pure (by simp)
  · exact hr.place.bind fun _ => .pure (by simp)
  · exact hr.place.bind fun _ => .pure (by simp)
  · exact .fail _

include h in
theorem callMethod_yields {receiver : Code} (hr : receiver.Yields) (method : String)
    (typeArgs : List TypeRef) :
    Yields b [] (callMethod receiver method ⟨typeArgs, args⟩) fun v => [v.operand] := by
  refine (receiverOf_yields hr method).bind fun found => ?_
  refine (Yields.ask (.lookupMethod _ _)).bind fun declared => ?_
  refine .ite (callDirect_yields h _ _ _ (by simp)) ?_
  refine (upcast_yields _ _ (by simp)).bind fun this => Yields.session.bind fun s => ?_
  exact .ite (callDispatched_yields h _ _ _ (by simp) (by simp))
    (callDirect_yields h _ _ _ (by simp))

theorem ownerName_yields (method : String) (ty : IrType) :
    Yields b os (ownerName method ty) fun _ => [] := by
  unfold ownerName
  split
  · exact .pure (by simp)
  · exact .pure (by simp)
  · exact .fail _

include h in
theorem callStatic_yields (owner : TypeRef) (method : String) (typeArgs : List TypeRef) :
    Yields b [] (callStatic owner method ⟨typeArgs, args⟩) fun v => [v.operand] :=
  (Yields.resolve owner).bind fun _ => (ownerName_yields method _).bind fun _ =>
    (Yields.ask (.lookupMethod _ _)).bind fun _ =>
      .ite (callDirect_yields h _ _ _ (by simp)) (.fail _)

end

theorem storeCaptures_yields (envType : IrType) {env : Operand} (captures : List (Field × IrType))
    (i : Nat) (known : Known os env) :
    Yields b os (storeCaptures envType env captures i) fun _ => [] := by
  induction captures generalizing i os with
  | nil => exact .pure (by simp)
  | cons capture rest ih =>
    refine (Yields.findLocal? _).bind fun found => ?_
    refine Yields.bind (R := fun l => [.reg l.slot]) ?_ fun l => ?_
    · cases found with
      | none => exact .fail _
      | some l => exact .pure (by simp)
    refine (Yields.load _ (by simp)).bind fun _ => (coerce_yields _ _ (by simp)).bind fun _ => ?_
    refine (Yields.slotAddress _ _ _ (by simp [known])).bind fun _ => ?_
    exact (Yields.store (by simp) (by simp)).bind fun _ => ih (i + 1) (by simp [known])

theorem makeEnvironment_yields (name : String) (captures : List Field) (types : List IrType) :
    Yields b os (makeEnvironment name captures types) fun o => [o] := by
  refine .ite (.pure (by simp)) ((Yields.ask (.environment _ _)).bind fun _ => ?_)
  refine (Yields.ask (.aggregate _)).bind fun _ => ?_
  refine (callAs_yields _ fun _ => by simp [Instr.reads]).bind fun raw => ?_
  refine (Yields.emitValue _ (fun _ => ⟨rfl, rfl⟩) fun _ => ?_).bind fun typed => ?_
  · simp [Instr.reads, Instr.operands]
  · exact (storeCaptures_yields _ _ _ (by simp)).bind fun _ => .pure (by simp)

end Emit

namespace Code

theorem unary_yields {operand : Code} (h : operand.Yields) (info : ExprInfo) (op : UnaryOp) :
    (unary info op operand).Yields := by
  cases op with
  | neg => exact ofValue_yields (negate_yields h)
  | not => exact ofValue_yields (complement_yields h)
  | addressOf => exact ofValue_yields (addressOf_yields h)
  | deref => exact ⟨dereference_yields h _, pointeePlace_yields h, pointeePlace_yields h⟩

theorem var_yields (info : ExprInfo) (name : String) : (var info name).Yields := by
  have value {b : Bool} : Emit.Yields b [] (var info name).value fun v => [v.operand] := by
    refine (Emit.Yields.findLocal? name).bind fun found => ?_
    split
    · exact .load _ (by simp)
    · exact Emit.Yields.session.bind fun _ => .ite (.functionRef _ _) (.fail _)
  refine ⟨value, (Emit.Yields.findLocal? name).bind fun found => ?_,
    (Emit.Yields.findLocal? name).bind fun found => ?_⟩
  · split
    · exact .pure (by simp)
    · exact .fail _
  · split
    · exact .pure (by simp)
    · exact (materialize_yields value).anywhere

end Code

/-! ### All expressions -/

open Code in
mutual

theorem Expr.code_yields : (e : Expr) → e.code.Yields
  | .literal _ _ => ofValue_yields (literal_yields _ _)
  | .var _ _ => var_yields _ _
  | .binary _ _ lhs rhs => ofValue_yields (binary_yields lhs.code_yields rhs.code_yields _ _)
  | .unary _ _ operand => unary_yields operand.code_yields _ _
  | .assign _ target value => ofValue_yields (assign_yields target.code_yields value.code_yields)
  | .call _ _ _ args => ofValue_yields (callName_yields (exprCodes_yield args) _ _ _)
  | .methodCall _ receiver _ _ args =>
    ofValue_yields (callMethod_yields (exprCodes_yield args) receiver.code_yields _ _)
  | .staticCall _ _ _ _ args => ofValue_yields (callStatic_yields (exprCodes_yield args) _ _ _)
  | .closureCall _ callee args =>
    ofValue_yields (callee.code_yields.value.bind fun _ =>
      callClosure_yields (exprCodes_yield args) _ (by simp))
  | .functionRef _ _ _ => ofValue_yields (.functionRef _ _)
  | .member _ object _ => ofPlace_yields (memberPlace_yields object.code_yields _)
  | .index _ object position =>
    ofPlace_yields (indexPlace_yields object.code_yields position.code_yields)
  | .tupleIndex _ object _ => ofPlace_yields (tuplePlace_yields object.code_yields _)
  | .structLiteral _ fields => ofValue_yields (structLiteral_yields _ (fieldCodes_yield fields))
  | .tupleLiteral _ elems => ofValue_yields (tupleLiteral_yields (exprCodes_yield elems))
  | .arrayLiteral _ elems => ofValue_yields (arrayLiteral_yields _ (exprCodes_yield elems))
  | .enumVariant _ _ args => ofValue_yields (enumVariant_yields _ _ (exprCodes_yield args))
  | .matchOn _ scrutinee arms =>
    ofValue_yields (matchOn_yields scrutinee.code_yields (armCodes_yield arms) _)
  | .lambda _ _ _ _ => ofValue_yields (.lambda _ _ _ fun _ _ => makeEnvironment_yields _ _ _)
  | .ternary _ condition thenValue elseValue =>
    ofValue_yields (.ternary _ condition.code_yields.condition thenValue.code_yields.coerced
      elseValue.code_yields.coerced)
  | .cast _ value => ofValue_yields (cast_yields value.code_yields _)
  | .sizeof _ _ => ofValue_yields (sizeof_yields _)

theorem exprCodes_yield : (es : List Expr) → ∀ c ∈ exprCodes es, c.Yields
  | [] => List.forall_mem_nil _
  | e :: rest => List.forall_mem_cons.mpr ⟨e.code_yields, exprCodes_yield rest⟩

theorem fieldCodes_yield : (fields : List FieldInit) → ∀ f ∈ fieldCodes fields, f.2.Yields
  | [] => List.forall_mem_nil _
  | .mk _ value :: rest => List.forall_mem_cons.mpr ⟨value.code_yields, fieldCodes_yield rest⟩

theorem armCodes_yield : (arms : List MatchArm) → ∀ arm ∈ armCodes arms, arm.body.Yields
  | [] => List.forall_mem_nil _
  | .mk _ _ body :: rest => List.forall_mem_cons.mpr ⟨body.code_yields, armCodes_yield rest⟩

end

end Backend
