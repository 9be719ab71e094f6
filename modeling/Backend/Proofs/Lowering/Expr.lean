import Backend.Proofs.Lowering.Pairing

/-!
Expressions under a lawful pairing. Each rule of the lowering is taken on its own: if the code of
the parts does the same on both sides, so does the code of the whole.
-/

namespace Backend

variable {arm arm' : ArmCode} {a b c d : Bool} {fields fields' : List (String × Code)}
  {arms arms' : List ArmCode} {what : String} {source t ty : TypeRef} {v v' : VariantLayout}

namespace Pairing

variable {p : Pairing} {α : Type}

/-- What an expression is lowered to on both sides. -/
structure Codes (p : Pairing) (c c' : Code) : Prop where
  allowed : p.allows c.ty = true
  ty : c'.ty = p.image c.ty
  value : p.OnBody Eq c.value c'.value
  lvalue : p.OnBody Eq c.lvalue c'.lvalue
  place : p.OnBody Eq c.place c'.place

/-! ### Questions of a body -/

theorem lift_same {x y : Gen α} (h : p.Answers x y) :
    p.OnBody Eq (liftM x : Emit α) (liftM y : Emit α) := .lift h

namespace Lawful

variable (law : p.Lawful)

include law

theorem resolve_pairs (allowed : p.allows t = true) :
    p.OnBody Eq (Emit.resolve t) (Emit.resolve (p.image t)) :=
  .reading fun f locals frames => by
    rw [frames.subst]
    exact .lift (law.resolve allowed)

theorem resolveAll_pairs {types : List TypeRef} (allowed : types.all p.allows = true) :
    p.OnBody Eq (Emit.resolveAll types) (Emit.resolveAll (types.map p.image)) := by
  refine .reading fun f locals frames => ?_
  rw [frames.subst]
  refine .lift (.mapM_same ?_)
  refine List.forall₂_map_right_iff.mpr (List.forall₂_same.mpr fun t member => ?_)
  exact law.resolve (List.all_eq_true.mp allowed t member)

theorem reads (allowed : p.allows t = true) (ty : IrType) : p.Reads ty t (p.image t) :=
  (law.substitute allowed).imp fun _ _ concrete _ => concrete.isUnsigned

theorem concrete_pairs (allowed : p.allows t = true) :
    p.OnBody p.Concrete (Emit.concrete t) (Emit.concrete (p.image t)) :=
  .reading fun f locals frames => by
    rw [frames.subst]
    exact .lift (law.substitute allowed)

theorem dispatchSlot?_pairs (owner method : String) :
    p.Answers (Gen.dispatchSlot? owner method) (Gen.dispatchSlot? owner method) :=
  (law.dispatchLayout owner).bind fun _ _ same => .pure (by rw [same])

theorem sizeOf_pairs (ty : IrType) : p.Answers (Gen.sizeOf ty) (Gen.sizeOf ty) :=
  (law.extent ty).bind fun _ _ same => .pure (by rw [same])

theorem ownerType_pairs (owner : String) :
    p.Answers (Resolution.ownerType owner) (Resolution.ownerType owner) :=
  .reading fun _ _ paired => .pure (by rw [law.enums paired])

end Lawful

theorem variantOf_pairs {l l' : EnumLayout} (h : p.Enums l l') (variant : String) :
    p.OnBody p.Variants (Emit.variantOf l variant) (Emit.variantOf l' variant) :=
  .orFail (h.variants.find? variant)

/-! ### Conversions and places -/

theorem conversion?_congr {source target : IrType} (h : source.isNumber = true → c = a ∧ d = b) :
    conversion? source target a b = conversion? source target c d := by
  cases source with
  | int bits => rw [(h rfl).1, (h rfl).2]
  | float => rw [(h rfl).1, (h rfl).2]
  | double => rw [(h rfl).1, (h rfl).2]
  | _ => cases target <;> rfl

theorem convert_pairs (v : Value) (target : IrType) (h : v.ty.isNumber = true → c = a ∧ d = b) :
    p.OnBody Eq (Emit.convert v target a b) (Emit.convert v target c d) := by
  unfold Emit.convert
  refine .ite (.pure rfl) ?_
  rw [conversion?_congr h]
  split
  · exact emitValue_same _ _
  · exact .fail

theorem coerce_pairs (v : Value) {source' : TypeRef} (target : IrType)
    (h : p.Reads v.ty source source') :
    p.OnBody Eq (Emit.coerce v source target) (Emit.coerce v source' target) := by
  refine .ite (.pure rfl) ?_
  split
  · exact .pure rfl
  · exact .pure rfl
  · refine .bind (V := fun a a' => v.ty.isNumber = true → a'.isUnsigned = a.isUnsigned)
      (.reading fun f locals frames => ?_) fun a b same => ?_
    · rw [frames.subst]
      exact .lift h
    · exact convert_pairs v _ fun number => ⟨same number, same number⟩

theorem truth_same (v : Value) : p.Same (Emit.truth v) := by
  unfold Emit.truth
  split
  · exact .pure rfl
  · exact (emitValue_same _ _).andThen fun _ => .pure rfl
  · exact (emitValue_same _ _).andThen fun _ => .pure rfl
  · exact .fail

theorem unaddressable_pairs (what : String) (ty ty' : TypeRef) :
    p.OnBody Eq (unaddressable what ty) (unaddressable what ty') :=
  fun _ _ _ => Beside.OnSession.fail

theorem materialize_pairs {ty' : TypeRef} {value value' : Emit Value}
    (h : p.OnBody Eq value value') :
    p.OnBody Eq (materialize what ty value) (materialize what ty' value') :=
  h.andThen fun _ => .ite (unaddressable_pairs what ty ty') <|
    (alloca_same _).andThen fun _ => (store_same _ _).andThen fun _ => .pure rfl

theorem ofValue_pairs {value value' : Emit Value} (allowed : p.allows ty = true)
    (h : p.OnBody Eq value value') :
    p.Codes (.ofValue what ty value) (.ofValue what (p.image ty) value') where
  allowed
  ty := rfl
  value := h
  lvalue := unaddressable_pairs _ _ _
  place := materialize_pairs h

theorem ofPlace_pairs {place place' : Emit Place} (allowed : p.allows ty = true)
    (h : p.OnBody Eq place place') :
    p.Codes (.ofPlace ty place) (.ofPlace (p.image ty) place') where
  allowed
  ty := rfl
  value := h.andThen fun _ => load_same _ _
  lvalue := h
  place := h

namespace Codes

variable {c c' : Code} (h : p.Codes c c')

include h

theorem condition : p.OnBody Eq c.condition c'.condition := h.value.andThen fun v => truth_same v

variable (law : p.Lawful)

include law

theorem coerced (target : IrType) : p.OnBody Eq (c.coerced target) (c'.coerced target) := by
  refine h.value.andThen fun v => ?_
  rw [h.ty]
  exact coerce_pairs v target (law.reads h.allowed v.ty)

theorem resolved : p.OnBody Eq (Emit.resolve c.ty) (Emit.resolve c'.ty) := by
  rw [h.ty]
  exact law.resolve_pairs h.allowed

theorem aggregate : p.OnBody Eq c.aggregate c'.aggregate := by
  refine (h.resolved law).andThen fun ty => ?_
  split
  · exact .ite (h.value.andThen fun _ => .pure rfl) h.place
  · exact h.place

end Codes

/-! ### Operators -/

variable (law : p.Lawful)

include law in
theorem literal_pairs (allowed : p.allows ty = true) (l : Literal) :
    p.OnBody Eq (Emit.literal ty l) (Emit.literal (p.image ty) l) := by
  cases l with
  | int n => exact (law.resolve_pairs allowed).andThen fun ir => by split <;> exact .pure rfl
  | float x => exact (law.resolve_pairs allowed).andThen fun ir => by split <;> exact .pure rfl
  | bool b => exact .pure rfl
  | string s => exact (lift_same (law.internString s)).andThen fun _ => .pure rfl
  | null => exact (law.resolve_pairs allowed).andThen fun ir => by split <;> exact .pure rfl

include law in
theorem compareLiveness_same (op : BinaryOp) (name : String) (subject : Value) :
    p.Same (Emit.compareLiveness op name subject) :=
  (lift_same (law.structLayout name)).andThen fun _ => (emitValue_same _ _).andThen fun _ =>
    emitValue_same _ _

theorem compareValues_same (op : BinaryOp) (unsigned : Bool) (lhs rhs : Value) :
    p.Same (Emit.compareValues op unsigned lhs rhs) := by
  unfold Emit.compareValues
  split
  · exact emitValue_same _ _
  · exact .fail

theorem arithOp_same (op : BinaryOp) (unsigned : Bool) (ty : IrType) :
    p.Same (Emit.arithOp op unsigned ty) :=
  .ite .orFail_same (.ite .orFail_same .fail)

include law in
theorem operate_pairs (op : BinaryOp) (l r : Value) {lhsType rhsType : TypeRef}
    (lhsAllowed : p.allows lhsType = true) (rhsAllowed : p.allows rhsType = true)
    (allowed : p.allows ty = true) : p.OnBody Eq (Emit.operate op l r lhsType rhsType ty)
      (Emit.operate op l r (p.image lhsType) (p.image rhsType) (p.image ty)) := by
  refine (coerce_pairs r _ (law.reads rhsAllowed _)).andThen fun r => ?_
  refine (law.concrete_pairs lhsAllowed).bind fun source _ concrete => ?_
  rw [concrete.isUnsigned]
  refine .ite (compareValues_same _ _ _ _) ((arithOp_same _ _ _).andThen fun instr => ?_)
  refine (emitValue_same _ _).andThen fun result => ?_
  exact (law.resolve_pairs allowed).andThen fun target =>
    coerce_pairs result target (law.reads lhsAllowed _)

variable {c c' lhs lhs' rhs rhs' : Code}

include law in
theorem strict_pairs (hl : p.Codes lhs lhs') (hr : p.Codes rhs rhs') (op : BinaryOp)
    (allowed : p.allows ty = true) :
    p.OnBody Eq (Emit.strict op lhs rhs ty) (Emit.strict op lhs' rhs' (p.image ty)) := by
  refine hl.value.andThen fun l => hr.value.andThen fun r => ?_
  split
  · exact compareLiveness_same law _ _ _
  · exact compareLiveness_same law _ _ _
  · rw [hl.ty, hr.ty]
    exact operate_pairs law _ l r hl.allowed hr.allowed allowed

theorem shortCircuit_pairs (hl : p.Codes lhs lhs') (hr : p.Codes rhs rhs') (stem : String)
    (continueOn : Bool) :
    p.OnBody Eq (Emit.shortCircuit stem continueOn lhs rhs)
      (Emit.shortCircuit stem continueOn lhs' rhs') := by
  refine (freshLabel_same _).andThen fun rhsLabel => (freshLabel_same _).andThen fun endLabel => ?_
  refine hl.condition.andThen fun l => .reading fun f locals _ => ?_
  refine (terminate_same _).andThen fun _ => (startBlock_same _).andThen fun _ => ?_
  refine hr.condition.andThen fun r => .reading fun f locals _ => ?_
  refine (terminate_same _).andThen fun _ => (startBlock_same _).andThen fun _ => ?_
  exact emitValue_same _ _

include law in
theorem binary_pairs (hl : p.Codes lhs lhs') (hr : p.Codes rhs rhs') (op : BinaryOp)
    (allowed : p.allows ty = true) :
    p.OnBody Eq (Emit.binary op lhs rhs ty) (Emit.binary op lhs' rhs' (p.image ty)) := by
  unfold Emit.binary
  split
  · exact shortCircuit_pairs hl hr _ _
  · exact shortCircuit_pairs hl hr _ _
  · exact strict_pairs law hl hr _ allowed

include law in
theorem ternaryBranch_pairs (h : p.Codes c c') (label endLabel : Label) (target : IrType) :
    p.OnBody Eq (Emit.ternaryBranch label endLabel c target)
      (Emit.ternaryBranch label endLabel c' target) :=
  (startBlock_same _).andThen fun _ => (h.coerced law target).andThen fun _ =>
    (terminate_same _).andThen fun _ => .reading fun _ _ _ => .pure rfl

include law in
theorem ternary_pairs (h : p.Codes c c') (ht : p.Codes lhs lhs') (he : p.Codes rhs rhs')
    (allowed : p.allows ty = true) :
    p.OnBody Eq (Emit.ternary c lhs rhs ty) (Emit.ternary c' lhs' rhs' (p.image ty)) := by
  refine (law.resolve_pairs allowed).andThen fun target => h.condition.andThen fun test => ?_
  refine (freshLabel_same _).andThen fun thenLabel => (freshLabel_same _).andThen fun elseLabel => ?_
  refine (freshLabel_same _).andThen fun endLabel => (terminate_same _).andThen fun _ => ?_
  refine (ternaryBranch_pairs law ht _ _ target).andThen fun onTrue => ?_
  refine (ternaryBranch_pairs law he _ _ target).andThen fun onFalse => ?_
  exact (startBlock_same _).andThen fun _ => .ite (.pure rfl) (emitValue_same _ _)

theorem negate_pairs (h : p.Codes c c') : p.OnBody Eq (Emit.negate c) (Emit.negate c') :=
  h.value.andThen fun _ => emitValue_same _ _

theorem complement_pairs (h : p.Codes c c') :
    p.OnBody Eq (Emit.complement c) (Emit.complement c') :=
  h.value.andThen fun _ => emitValue_same _ _

theorem addressOf_pairs (h : p.Codes c c') : p.OnBody Eq (Emit.addressOf c) (Emit.addressOf c') :=
  h.lvalue.andThen fun _ => .pure rfl

include law in
theorem dereference_pairs (h : p.Codes c c') (allowed : p.allows ty = true) :
    p.OnBody Eq (Emit.dereference c ty) (Emit.dereference c' (p.image ty)) := by
  refine h.value.andThen fun pointer => OnBody.andThen ?_ fun pointee => load_same _ _
  unfold Emit.pointeeType
  split
  · exact .pure rfl
  · exact law.resolve_pairs allowed

theorem pointeePlace_pairs (h : p.Codes c c') :
    p.OnBody Eq (Emit.pointeePlace c) (Emit.pointeePlace c') := by
  refine h.value.andThen fun pointer => ?_
  split
  · exact .pure rfl
  · exact .fail

include law in
theorem assign_pairs (hl : p.Codes lhs lhs') (hr : p.Codes rhs rhs') :
    p.OnBody Eq (Emit.assign lhs rhs) (Emit.assign lhs' rhs') := by
  refine hl.lvalue.andThen fun target => hr.value.andThen fun v => ?_
  rw [hl.ty]
  exact (coerce_pairs v _ (law.reads hl.allowed _)).andThen fun _ => (store_same _ _).andThen fun _ =>
    .pure rfl

include law in
theorem cast_pairs (h : p.Codes c c') (allowed : p.allows ty = true) :
    p.OnBody Eq (Emit.cast c ty) (Emit.cast c' (p.image ty)) := by
  unfold Emit.cast
  rw [h.ty]
  refine (law.concrete_pairs h.allowed).bind fun source _ concreteSource => ?_
  refine (law.concrete_pairs allowed).bind fun target _ concreteTarget => ?_
  rw [concreteSource.isUnsigned, concreteTarget.isUnsigned]
  exact (law.resolve_pairs allowed).andThen fun _ => h.value.andThen fun _ =>
    convert_pairs _ _ fun _ => ⟨rfl, rfl⟩

include law in
theorem sizeof_pairs (allowed : p.allows ty = true) :
    p.OnBody Eq (Emit.sizeof ty) (Emit.sizeof (p.image ty)) :=
  (law.resolve_pairs allowed).andThen fun ir => (lift_same (law.sizeOf_pairs ir)).andThen fun _ =>
    .pure rfl

/-! ### Aggregates -/

include law in
theorem memberPlace_pairs (h : p.Codes c c') (field : String) :
    p.OnBody Eq (Emit.memberPlace c field) (Emit.memberPlace c' field) := by
  refine (h.aggregate law).andThen fun base => ?_
  split
  · refine (lift_same (law.structLayout _)).andThen fun layout => OnBody.orFail_same.andThen fun slot => ?_
    exact OnBody.orFail_same.andThen fun ty => (slotAddress_same _ _ _ _).andThen fun _ => .pure rfl
  · exact .fail

include law in
theorem tuplePlace_pairs (h : p.Codes c c') (position : Nat) :
    p.OnBody Eq (Emit.tuplePlace c position) (Emit.tuplePlace c' position) := by
  refine (h.aggregate law).andThen fun base => ?_
  split
  · exact OnBody.orFail_same.andThen fun ty => (slotAddress_same _ _ _ _).andThen fun _ => .pure rfl
  · exact .fail

include law in
theorem indexBase_pairs (h : p.Codes c c') :
    p.OnBody Eq (Emit.indexBase c) (Emit.indexBase c') := by
  have ofArray : p.OnBody Eq (Emit.indexBase.ofArray c) (Emit.indexBase.ofArray c') := by
    refine (h.aggregate law).andThen fun base => ?_
    split
    · exact .pure rfl
    · exact .fail
  refine (h.resolved law).andThen fun ty => ?_
  split
  · exact ofArray
  · exact h.value.andThen fun _ => .pure rfl
  · exact ofArray

include law in
theorem indexPlace_pairs (hl : p.Codes lhs lhs') (hr : p.Codes rhs rhs') :
    p.OnBody Eq (Emit.indexPlace lhs rhs) (Emit.indexPlace lhs' rhs') :=
  (indexBase_pairs law hl).andThen fun _ => (hr.coerced law _).andThen fun _ =>
    (emitValue_same _ _).andThen fun _ => .pure rfl

include law in
theorem insertField_pairs (h : p.Codes c c') (name : String) (layout : StructLayout)
    (field : String) (current : Value) :
    p.OnBody Eq (Emit.insertField name layout field c current)
      (Emit.insertField name layout field c' current) :=
  .ite .fail <| OnBody.orFail_same.andThen fun _ => OnBody.orFail_same.andThen fun ty =>
    (h.coerced law ty).andThen fun _ => insertAt_same _ _ _

abbrev Inits (p : Pairing) : List (String × Code) → List (String × Code) → Prop :=
  List.Forall₂ fun field field' => field'.1 = field.1 ∧ p.Codes field.2 field'.2

include law in
theorem insertFields_pairs (name : String) (layout : StructLayout) (h : p.Inits fields fields')
    (current : Value) : p.OnBody Eq (Emit.insertFields name layout fields current)
      (Emit.insertFields name layout fields' current) := by
  induction h generalizing current with
  | nil => exact .pure rfl
  | @cons field field' _ _ head _ ih =>
    obtain ⟨fieldName, value⟩ := field
    obtain ⟨fieldName', value'⟩ := field'
    obtain ⟨rfl, codes⟩ := head
    exact (insertField_pairs law codes _ _ _ _).andThen fun next => ih next

include law in
theorem blankStruct_same (name : String) (layout : StructLayout) :
    p.Same (Emit.blankStruct name layout) := by
  unfold Emit.blankStruct
  split
  · exact (lift_same (law.dispatchLayout _)).andThen fun _ => insertAt_same _ _ _
  · exact .pure rfl

include law in
theorem structLiteral_pairs (allowed : p.allows ty = true) (h : p.Inits fields fields') :
    p.OnBody Eq (Emit.structLiteral ty fields) (Emit.structLiteral (p.image ty) fields') := by
  refine (law.resolve_pairs allowed).andThen fun ir => ?_
  split
  · refine (lift_same (law.structLayout _)).andThen fun layout => ?_
    refine (blankStruct_same law _ layout).andThen fun start => ?_
    exact (insertFields_pairs law _ layout h start).andThen fun _ => insertAt_same _ _ _
  · exact .fail

theorem insertAll_same (values : List Value) (i : Nat) (current : Value) :
    p.Same (Emit.insertAll values i current) := by
  induction values generalizing i current with
  | nil => exact .pure rfl
  | cons v rest ih => exact (insertAt_same _ _ _).andThen fun next => ih (i + 1) next

variable {args args' : List Code} (each : List.Forall₂ p.Codes args args')

include each in
theorem isEmpty_eq : args'.isEmpty = args.isEmpty := by
  cases each <;> rfl

include each in
theorem tupleLiteral_pairs : p.OnBody Eq (Emit.tupleLiteral args) (Emit.tupleLiteral args') :=
  (OnBody.mapM_same (each.imp fun _ _ codes => codes.value)).andThen fun _ => insertAll_same _ _ _

include law each in
theorem insertElems_pairs (elemType : IrType) (i : Nat) (current : Value) :
    p.OnBody Eq (Emit.insertElems elemType args i current)
      (Emit.insertElems elemType args' i current) := by
  induction each generalizing i current with
  | nil => exact .pure rfl
  | cons head _ ih =>
    exact (head.coerced law elemType).andThen fun v => (insertAt_same _ _ _).andThen fun next =>
      ih (i + 1) next

include law each in
theorem arrayLiteral_pairs (allowed : p.allows ty = true) :
    p.OnBody Eq (Emit.arrayLiteral ty args) (Emit.arrayLiteral (p.image ty) args') := by
  refine (law.resolve_pairs allowed).andThen fun target => ?_
  rw [← each.length_eq, isEmpty_eq each]
  dsimp only
  split
  · exact .ite .fail (insertElems_pairs law each _ _ _)
  · exact .fail

/-! ### Enum values and matches -/

section

variable {layout layout' : EnumLayout} (enums : p.Enums layout layout') {v v' : VariantLayout}
  (variants : p.Variants v v')

include enums variants in
theorem payloadView_pairs (base : Operand) :
    p.OnBody Eq (Emit.payloadView layout base v) (Emit.payloadView layout' base v') := by
  unfold Emit.payloadView EnumLayout.dataType VariantLayout.payloadType
  rw [enums.name, enums.dataSize, variants.payload]
  exact (slotAddress_same _ _ _ _).andThen fun _ => emitValue_same _ _

include variants in
theorem payloadField_pairs (view : Value) (i : Nat) (ty : IrType) :
    p.OnBody Eq (Emit.payloadField v view i ty) (Emit.payloadField v' view i ty) := by
  unfold Emit.payloadField VariantLayout.payloadType
  rw [variants.payload]
  exact slotAddress_same _ _ _ _

include law each variants in
theorem storePayload_pairs (view : Value) (types : List IrType) (i : Nat) :
    p.OnBody Eq (Emit.storePayload v view (args.zip types) i)
      (Emit.storePayload v' view (args'.zip types) i) := by
  induction each generalizing types i with
  | nil => exact .pure rfl
  | cons head _ ih =>
    cases types with
    | nil => exact .pure rfl
    | cons ty types =>
      refine (head.coerced law ty).andThen fun _ => ?_
      exact (payloadField_pairs variants _ _ _).andThen fun _ => (store_same _ _).andThen fun _ =>
        ih types (i + 1)

include law each enums variants in
theorem fillPayload_pairs (base : Operand) :
    p.OnBody Eq (Emit.fillPayload layout v base args)
      (Emit.fillPayload layout' v' base args') := by
  unfold Emit.fillPayload
  rw [isEmpty_eq each, variants.payload]
  exact .ite (.pure rfl) ((payloadView_pairs enums variants _).andThen fun view =>
    storePayload_pairs law each variants view _ _)

include law each enums variants in
theorem makeVariant_pairs (name : String) :
    p.OnBody Eq (Emit.makeVariant name layout v args)
      (Emit.makeVariant name layout' v' args') := by
  unfold Emit.makeVariant
  rw [variants.tag]
  exact (alloca_same _).andThen fun _ => (slotAddress_same _ _ _ _).andThen fun _ =>
    (store_same _ _).andThen fun _ => (fillPayload_pairs law each enums variants _).andThen fun _ =>
      load_same _ _

end

include law each in
theorem enumVariant_pairs (allowed : p.allows ty = true) (variant : String) :
    p.OnBody Eq (Emit.enumVariant ty variant args) (Emit.enumVariant (p.image ty) variant args') := by
  refine (law.resolve_pairs allowed).andThen fun ir => ?_
  split
  · refine (OnBody.lift (law.enumLayout _)).bind fun layout layout' enums => ?_
    refine (variantOf_pairs enums variant).bind fun v v' variants => ?_
    rw [variants.payload, ← each.length_eq]
    exact .ite .fail (makeVariant_pairs law each enums variants _)
  · exact .fail

abbrev PayloadFields (p : Pairing) : List (IrType × TypeRef) → List (IrType × TypeRef) → Prop :=
  List.Forall₂ fun field field' => field'.1 = field.1 ∧ p.Reads field.1 field.2 field'.2

theorem bindFields_pairs (variants : p.Variants v v') (view : Value) (names : List String)
    {fields fields' : List (IrType × TypeRef)} (h : p.PayloadFields fields fields') (i : Nat) :
    p.OnBody Eq (Emit.bindFields v view names fields i)
      (Emit.bindFields v' view names fields' i) := by
  induction h generalizing names i with
  | nil => cases names <;> exact .pure rfl
  | @cons field field' _ _ head _ ih =>
    cases names with
    | nil => exact .pure rfl
    | cons name names =>
      obtain ⟨ir, ty⟩ := field
      obtain ⟨ir', ty'⟩ := field'
      obtain ⟨same, reads⟩ := head
      subst same
      refine .ite (ih names (i + 1)) ((payloadField_pairs variants _ _ _).andThen fun address => ?_)
      refine (load_typed _ _).bind fun value _ ⟨same, typed⟩ => ?_
      rw [same]
      refine (declareLocal_pairs name ?_).andThen fun _ => ih names (i + 1)
      rw [typed]
      exact reads

theorem bindPayload_pairs {layout layout' : EnumLayout} (enums : p.Enums layout layout')
    (base : Operand) (variants : p.Variants v v') (bindings : List String) :
    p.OnBody Eq (Emit.bindPayload layout base v bindings)
      (Emit.bindPayload layout' base v' bindings) := by
  have fields := variants.reads
  unfold Emit.bindPayload
  rw [variants.payload] at fields ⊢
  exact .ite (.pure rfl) <| .ite .fail <|
    (payloadView_pairs enums variants _).andThen fun _ => bindFields_pairs variants _ _ fields _

/-- An arm of a match on both sides. -/
structure Arms (p : Pairing) (arm arm' : ArmCode) : Prop where
  variant : arm'.variant = arm.variant
  bindings : arm'.bindings = arm.bindings
  body : p.Codes arm.body arm'.body

section

variable {layout layout' : EnumLayout} (enums : p.Enums layout layout')

include enums in
theorem bindArm_pairs (base : Operand) (h : p.Arms arm arm') :
    p.OnBody Eq (Emit.bindArm layout base arm) (Emit.bindArm layout' base arm') := by
  unfold Emit.bindArm
  rw [h.variant, h.bindings]
  split
  · exact (variantOf_pairs enums _).bind fun v v' variants =>
      bindPayload_pairs enums base variants _
  · exact .pure rfl

theorem matchResult_same (target : IrType) : p.Same (Emit.matchResult target) :=
  .ite (.pure rfl) ((alloca_same _).andThen fun _ => .pure rfl)

include law in
theorem keepResult_pairs (result : Emit.MatchResult) (value : Value)
    (allowed : p.allows source = true) : p.OnBody Eq (Emit.keepResult result value source)
      (Emit.keepResult result value (p.image source)) := by
  unfold Emit.keepResult
  split
  · exact .reading fun _ _ _ => .ite (.pure rfl) <|
      (coerce_pairs value _ (law.reads allowed _)).andThen fun _ => store_same _ _
  · exact .pure rfl

theorem takeResult_same (result : Emit.MatchResult) : p.Same (Emit.takeResult result) := by
  cases result with
  | some target => exact load_same _ _
  | none => exact .pure rfl

include enums in
theorem armTag_pairs (variant : Option String) :
    p.OnBody Eq (Emit.armTag layout variant) (Emit.armTag layout' variant) := by
  cases variant with
  | some variant =>
    exact (variantOf_pairs enums variant).bind fun v v' variants => .pure (by rw [variants.tag])
  | none => exact .pure rfl

include enums in
theorem armTargets_pairs (h : List.Forall₂ p.Arms arms arms') :
    p.OnBody Eq (Emit.armTargets layout arms) (Emit.armTargets layout' arms') := by
  induction h with
  | nil => exact .pure rfl
  | cons head _ ih =>
    unfold Emit.armTargets
    rw [head.variant]
    exact (freshLabel_same _).andThen fun _ => (armTag_pairs enums _).andThen fun _ =>
      ih.andThen fun _ => .pure rfl

include law enums in
theorem matchArm_pairs (base : Operand) (result : Emit.MatchResult) (endLabel : Label)
    (h : p.Arms arm arm') (label : Label) :
    p.OnBody Eq (Emit.matchArm layout base result endLabel arm label)
      (Emit.matchArm layout' base result endLabel arm' label) := by
  refine (startBlock_same _).andThen fun _ => ?_
  refine (inScope_pairs ((bindArm_pairs enums base h).andThen fun _ => h.body.value)).andThen
    fun value => ?_
  rw [h.body.ty]
  exact (keepResult_pairs law result value h.body.allowed).andThen fun _ => jumpTo_same _

include law in
theorem matchDefault_same (name : String) (label : Label) :
    p.Same (Emit.matchDefault name label) :=
  (startBlock_same _).andThen fun _ => (lift_same (law.internString _)).andThen fun _ =>
    (emit_same _).andThen fun _ => terminate_same _

theorem forall₂_zip {R : ArmCode → ArmCode → Prop} (h : List.Forall₂ R arms arms')
    (labels : List Label) :
    List.Forall₂ (fun a b => R a.1 b.1 ∧ b.2 = a.2) (arms.zip labels) (arms'.zip labels) := by
  induction h generalizing labels with
  | nil => exact .nil
  | cons head _ ih =>
    cases labels with
    | nil => exact .nil
    | cons label labels => exact .cons ⟨head, rfl⟩ (ih labels)

include law enums in
theorem matchSwitch_pairs (name : String) (base : Operand) (result : Emit.MatchResult)
    (tag : Value) (h : List.Forall₂ p.Arms arms arms') :
    p.OnBody Eq (Emit.matchSwitch name layout base result tag arms)
      (Emit.matchSwitch name layout' base result tag arms') := by
  refine (freshLabel_same _).andThen fun endLabel => (freshLabel_same _).andThen fun default => ?_
  refine (armTargets_pairs enums h).andThen fun targets => (terminate_same _).andThen fun _ => ?_
  refine (OnBody.forM ((forall₂_zip h _).imp ?_)).andThen fun _ => ?_
  · rintro ⟨arm, label⟩ ⟨arm', label'⟩ ⟨related, same⟩
    obtain rfl : label' = label := same
    exact matchArm_pairs law enums base result endLabel related label'
  · exact .ite ((matchDefault_same law _ _).andThen fun _ => startBlock_same _) (startBlock_same _)

end

include law in
theorem matchOn_pairs (hs : p.Codes c c') (h : List.Forall₂ p.Arms arms arms')
    (allowed : p.allows ty = true) :
    p.OnBody Eq (Emit.matchOn c arms ty) (Emit.matchOn c' arms' (p.image ty)) := by
  refine (hs.aggregate law).andThen fun base => ?_
  split
  · refine (OnBody.lift (law.enumLayout _)).bind fun layout layout' enums => ?_
    refine (law.resolve_pairs allowed).andThen fun target => ?_
    refine (matchResult_same _).andThen fun result => (slotAddress_same _ _ _ _).andThen fun _ => ?_
    refine (load_same _ _).andThen fun tag => ?_
    exact (matchSwitch_pairs law enums _ _ result tag h).andThen fun _ => takeResult_same result
  · exact .fail

end Pairing

end Backend
