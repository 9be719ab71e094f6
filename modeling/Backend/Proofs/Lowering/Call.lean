import Backend.Proofs.Lowering.Expr

/-!
Calls and lambdas under a lawful pairing. What is called has the same symbol and signature on both
sides, and the body of a lambda waits with its own types on each.
-/

namespace Backend

namespace Pairing

variable {p : Pairing} (law : p.Lawful) {c c' : Code} {args args' : List Code}
  (each : List.Forall₂ p.Codes args args')

/-! ### Arguments -/

theorem promote_same (v : Value) : p.Same (Emit.promote v) :=
  .ite (convert_pairs v _ fun _ => ⟨rfl, rfl⟩) (.pure rfl)

include law each in
theorem arguments_pairs (types : List IrType) :
    p.OnBody Eq (Emit.arguments args types) (Emit.arguments args' types) := by
  induction each generalizing types with
  | nil => cases types <;> exact .pure rfl
  | cons head _ ih =>
    cases types with
    | nil =>
      exact head.value.andThen fun _ => (promote_same _).andThen fun _ =>
        (ih []).andThen fun _ => .pure rfl
    | cons ty types =>
      exact (head.coerced law ty).andThen fun _ => (ih types).andThen fun _ => .pure rfl

theorem callAs_same (ty ret : IrType) (callee : Operand) (values : List Value) :
    p.Same (Emit.callAs ty ret callee values) :=
  .ite ((emit_same _).andThen fun _ => .pure rfl) (emitValue_same _ _)

theorem call_same (ret : IrType) (callee : Operand) (values : List Value) :
    p.Same (Emit.call ret callee values) := callAs_same _ _ _ _

/-! ### Function values -/

include law each in
theorem callClosure_pairs (closure : Value) {ty : TypeRef} (allowed : p.allows ty = true) :
    p.OnBody Eq (Emit.callClosure closure args ty)
      (Emit.callClosure closure args' (p.image ty)) := by
  refine OnBody.orFail_same.andThen fun (ret, params) => ?_
  refine (emitValue_same _ _).andThen fun code => (emitValue_same _ _).andThen fun env => ?_
  refine (arguments_pairs law each params).andThen fun values => ?_
  refine (call_same _ _ _).andThen fun result => (law.resolve_pairs allowed).andThen fun target => ?_
  exact coerce_pairs result target (law.reads allowed _)

theorem makeClosure_same (symbol : String) (ret : IrType) (params : List IrType) (env : Operand) :
    p.Same (Emit.makeClosure symbol ret params env) :=
  (insertAt_same _ _ _).andThen fun _ => insertAt_same _ _ _

/-! ### Functions -/

variable {typeArgs : List TypeRef}

include law in
theorem functionTarget_pairs (name : String) (allowed : typeArgs.all p.allows = true) :
    p.OnBody Eq (Emit.functionTarget name typeArgs)
      (Emit.functionTarget name (typeArgs.map p.image)) :=
  .reading fun f locals frames => by
    rw [frames.subst]
    exact .lift (law.functionTarget name allowed)

include law in
theorem functionRef_pairs (name : String) (allowed : typeArgs.all p.allows = true) :
    p.OnBody Eq (Emit.functionRef name typeArgs) (Emit.functionRef name (typeArgs.map p.image)) :=
  (functionTarget_pairs law name allowed).andThen fun _ => makeClosure_same _ _ _ _

include law each in
theorem callExternal_pairs {e e' : ExternDecl} (h : p.Externs e e') :
    p.OnBody Eq (Emit.callExternal e args) (Emit.callExternal e' args') := by
  refine .reading fun f locals frames => ?_
  rw [frames.subst]
  refine (lift_same h.signature).andThen fun (params, ret) => ?_
  refine (arguments_pairs law each params).andThen fun values => ?_
  rw [h.name, h.variadic]
  exact callAs_same _ _ _ _

include law each in
theorem callFunction_pairs (name : String) (allowed : typeArgs.all p.allows = true) :
    p.OnBody Eq (Emit.callFunction name ⟨typeArgs, args⟩)
      (Emit.callFunction name ⟨typeArgs.map p.image, args'⟩) :=
  (functionTarget_pairs law name allowed).andThen fun (_, params, _) =>
    (arguments_pairs law each params).andThen fun _ => call_same _ _ _

include law each in
theorem callName_pairs {name : String} (callable : p.calls name = true)
    (typesAllowed : typeArgs.all p.allows = true) {ty : TypeRef} (allowed : p.allows ty = true) :
    p.OnBody Eq (Emit.callName name ⟨typeArgs, args⟩ ty)
      (Emit.callName name ⟨typeArgs.map p.image, args'⟩ (p.image ty)) := by
  refine (findLocal?_pairs name).bind fun l l' locals => ?_
  cases locals with
  | some related =>
    dsimp only
    rw [related.slot, related.ir]
    exact (load_same _ _).andThen fun closure => callClosure_pairs law each closure allowed
  | none =>
    refine .readingSession fun s s' paired => ?_
    have externs := law.externs paired callable
    generalize s.decls.externs.find? name = e at externs ⊢
    generalize s'.decls.externs.find? name = e' at externs ⊢
    cases externs with
    | some related => exact callExternal_pairs law each related
    | none => exact callFunction_pairs law each name typesAllowed

/-! ### Methods -/

variable {owner : String} {m m' : FunctionDecl} (method : p.method owner m m')

include law each method in
theorem callDirect_pairs (receiver : List Value) (allowed : typeArgs.all p.allows = true) :
    p.OnBody Eq (Emit.callDirect owner m receiver ⟨typeArgs, args⟩)
      (Emit.callDirect owner m' receiver ⟨typeArgs.map p.image, args'⟩) := by
  refine .reading fun f locals frames => ?_
  rw [frames.subst]
  refine (lift_same (law.methodTarget method allowed)).andThen fun (symbol, params, ret) => ?_
  exact (arguments_pairs law each params).andThen fun _ => call_same _ _ _

include law each method in
theorem callDispatched_pairs (name : String) (pointer : Operand) (receiver : Value) :
    p.OnBody Eq (Emit.callDispatched name pointer owner m receiver args)
      (Emit.callDispatched name pointer owner m' receiver args') := by
  unfold Emit.callDispatched
  rw [(law.methods method).name]
  refine (lift_same (law.structLayout name)).andThen fun layout => ?_
  refine OnBody.orFail_same.andThen fun field => ?_
  refine (lift_same (law.dispatchSlot?_pairs name m.name)).andThen fun slot? => ?_
  refine OnBody.orFail_same.andThen fun slot => ?_
  refine (lift_same (law.methodType method)).andThen fun ty => ?_
  refine (slotAddress_same _ _ _ _).andThen fun _ => (load_same _ _).andThen fun _ => ?_
  refine (emitValue_same _ _).andThen fun _ => (emitValue_same _ _).andThen fun _ => ?_
  refine (load_same _ _).andThen fun _ => (emitValue_same _ _).andThen fun _ => ?_
  refine (lift_same (law.methodSignature method)).andThen fun (params, ret) => ?_
  exact (arguments_pairs law each params).andThen fun _ => call_same _ _ _

include law in
theorem upcast_same (source : String) (pointer : Operand) (target : String) :
    p.Same (Emit.upcast source pointer target) :=
  (lift_same (law.ownerType_pairs source)).andThen fun _ => .ite (.pure rfl) <|
    (lift_same (law.ownerType_pairs target)).andThen fun _ => emitValue_same _ _

include law in
theorem receiverOf_pairs (h : p.Codes c c') (name : String) :
    p.OnBody Eq (Emit.receiverOf c name) (Emit.receiverOf c' name) := by
  refine (h.resolved law).andThen fun ty => ?_
  split
  · exact h.value.andThen fun _ => .pure rfl
  · exact h.value.andThen fun _ => .pure rfl
  · exact h.place.andThen fun _ => .pure rfl
  · exact h.place.andThen fun _ => .pure rfl
  · exact .fail

include law each in
theorem callMethod_pairs (h : p.Codes c c') (name : String)
    (allowed : typeArgs.all p.allows = true) :
    p.OnBody Eq (Emit.callMethod c name ⟨typeArgs, args⟩)
      (Emit.callMethod c' name ⟨typeArgs.map p.image, args'⟩) := by
  refine (receiverOf_pairs law h name).andThen fun (source, pointer) => ?_
  refine (OnBody.lift (law.lookupMethod source name)).bind ?_
  rintro ⟨owner, m⟩ ⟨owner', m'⟩ ⟨same, method⟩
  obtain rfl : owner' = owner := same
  have how := law.methods method
  dsimp only
  rw [how.isStatic, how.isVirtual]
  refine .ite (callDirect_pairs law each method [] allowed) ?_
  refine (upcast_same law source pointer owner').andThen fun this => ?_
  refine .readingSession fun s s' paired => ?_
  rw [law.enums paired]
  exact .ite (callDispatched_pairs law each method source pointer this)
    (callDirect_pairs law each method [this] allowed)

theorem ownerName_same (name : String) (ty : IrType) : p.Same (Emit.ownerName name ty) := by
  unfold Emit.ownerName
  split
  · exact .pure rfl
  · exact .pure rfl
  · exact .fail

include law each in
theorem callStatic_pairs {source : TypeRef} (ownerAllowed : p.allows source = true) (name : String)
    (allowed : typeArgs.all p.allows = true) :
    p.OnBody Eq (Emit.callStatic source name ⟨typeArgs, args⟩)
      (Emit.callStatic (p.image source) name ⟨typeArgs.map p.image, args'⟩) := by
  refine (law.resolve_pairs ownerAllowed).andThen fun ty => ?_
  refine (ownerName_same name ty).andThen fun source => ?_
  refine (OnBody.lift (law.lookupMethod source name)).bind ?_
  rintro ⟨owner, m⟩ ⟨owner', m'⟩ ⟨same, method⟩
  obtain rfl : owner' = owner := same
  dsimp only
  rw [(law.methods method).isStatic]
  exact .ite (callDirect_pairs law each method [] allowed) .fail

/-! ### Variables -/

include law in
theorem varValue_pairs (i i' : ExprInfo) (name : String) :
    p.OnBody Eq (Code.var i name).value (Code.var i' name).value := by
  refine (findLocal?_pairs name).bind fun l l' locals => ?_
  cases locals with
  | some related =>
    dsimp only
    rw [related.slot, related.ir]
    exact load_same _ _
  | none =>
    refine .readingSession fun s s' paired => ?_
    rw [law.functions paired]
    exact .ite (functionRef_pairs law name List.all_nil) .fail

theorem placeOr_pairs (name : String) {other other' : Emit Place} (h : p.OnBody Eq other other') :
    p.OnBody Eq
      (do match ← Emit.findLocal? name with
        | some l => return ⟨.reg l.slot, l.ir⟩
        | none => other)
      (do match ← Emit.findLocal? name with
        | some l => return ⟨.reg l.slot, l.ir⟩
        | none => other') := by
  refine (findLocal?_pairs name).bind fun l l' locals => ?_
  cases locals with
  | some related => exact .pure (by rw [related.slot, related.ir])
  | none => exact h

include law in
theorem var_pairs {i : ExprInfo} (allowed : p.allows i.ty = true) (name : String) :
    p.Codes (.var i name) (.var (i.mapType p.image) name) where
  allowed
  ty := rfl
  value := varValue_pairs law i _ name
  lvalue := placeOr_pairs name .fail
  place := placeOr_pairs name (materialize_pairs (varValue_pairs law i (i.mapType p.image) name))

/-! ### Lambdas -/

theorem storeCaptures_pairs (envType : IrType) (env : Operand) (captures : List Field)
    (types : List IrType) (i : Nat) :
    p.OnBody Eq (Emit.storeCaptures envType env (captures.zip types) i)
      (Emit.storeCaptures envType env ((captures.map (Field.mapType p.image)).zip types) i) := by
  induction captures generalizing types i with
  | nil => exact .pure rfl
  | cons capture rest ih =>
    cases types with
    | nil => exact .pure rfl
    | cons ty types =>
      refine (findLocal?_pairs capture.name).bind fun l l' locals => ?_
      refine (OnBody.orFail locals).bind fun l l' related => ?_
      rw [related.slot, related.ir]
      refine (load_typed _ _).bind fun v _ ⟨same, typed⟩ => ?_
      rw [same]
      have reads := related.reads
      rw [← typed] at reads
      refine (coerce_pairs v ty reads).andThen fun _ => (slotAddress_same _ _ _ _).andThen fun _ => ?_
      exact (store_same _ _).andThen fun _ => ih types (i + 1)

include law in
theorem makeEnvironment_pairs (name : String) (captures : List Field) (types : List IrType) :
    p.OnBody Eq (Emit.makeEnvironment name captures types)
      (Emit.makeEnvironment name (captures.map (Field.mapType p.image)) types) := by
  unfold Emit.makeEnvironment
  rw [List.isEmpty_map]
  refine .ite (.pure rfl) ((lift_same (law.defineEnvironment name types)).andThen fun _ => ?_)
  refine (lift_same (law.extent _)).andThen fun extent => (call_same _ _ _).andThen fun raw => ?_
  refine (emitValue_same _ _).andThen fun typed => ?_
  exact (storeCaptures_pairs _ _ captures types 0).andThen fun _ => .pure rfl

theorem map_ty_mapType (g : TypeRef → TypeRef) (fields : List Field) :
    (fields.map (Field.mapType g)).map Field.ty = (fields.map Field.ty).map g := by
  rw [List.map_map, List.map_map]
  rfl

include law in
theorem fieldTypes_pairs {fields : List Field} (allowed : Field.allTypes p.allows fields = true) :
    p.OnBody Eq (Emit.resolveAll (fields.map Field.ty))
      (Emit.resolveAll ((fields.map (Field.mapType p.image)).map Field.ty)) := by
  rw [map_ty_mapType]
  refine law.resolveAll_pairs ?_
  rw [List.all_map]
  exact allowed

include law in
theorem lambdaValue_pairs {i : ExprInfo} {params captures : List Field} {body : List Stmt}
    (typeAllowed : p.allows i.ty = true) (paramsAllowed : Field.allTypes p.allows params = true)
    (bodyAllowed : allStmts p.allows p.calls body = true)
    (capturesAllowed : Field.allTypes p.allows captures = true) :
    p.OnBody Eq (Emit.lambda i params body captures)
      (Emit.lambda (i.mapType p.image) (params.map (Field.mapType p.image))
        (mapStmts p.image body) (captures.map (Field.mapType p.image))) := by
  refine (law.concrete_pairs typeAllowed).bind fun t t' concrete => ?_
  cases concrete with
  | @function _ _ ret _ allowed =>
    refine (lift_same law.freshLambda).andThen fun id => .reading fun f locals frames => ?_
    rw [frames.symbol]
    refine (law.resolve_pairs allowed).andThen fun retType => ?_
    refine (fieldTypes_pairs law paramsAllowed).andThen fun paramTypes => ?_
    refine (fieldTypes_pairs law capturesAllowed).andThen fun captureTypes => ?_
    refine (makeEnvironment_pairs law _ captures captureTypes).andThen fun env => ?_
    refine (law.queueLambda id ?_).andThen fun _ => makeClosure_same _ _ _ _
    simp only [LiftedLambda.all, paramsAllowed, capturesAllowed, bodyAllowed, allowed, Bool.and_self]
  | other left right sign =>
    cases t with
    | function => cases left
    | _ =>
      cases t' with
      | function => cases right
      | _ => exact .fail

end Pairing

end Backend
