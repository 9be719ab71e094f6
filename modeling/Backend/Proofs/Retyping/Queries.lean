import Backend.Proofs.Retyping.Instances

/-!
What a body asks the session for, on both sides of a retyping. Under every substitution a body and
the body with its types replaced are lowered alike (`Walk.Lawful.pairing`).
-/

namespace Backend

variable {f m : FunctionDecl} {typeArgs typeArgs' : List TypeRef} {t : TypeRef}

namespace Walk

open Retyping

variable {R : Walk}

abbrev Resolves (R : Walk) : Prop := R.Resolvers Gen.resolve Gen.resolve

def pairing (R : Walk) (σ : Substitution) (symbol : String) : Pairing where
  toBeside := R.beside
  left := σ
  right := σ.retype R.type
  image := R.type
  allows := R.allows
  calls := fun _ => true
  method := fun _ m m' => m' = m.retype R.type ∧ R.function m = true
  symbol := symbol

section

variable (law : R.Lawful) (hr : R.Resolves) {σ : Substitution} (admits : R.Admits σ)

include hr in
theorem resolveAll_pairs {types : List TypeRef} (allowed : types.all R.allows = true)
    (admits : R.Admits σ) :
    R.beside.Answers (Gen.resolveAll types σ)
      (Gen.resolveAll (types.map R.type) (σ.retype R.type)) := by
  refine .mapM_same (List.forall₂_map_right_iff.mpr (List.forall₂_same.mpr fun t member => ?_))
  exact hr.answers (List.all_eq_true.mp allowed t member) admits

include hr in
theorem resolveSignature_pairs {params : List TypeRef} {ret : TypeRef}
    (hp : params.all R.allows = true) (allowed : R.allows ret = true) (admits : R.Admits σ) :
    R.beside.Answers (Gen.resolveSignature params ret σ)
      (Gen.resolveSignature (params.map R.type) (R.type ret) (σ.retype R.type)) :=
  (resolveAll_pairs hr hp admits).andThen fun _ => (hr.answers allowed admits).andThen fun _ =>
    .pure rfl

/-! ### Functions and methods -/

/-- Type arguments that come to the same on both sides. -/
abbrev Arguments (R : Walk) (σ σ' : Substitution) (args args' : List TypeRef) : Prop :=
  R.beside.OnSession (fun out out' => out' = out.map R.type ∧ out.all R.allows = true)
    (Gen.substituteAll σ args) (Gen.substituteAll σ' args')

section

variable {τ τ' : Substitution} (given : R.Arguments τ τ' typeArgs typeArgs')

include law given

theorem instantiateFunction_pairs (name : String) :
    R.beside.Answers (Gen.instantiateFunction name typeArgs τ)
      (Gen.instantiateFunction name typeArgs' τ') := by
  refine (find_function name _).bind ?_
  rintro f _ ⟨rfl, h⟩
  have signature := signature_of_function h
  have params : f.typeParams.all R.param = true := by
    simp only [Retyping.signature, Bool.and_eq_true] at signature
    exact signature.1.1
  refine given.bind ?_
  rintro args _ ⟨rfl, argsAllowed⟩
  refine (checkArity_pairs name f.typeParams args).bind fun _ _ _ => ?_
  have inner := admits_ofParams params argsAllowed
  dsimp only [FunctionDecl.retype]
  rw [← retype_ofParams]
  have types : (FunctionDecl.retype R.type f).paramTypes = f.paramTypes.map R.type :=
    paramTypes_retype R.type f
  simp only [FunctionDecl.retype] at types
  rw [types]
  refine (substituteAll_pairs law inner (paramTypes_allowed signature)).bind ?_
  rintro out _ ⟨rfl, outAllowed⟩
  refine (functionName_pairs law name outAllowed argsAllowed).andThen fun symbol => ?_
  have waits : R.Waits ⟨symbol, .function name, .ofParams f.typeParams args⟩ :=
    waits_declared inner fun _ => BodySource.noConfusion
  exact (requestBody_pairs law name args waits).andThen fun _ => .pure rfl

abbrev Targets (R : Walk) (target target' : String × Substitution) : Prop :=
  target' = (target.1, target.2.retype R.type) ∧ R.Admits target.2

omit given in
theorem functionSymbol_pairs (h : R.signature f = true) :
    R.beside.Answers (Gen.functionSymbol f) (Gen.functionSymbol (f.retype R.type)) := by
  unfold Gen.functionSymbol
  rw [paramTypes_retype]
  exact .ite Iff.rfl (fun _ => .pure rfl) fun _ =>
    functionName_pairs law f.name (paramTypes_allowed h) List.all_nil

theorem functionInstance_pairs (name : String) (h : R.signature f = true) :
    R.beside.OnSession R.Targets (Gen.functionInstance name f typeArgs τ)
      (Gen.functionInstance name (f.retype R.type) typeArgs' τ') := by
  refine .ite Iff.rfl (fun _ => ?_) fun _ => ?_
  · refine (instantiateFunction_pairs law given name).andThen fun symbol => ?_
    refine given.bind ?_
    rintro args _ ⟨rfl, argsAllowed⟩
    simp only [signature, Bool.and_eq_true] at h
    refine .pure ⟨?_, admits_ofParams h.1.1 argsAllowed⟩
    rw [retype_ofParams]
    rfl
  · exact (functionSymbol_pairs law h).andThen fun _ => .pure ⟨rfl, admits_empty⟩

include hr in
theorem functionTarget_pairs (name : String) :
    R.beside.Answers (Gen.functionTarget name typeArgs τ)
      (Gen.functionTarget name typeArgs' τ') := by
  refine (find_function name _).bind ?_
  rintro f _ ⟨rfl, h⟩
  have signature := signature_of_function h
  refine (functionInstance_pairs law given name signature).bind ?_
  rintro ⟨symbol, τ⟩ _ ⟨rfl, inner⟩
  rw [paramTypes_retype]
  exact (resolveSignature_pairs hr (paramTypes_allowed signature) (return_allowed signature)
    inner).andThen fun _ => .pure rfl

omit law given in
theorem ownerSubstitution_pairs (bodies : R.bodies) (owner : String) :
    R.beside.OnSession (fun τ τ' => τ' = τ.retype R.type ∧ R.Admits τ)
      (Gen.ownerSubstitution owner) (Gen.ownerSubstitution owner) := by
  refine reads fun s depth queue holds => .pure ?_
  simp only [Session.retype, Table.find?_map]
  cases found : s.ownerSubst.find? owner with
  | none => exact ⟨rfl, admits_empty⟩
  | some τ => exact ⟨rfl, holds.owners bodies τ (Table.mem_values_of_find? found)⟩

theorem instantiateMethod_pairs (bodies : R.bodies) (owner : String)
    (h : R.signature m = true) :
    R.beside.OnSession R.Targets (Gen.instantiateMethod owner m typeArgs τ)
      (Gen.instantiateMethod owner (m.retype R.type) typeArgs' τ') := by
  have params : m.typeParams.all R.param = true := by
    simp only [signature, Bool.and_eq_true] at h
    exact h.1.1
  refine given.bind ?_
  rintro args _ ⟨rfl, argsAllowed⟩
  refine (checkArity_pairs _ m.typeParams args).bind fun _ _ _ => ?_
  refine (ownerSubstitution_pairs bodies owner).bind ?_
  rintro τ _ ⟨rfl, outer⟩
  have inner := outer.extended (admits_ofParams params argsAllowed)
  have same : (τ.retype R.type).extended (.ofParams m.typeParams (args.map R.type)) =
      (τ.extended (.ofParams m.typeParams args)).retype R.type := by
    rw [retype_extended, retype_ofParams]
  rw [paramTypes_retype]
  dsimp only [FunctionDecl.retype]
  rw [same]
  refine (substituteAll_pairs law inner (paramTypes_allowed h)).bind ?_
  rintro out _ ⟨rfl, outAllowed⟩
  refine (methodName_pairs law owner m.name outAllowed argsAllowed).andThen fun symbol => ?_
  have waits : R.Waits ⟨symbol, .method owner m.name, τ.extended (.ofParams m.typeParams args)⟩ :=
    waits_declared inner fun _ => BodySource.noConfusion
  exact (requestBody_pairs law _ args waits).andThen fun _ => .pure ⟨rfl, inner⟩

theorem methodInstance_pairs (bodies : R.bodies) (owner : String)
    (h : R.signature m = true) :
    R.beside.OnSession R.Targets (Gen.methodInstance owner m typeArgs τ)
      (Gen.methodInstance owner (m.retype R.type) typeArgs' τ') :=
  .ite Iff.rfl (fun _ => instantiateMethod_pairs law given bodies owner h) fun _ =>
    (methodSymbol_pairs law owner h).andThen fun _ => .pure ⟨rfl, admits_empty⟩

include hr in
theorem methodTarget_pairs (bodies : R.bodies) (owner : String) (h : R.signature m = true) :
    R.beside.Answers (Gen.methodTarget owner m typeArgs τ)
      (Gen.methodTarget owner (m.retype R.type) typeArgs' τ') := by
  refine (methodInstance_pairs law given bodies owner h).bind ?_
  rintro ⟨symbol, τ⟩ _ ⟨rfl, inner⟩
  rw [paramTypes_retype]
  exact (resolveSignature_pairs hr (paramTypes_allowed h) (return_allowed h) inner).andThen fun _ =>
    .pure rfl

end

include hr in
theorem lookupMethod_pairs (name method : String) :
    R.beside.OnSession (fun m m' => m'.1 = m.1 ∧ m'.2 = m.2.retype R.type ∧ R.function m.2 = true)
      (Gen.lookupMethod name method) (Gen.lookupMethod name method) := by
  refine reads fun s depth queue holds => ?_
  simp only [Session.retype, Declarations.retype, Table.find?_map]
  cases found : s.decls.enums.find? name with
  | some e =>
    have searched : (e.retype R.type).method? method =
        (e.method? method).map (FunctionDecl.retype R.type) := method?_retype _ _ _
    simp only [Option.map_some, searched]
    refine (orFail_map (P := fun m => R.function m = true) fun m search => ?_).bind ?_
    · have allowed := holds.decls.enums e (Table.mem_values_of_find? found)
      simp only [enum, Bool.and_eq_true] at allowed
      exact List.all_eq_true.mp allowed.2 m (List.mem_of_find?_eq_some search)
    · rintro m _ ⟨rfl, allowed⟩
      exact .pure ⟨rfl, rfl, allowed⟩
  | none =>
    refine (findMethod_pairs hr name method).bind fun result result' related => ?_
    refine (Beside.OnSession.orFail related).imp ?_
    rintro ⟨owner, m⟩ _ ⟨rfl, allowed⟩
    exact ⟨rfl, rfl, allowed⟩

/-! ### The laws of a pairing -/

include law admits

theorem reads_pairs (symbol : String) (allowed : R.allows t = true) (ty : IrType) :
    (R.pairing σ symbol).Reads ty t (R.type t) := by
  refine (substitute_pairs law admits allowed).imp ?_
  rintro out _ ⟨rfl, outAllowed⟩ _
  exact law.sign outAllowed

theorem concrete_pairs (symbol : String) (allowed : R.allows t = true) :
    R.beside.OnSession (R.pairing σ symbol).Concrete (Gen.substitute σ t)
      (Gen.substitute (σ.retype R.type) (R.type t)) := by
  refine (substitute_pairs law admits allowed).imp ?_
  rintro out _ ⟨rfl, outAllowed⟩
  cases shape : out.isFunction with
  | false => exact .other shape (law.other outAllowed shape) (law.sign outAllowed)
  | true =>
    cases out with
    | function params ret variadic =>
      obtain ⟨retAllowed, params', same⟩ := law.function outAllowed
      rw [same]
      exact .function retAllowed
    | _ => cases shape

theorem receiver_pairs (symbol owner : String) (ty : IrType) :
    (R.pairing σ symbol).Reads (.ptr ty) (.pointerTo (.ofName owner) 1)
      (.pointerTo (.ofName owner) 1) := by
  have fits := @Lawful.receiver R law σ owner admits
  unfold Pairing.Reads Gen.substitute
  dsimp only [pairing]
  exact .inRange fits (.pure nofun)

theorem variants_pairs (symbol : String) {v : VariantLayout}
    (allowed : v.sources.all R.allows = true) :
    (R.pairing σ symbol).Variants v (v.retype R.type) where
  tag := rfl
  payload := rfl
  reads := by
    simp only [VariantLayout.retype, List.zip_map_right]
    refine List.forall₂_map_right_iff.mpr (List.forall₂_same.mpr fun field member => ⟨rfl, ?_⟩)
    have source := (List.of_mem_zip (b := field.2) (a := field.1) member).2
    exact reads_pairs law admits symbol (List.all_eq_true.mp allowed _ source) _

include hr

theorem enumLayout_pairs (bodies : R.bodies) (symbol name : String) :
    R.beside.OnSession (R.pairing σ symbol).Enums (Gen.enumLayout name) (Gen.enumLayout name) := by
  refine (define_pairs hr law .enum name).andThen fun _ => reads fun s depth queue holds => ?_
  simp only [Session.retype, Layouts.retype, Table.find?_map]
  refine (orFail_map (P := fun l => R.Payloads l.variants) fun l found => ?_).imp ?_
  · exact holds.payloads l (Table.mem_values_of_find? found)
  · rintro l _ ⟨rfl, payloads⟩
    refine ⟨rfl, rfl, Table.related_map _ _ _ fun v member => ?_⟩
    exact variants_pairs law admits symbol (payloads bodies v member).1

omit hr law admits in
theorem internString_pairs (text : String) :
    R.beside.Answers (Gen.internString text) (Gen.internString text) :=
  reads fun _ _ _ _ => Beside.OnSession.andThen
    (updates_alike (fun _ _ _ => rfl) (fun _ => rfl)
      fun _ => by constructor <;> rfl) fun _ => .pure rfl

omit admits in
theorem describeFunction_pairs (name : String) (ret : IrType) (location : Location) :
    R.beside.Answers (Gen.describeFunction name ret location)
      (Gen.describeFunction name ret location) := by
  refine collecting law (fun strict => ?_) (.pure rfl)
  refine (describeType_pairs (define_pairs hr law) strict ret).andThen fun _ => ?_
  exact (tell_pairs _).andThen fun _ => tell_pairs _

omit hr law admits in
theorem describeLocation_pairs (location : Location) (scope : Nat) :
    R.beside.Answers (Gen.describeLocation location scope) (Gen.describeLocation location scope) :=
  .ite Iff.rfl (fun _ => .pure rfl) fun _ => tell_pairs _

omit hr law admits in
theorem freshLambda_pairs : R.beside.Answers Gen.freshLambda Gen.freshLambda :=
  reads fun _ _ _ _ => Beside.OnSession.andThen
    (updates_alike (fun _ _ _ => rfl) (fun _ => rfl)
      fun _ => by constructor <;> rfl) fun _ => .pure rfl

omit hr in
theorem queueLambda_pairs (emits : R.emits = true) (symbol name : String) {l : LiftedLambda}
    (h : R.Lambda l) :
    (R.pairing σ symbol).OnBody Eq (Emit.queueLambda name l)
      (Emit.queueLambda name (l.mapTypes R.type)) := by
  refine .reading fun f locals frames => ?_
  rw [frames.subst]
  refine Pairing.lift_same (.update fun s s' paired => ⟨?_, paired.depth, ?_, ?_⟩)
  · have requested := InstanceTable.request_retype R.type s.instances "lambda" [] name
    simp only [List.map_nil] at requested
    have same := Sessions.same paired
    rw [same]
    simp only [Session.retype, requested]
  · have waits : R.Waits ⟨name, .lambda l, σ⟩ :=
      ⟨admits, fun l' same => by cases same; exact ⟨emits, h⟩⟩
    exact law.push paired.queue waits
  · have held := Sessions.holds paired
    exact { held with }

omit admits in
theorem Lawful.questions : Pairing.Questions R.beside
    fun _ m m' => m' = m.retype R.type ∧ R.function m = true where
  enums := fun {s s'} paired name => by
    rw [Sessions.same paired]
    exact Table.contains_map _ _ _
  functions := fun {s s'} paired name => by
    rw [Sessions.same paired]
    exact Table.contains_map _ _ _
  structLayout := structLayout_pairs (define_pairs hr law)
  extent := extent_pairs (define_pairs hr law)
  dispatchLayout := dispatchLayout_pairs hr
  lookupMethod := fun owner name => (lookupMethod_pairs hr owner name)
  methods := by
    rintro _ m _ ⟨rfl, -⟩
    exact ⟨rfl, rfl, rfl⟩
  methodType := by
    rintro owner m _ ⟨rfl, allowed⟩
    exact methodType_pairs hr owner (signature_of_function allowed) admits_empty
  methodSignature := by
    rintro owner m _ ⟨rfl, allowed⟩
    have signature := signature_of_function allowed
    rw [paramTypes_retype]
    exact resolveSignature_pairs hr (paramTypes_allowed signature) (return_allowed signature)
      admits_empty
  internString := internString_pairs
  describeFunction := describeFunction_pairs law hr
  describeLocation := describeLocation_pairs
  freshLambda := freshLambda_pairs
  defineEnvironment := fun _ _ => modifyOutput_pairs _

theorem Lawful.pairing (emits : R.emits = true) (bodies : R.bodies) (symbol : String) :
    (R.pairing σ symbol).Lawful where
  toQuestions := law.questions hr
  externs := fun {s s'} paired {name} _ => by
    rw [Sessions.same paired]
    simp only [Session.retype, Declarations.retype, Table.find?_map]
    cases found : s.decls.externs.find? name with
    | none => exact .none
    | some e =>
      have allowed := (Sessions.holds paired).decls.externs e (Table.mem_values_of_find? found)
      simp only [external, Bool.and_eq_true] at allowed
      refine .some ⟨rfl, rfl, ?_⟩
      simp only [ExternDecl.retype, Pairing.map_ty_mapType]
      refine resolveSignature_pairs hr ?_ allowed.2 admits
      rw [List.all_map]
      exact allowed.1
  resolve := fun allowed => hr.answers allowed admits
  substitute := fun allowed => concrete_pairs law admits symbol allowed
  receiver := fun owner ty => receiver_pairs law admits symbol owner ty
  enumLayout := enumLayout_pairs law hr admits bodies symbol
  functionTarget := fun name {_} allowed =>
    functionTarget_pairs law hr (substituteAll_pairs law admits allowed) name
  methodTarget := by
    rintro owner m _ typeArgs ⟨rfl, allowed⟩ types
    exact methodTarget_pairs law hr (substituteAll_pairs law admits types) bodies owner
      (signature_of_function allowed)
  queueLambda := fun id {_} h => queueLambda_pairs law admits emits symbol _ h

end

end Walk

end Backend
