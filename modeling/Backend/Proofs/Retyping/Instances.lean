import Backend.Proofs.Retyping.Rules

/-!
Instances of templates on both sides of a retyping. Substitution and replacement of types can be
done in either order, so the instance that is made on the right is the left one with its types
replaced.
-/

namespace Backend

variable {f : FunctionDecl} {fields : List Field} {methods : List FunctionDecl}
  {args types : List TypeRef} {p : Pending} {name : String} {d : StructDecl} {σ : Substitution}
  {t : Template} {v : Variant}

/-! ### Instance records -/

namespace InstanceTable

variable (g : TypeRef → TypeRef) (t : InstanceTable) (base : String) (args : List TypeRef)
  (name : String)

theorem request_retype :
    request (t.map (InstanceRecord.retype g)) base (args.map g) name =
      ((request t base args name).1, (request t base args name).2.map (InstanceRecord.retype g)) := by
  unfold request
  rw [Table.contains_map]
  split
  · rfl
  · rw [Table.map_insert]
    rfl

theorem begin_retype :
    begin (t.map (InstanceRecord.retype g)) base (args.map g) name =
      ((begin t base args name).1, (begin t base args name).2.map (InstanceRecord.retype g)) := by
  unfold begin
  rw [Table.find?_map]
  cases t.find? name with
  | none => rw [Table.map_insert]; rfl
  | some r =>
    simp only [Option.map_some, InstanceRecord.retype]
    split
    · rw [Table.map_insert]; rfl
    · rfl

theorem complete_retype :
    complete (t.map (InstanceRecord.retype g)) name =
      (complete t name).map (InstanceRecord.retype g) := by
  unfold complete
  rw [Table.find?_map]
  cases t.find? name with
  | none => rfl
  | some r => rw [Option.map_some, Table.map_insert]; rfl

end InstanceTable

/-! ### Templates -/

namespace Template

def retype (g : TypeRef → TypeRef) : Template → Template
  | .struct d => .struct (d.retype g)
  | .enum d => .enum (d.retype g)

end Template

namespace Walk

open Retyping

variable {R : Walk}

def template (R : Walk) : Template → Bool
  | .struct d => R.struct d
  | .enum d => R.enum d

theorem typeParams_retype (g : TypeRef → TypeRef) (t : Template) :
    (t.retype g).typeParams = t.typeParams := by
  cases t <;> rfl

theorem typeParams_allowed (h : R.template t = true) : t.typeParams.all R.param = true := by
  cases t with
  | struct d =>
    simp only [template, struct, Bool.and_eq_true] at h
    exact h.1.1.1
  | enum d =>
    simp only [template, enum, Bool.and_eq_true] at h
    exact h.1.1

theorem find_pairs (kind : DeclKind) (name : String) :
    R.beside.OnSession
      (fun t t' => t' = t.retype R.type ∧ R.template t = true ∧ R.named name t.typeParams = true)
      (Template.find kind name) (Template.find kind name) := by
  cases kind with
  | struct =>
    refine reads fun s depth queue holds => ?_
    simp only [Session.retype, Declarations.retype, Table.find?_map]
    refine (orFail_map fun d found => And.intro
      (holds.decls.structs d (Table.mem_values_of_find? found))
      (holds.decls.structNames (name, d) (Table.mem_of_lookup found))).bind ?_
    rintro d _ ⟨rfl, allowed⟩
    exact .pure ⟨rfl, allowed⟩
  | enum =>
    refine reads fun s depth queue holds => ?_
    simp only [Session.retype, Declarations.retype, Table.find?_map]
    refine (orFail_map fun d found => And.intro
      (holds.decls.enums d (Table.mem_values_of_find? found))
      (holds.decls.enumNames (name, d) (Table.mem_of_lookup found))).bind ?_
    rintro d _ ⟨rfl, allowed⟩
    exact .pure ⟨rfl, allowed⟩

/-! ### Substitution -/

section

variable (law : R.Lawful) {σ : Substitution} (admits : R.Admits σ)

include law

theorem allFit_map (allowed : types.all R.allows = true) :
    R.beside.Bounds (TypeRef.allFit types) (TypeRef.allFit (types.map R.type)) := by
  induction types with
  | nil => exact .of_eq rfl
  | cons t rest ih =>
    simp only [List.all_cons, Bool.and_eq_true] at allowed
    exact (law.fits allowed.1).and (ih allowed.2)

include admits

theorem applyAll_allowed (allowed : types.all R.allows = true) :
    (σ.applyAll types).all R.allows = true := by
  rw [Substitution.applyAll, List.all_map, List.all_eq_true]
  exact fun t member => (law.apply (List.all_eq_true.mp allowed t member) admits).1

theorem applyAll_retype (allowed : types.all R.allows = true) :
    (σ.retype R.type).applyAll (types.map R.type) = (σ.applyAll types).map R.type := by
  rw [Substitution.applyAll, Substitution.applyAll, List.map_map, List.map_map]
  exact List.map_congr_left fun t member =>
    (law.apply (List.all_eq_true.mp allowed t member) admits).2

theorem substitute_pairs {t : TypeRef} (allowed : R.allows t = true) :
    R.beside.OnSession (fun out out' => out' = R.type out ∧ R.allows out = true)
      (Gen.substitute σ t) (Gen.substitute (σ.retype R.type) (R.type t)) := by
  obtain ⟨result, same⟩ := law.apply allowed admits
  unfold Gen.substitute
  dsimp only
  rw [same]
  exact .inRange (law.fits result) (.pure ⟨rfl, result⟩)

theorem substituteAll_pairs (allowed : types.all R.allows = true) :
    R.beside.OnSession (fun out out' => out' = out.map R.type ∧ out.all R.allows = true)
      (Gen.substituteAll σ types) (Gen.substituteAll (σ.retype R.type) (types.map R.type)) := by
  have result := applyAll_allowed law admits allowed
  unfold Gen.substituteAll
  dsimp only
  rw [applyAll_retype law admits allowed]
  exact .inRange (allFit_map law result) (.pure ⟨rfl, result⟩)

theorem applyField_retype {f : Field} (allowed : R.allows f.ty = true) :
    (σ.retype R.type).applyField (f.mapType R.type) = (σ.applyField f).mapType R.type := by
  simp only [Substitution.applyField, Field.mapType, (law.apply allowed admits).2]

theorem fields_retype (allowed : Field.allTypes R.allows fields = true) :
    (fields.map (Field.mapType R.type)).map (σ.retype R.type).applyField =
      (fields.map σ.applyField).map (Field.mapType R.type) := by
  rw [List.map_map, List.map_map]
  exact List.map_congr_left fun f member =>
    applyField_retype law admits (List.all_eq_true.mp allowed f member)

theorem fields_allowed (allowed : Field.allTypes R.allows fields = true) :
    Field.allTypes R.allows (fields.map σ.applyField) = true := by
  rw [Field.allTypes, List.all_map, List.all_eq_true]
  exact fun f member => (law.apply (List.all_eq_true.mp allowed f member) admits).1

theorem applySignature_retype (h : R.function f = true) :
    (σ.retype R.type).applySignature (f.retype R.type) = (σ.applySignature f).retype R.type := by
  have inner := admits.without f.typeParams
  simp only [function, signature, Bool.and_eq_true] at h
  unfold Substitution.applySignature
  simp only [FunctionDecl.retype]
  rw [← retype_without, fields_retype law inner h.1.1.2, (law.apply h.1.2 inner).2]

theorem applySignature_allowed (h : R.function f = true) :
    R.function (σ.applySignature f) = true := by
  have inner := admits.without f.typeParams
  simp only [function, signature, Bool.and_eq_true] at h ⊢
  exact ⟨⟨⟨h.1.1.1, fields_allowed law inner h.1.1.2⟩, (law.apply h.1.2 inner).1⟩, h.2⟩

theorem methods_retype (h : methods.all R.function = true) :
    (methods.map (FunctionDecl.retype R.type)).map (σ.retype R.type).applySignature =
      (methods.map σ.applySignature).map (FunctionDecl.retype R.type) := by
  rw [List.map_map, List.map_map]
  exact List.map_congr_left fun m member =>
    applySignature_retype law admits (List.all_eq_true.mp h m member)

theorem methods_allowed (h : methods.all R.function = true) :
    (methods.map σ.applySignature).all R.function = true := by
  rw [List.all_map, List.all_eq_true]
  exact fun m member => applySignature_allowed law admits (List.all_eq_true.mp h m member)

theorem applyStruct_retype (h : R.struct d = true) (name : String) :
    (σ.retype R.type).applyStruct (d.retype R.type) name =
      (σ.applyStruct d name).retype R.type := by
  simp only [struct, Bool.and_eq_true] at h
  obtain ⟨⟨⟨-, parent⟩, fields⟩, methods⟩ := h
  unfold Substitution.applyStruct
  simp only [StructDecl.retype]
  rw [fields_retype law admits fields, methods_retype law admits methods]
  cases found : d.parent with
  | none => rfl
  | some t =>
    rw [found, Option.all_some] at parent
    simp only [Option.map_some, (law.apply parent admits).2]

theorem applyStruct_allowed (h : R.struct d = true) (name : String) :
    R.struct (σ.applyStruct d name) = true := by
  simp only [struct, Bool.and_eq_true] at h ⊢
  obtain ⟨⟨⟨-, parent⟩, fields⟩, methods⟩ := h
  refine ⟨⟨⟨rfl, ?_⟩, fields_allowed law admits fields⟩, methods_allowed law admits methods⟩
  change (d.parent.map σ.apply).all R.allows = true
  cases found : d.parent with
  | none => rfl
  | some t =>
    rw [found, Option.all_some] at parent
    exact (law.apply parent admits).1

theorem applyVariant_retype (allowed : v.payloadTypes.all R.allows = true) :
    (σ.retype R.type).applyVariant (v.retype R.type) = (σ.applyVariant v).retype R.type := by
  obtain ⟨name, payload⟩ := v
  cases payload with
  | none => rfl
  | some p =>
    cases p with
    | tuple types =>
      replace allowed : types.all R.allows = true := allowed
      have same := applyAll_retype law admits allowed
      simp only [Substitution.applyVariant, Variant.retype, Option.map_some, Payload.retype,
        Substitution.applyPayload, same]
    | struct fields =>
      simp only [Variant.payloadTypes, List.all_map] at allowed
      simp only [Substitution.applyVariant, Variant.retype, Option.map_some, Payload.retype,
        Substitution.applyPayload, fields_retype law admits allowed]

theorem applyVariant_allowed (allowed : v.payloadTypes.all R.allows = true) :
    (σ.applyVariant v).payloadTypes.all R.allows = true := by
  obtain ⟨name, payload⟩ := v
  cases payload with
  | none => rfl
  | some p =>
    cases p with
    | tuple types => exact applyAll_allowed law admits allowed
    | struct fields =>
      simp only [Variant.payloadTypes, List.all_map] at allowed
      simp only [Substitution.applyVariant, Option.map_some, Substitution.applyPayload,
        Variant.payloadTypes]
      rw [List.all_map]
      exact fields_allowed law admits allowed

theorem applyEnum_retype {d : EnumDecl} (h : R.enum d = true) (name : String) :
    (σ.retype R.type).applyEnum (d.retype R.type) name = (σ.applyEnum d name).retype R.type := by
  simp only [enum, Bool.and_eq_true] at h
  unfold Substitution.applyEnum
  simp only [EnumDecl.retype]
  have variants : (d.variants.map (Variant.retype R.type)).map (σ.retype R.type).applyVariant =
      (d.variants.map σ.applyVariant).map (Variant.retype R.type) := by
    rw [List.map_map, List.map_map]
    exact List.map_congr_left fun v member =>
      applyVariant_retype law admits (List.all_eq_true.mp h.1.2 v member)
  rw [methods_retype law admits h.2, variants]

theorem applyEnum_allowed {d : EnumDecl} (h : R.enum d = true) (name : String) :
    R.enum (σ.applyEnum d name) = true := by
  simp only [enum, Bool.and_eq_true] at h ⊢
  refine ⟨⟨rfl, ?_⟩, methods_allowed law admits h.2⟩
  change (d.variants.map σ.applyVariant).all _ = true
  rw [List.all_map, List.all_eq_true]
  exact fun v member => applyVariant_allowed law admits (List.all_eq_true.mp h.1.2 v member)

end

section

variable (law : R.Lawful)

include law

theorem fieldsFit_map (allowed : Field.allTypes R.allows fields = true) :
    R.beside.Bounds (TypeRef.allFit (fields.map Field.ty))
      (TypeRef.allFit ((fields.map (Field.mapType R.type)).map Field.ty)) := by
  rw [Pairing.map_ty_mapType]
  refine allFit_map law ?_
  rw [List.all_map]
  exact allowed

theorem signatureFits_retype (h : R.function f = true) :
    R.beside.Bounds f.signatureFits (f.retype R.type).signatureFits := by
  simp only [function, signature, Bool.and_eq_true] at h
  exact (fieldsFit_map law h.1.1.2).and (law.fits h.1.2)

theorem methodsFit_retype (h : methods.all R.function = true) :
    R.beside.Bounds (methods.all FunctionDecl.signatureFits)
      ((methods.map (FunctionDecl.retype R.type)).all FunctionDecl.signatureFits) :=
  .all fun m member => signatureFits_retype law (List.all_eq_true.mp h m member)

theorem structFits_retype (h : R.struct d = true) :
    R.beside.Bounds d.fits (d.retype R.type).fits := by
  simp only [struct, Bool.and_eq_true] at h
  obtain ⟨⟨⟨-, parent⟩, fields⟩, methods⟩ := h
  have parents : R.beside.Bounds (d.parent.all TypeRef.fits)
      ((d.parent.map R.type).all TypeRef.fits) := by
    cases found : d.parent with
    | none => exact .of_eq rfl
    | some t =>
      rw [found, Option.all_some] at parent
      exact law.fits parent
  exact (parents.and (fieldsFit_map law fields)).and (methodsFit_retype law methods)

theorem enumFits_retype {d : EnumDecl} (h : R.enum d = true) :
    R.beside.Bounds d.fits (d.retype R.type).fits := by
  simp only [enum, Bool.and_eq_true] at h
  refine Beside.Bounds.and (.all fun v member => ?_) (methodsFit_retype law h.2)
  rw [payloadTypes_retype]
  exact allFit_map law (List.all_eq_true.mp h.1.2 v member)

/-! ### Steps of an instance -/

theorem declare_pairs (h : R.template t = true) (admits : R.Admits σ)
    (named : R.named name [] = true) : R.beside.OnSession
      (fun methods methods' => methods' = methods.map (FunctionDecl.retype R.type) ∧
        methods.all R.function = true)
      (t.declare σ name) ((t.retype R.type).declare (σ.retype R.type) name) := by
  cases t with
  | struct d =>
    have allowed := applyStruct_allowed law admits h name
    simp only [Template.retype, Template.declare]
    rw [applyStruct_retype law admits h name]
    refine .inRange (structFits_retype law allowed) ?_
    refine Beside.OnSession.andThen
      (updates (fun s depth queue => ?_) (fun _ => ⟨rfl, rfl⟩) fun s holds => ?_)
      fun _ => .pure ⟨rfl, ?_⟩
    · simp only [Session.retype, Declarations.retype, Table.map_insert]
    · refine { holds with decls := { holds.decls with
        structs := fun other member => ?_
        structNames := fun e member => ?_ } }
      · rcases Table.mem_values_insert member with rfl | given
        · exact allowed
        · exact holds.decls.structs other given
      · rcases Table.mem_insertEntry member with rfl | given
        · exact named
        · exact holds.decls.structNames e given
    · simp only [struct, Bool.and_eq_true] at allowed
      exact allowed.2
  | enum d =>
    have allowed := applyEnum_allowed law admits h name
    simp only [Template.retype, Template.declare]
    rw [applyEnum_retype law admits h name]
    refine .inRange (enumFits_retype law allowed) ?_
    refine Beside.OnSession.andThen
      (updates (fun s depth queue => ?_) (fun _ => ⟨rfl, rfl⟩) fun s holds => ?_)
      fun _ => .pure ⟨rfl, ?_⟩
    · simp only [Session.retype, Declarations.retype, Table.map_insert]
    · refine { holds with decls := { holds.decls with
        enums := fun other member => ?_
        enumNames := fun e member => ?_ } }
      · rcases Table.mem_values_insert member with rfl | given
        · exact allowed
        · exact holds.decls.enums other given
      · rcases Table.mem_insertEntry member with rfl | given
        · exact named
        · exact holds.decls.enumNames e given
    · simp only [enum, Bool.and_eq_true] at allowed
      exact allowed.2

omit law

theorem checkArity_pairs (decl : String) (params : List String) (args : List TypeRef) :
    R.beside.OnSession (fun _ _ => params.length = args.length) (checkArity decl params args)
      (checkArity decl params (args.map R.type)) := by
  unfold checkArity
  rw [List.length_map]
  exact .ite Iff.rfl (fun same => .pure same) fun _ => .fail

theorem beginInstance_pairs (base : String) (args : List TypeRef) (name : String) :
    R.beside.Answers (Gen.beginInstance base args name)
      (Gen.beginInstance base (args.map R.type) name) := by
  refine reads fun s depth queue _ => ?_
  simp only [Session.retype, InstanceTable.begin_retype]
  refine Beside.OnSession.andThen ?_ fun _ => .pure rfl
  exact updates_alike (fun _ _ _ => rfl) (fun _ => rfl) fun _ => by constructor <;> rfl

theorem completeInstance_pairs (name : String) :
    R.beside.Answers (Gen.completeInstance name) (Gen.completeInstance name) := by
  refine updates_alike (fun s depth queue => ?_) (fun _ => rfl) fun _ => by constructor <;> rfl
  simp only [Session.retype, InstanceTable.complete_retype]

theorem pushPending_pairs (law : R.Lawful) (waits : R.Waits p) :
    R.beside.Answers (modify fun s => { s with pending := s.pending.push p } : Gen Unit)
      (modify fun s => { s with pending := s.pending.push (p.retype R.type) }) := by
  refine .update fun s s' paired => ⟨?_, paired.depth, law.push paired.queue waits, ?_⟩
  · have same := paired.same
    rw [same]
    rfl
  · have held := paired.holds
    exact { held with }

theorem requestBody_pairs (law : R.Lawful) (base : String) (args : List TypeRef)
    (waits : R.Waits p) :
    R.beside.Answers (Gen.requestBody base args p)
      (Gen.requestBody base (args.map R.type) (p.retype R.type)) := by
  refine reads fun s depth queue _ => ?_
  have same : (p.retype R.type).symbol = p.symbol := rfl
  simp only [Session.retype, same, InstanceTable.request_retype]
  refine Beside.OnSession.andThen (updates_alike (fun _ _ _ => rfl) (fun _ => rfl)
    fun _ => by constructor <;> rfl)
    fun _ => ?_
  exact .ite Iff.rfl (fun _ => pushPending_pairs law waits) fun _ => .pure rfl

theorem waits_declared {symbol : String} {source : BodySource} (admits : R.Admits σ)
    (declared : ∀ l, source ≠ .lambda l) : R.Waits { symbol, source, substitution := σ } :=
  ⟨admits, fun l same => (declared l same).elim⟩

include law

theorem queueMethods_pairs (owner : String) (h : methods.all R.function = true)
    (admits : R.Admits σ) : R.beside.Answers (queueMethods owner methods σ)
      (queueMethods owner (methods.map (FunctionDecl.retype R.type)) (σ.retype R.type)) := by
  unfold queueMethods
  rw [List.filter_map]
  refine .forM (List.forall₂_map_right_iff.mpr (List.forall₂_same.mpr fun m member => ?_))
  have allowed := List.all_eq_true.mp h m (List.mem_filter.mp member).1
  refine (methodSymbol_pairs law owner (signature_of_function allowed)).andThen fun symbol => ?_
  have waits : R.Waits { symbol, source := .method owner m.name, substitution := σ } :=
    waits_declared admits fun _ => BodySource.noConfusion
  exact requestBody_pairs law _ [] waits

variable {r r' : Resolver} (hr : R.Resolvers r r')

include hr

theorem makeInstance_pairs (kind : DeclKind) (h : R.template t = true)
    (allowed : args.all R.allows = true) (named : R.named name [] = true) :
    R.beside.Answers (Resolution.makeInstance r kind t args name)
      (Resolution.makeInstance r' kind (t.retype R.type) (args.map R.type) name) := by
  have admits := admits_ofParams (typeParams_allowed h) allowed
  unfold Resolution.makeInstance
  rw [typeParams_retype, ← retype_ofParams]
  refine (declare_pairs law h admits named).bind ?_
  rintro methods _ ⟨rfl, all⟩
  refine Beside.OnSession.andThen
    (updates (fun s depth queue => ?_) (fun _ => ⟨rfl, rfl⟩) fun s holds => ?_)
    fun _ => ?_
  · simp only [Session.retype, Table.map_insert]
  · refine { holds with owners := fun emits τ member => ?_ }
    rcases Table.mem_values_insert member with rfl | given
    · exact admits
    · exact holds.owners emits τ given
  · refine (define_pairs hr law kind name).andThen fun _ => ?_
    exact (queueMethods_pairs law name all admits).andThen fun _ => completeInstance_pairs name

theorem instantiate_pairs (kind : DeclKind) (base : String) (allowed : args.all R.allows = true)
    (admits : R.Admits σ) : R.beside.Answers (Resolution.instantiate r kind base args σ)
      (Resolution.instantiate r' kind base (args.map R.type) (σ.retype R.type)) := by
  refine (substituteAll_pairs law admits allowed).bind ?_
  rintro out _ ⟨rfl, outAllowed⟩
  refine (find_pairs kind base).bind ?_
  rintro t _ ⟨rfl, h, named⟩
  simp only [typeParams_retype, law.isIdentity (typeParams_allowed h) outAllowed]
  refine .ite Iff.rfl (fun _ => .pure rfl) fun _ => ?_
  refine (checkArity_pairs base t.typeParams out).bind fun _ _ arity => ?_
  refine (genericName_value law base outAllowed).bind ?_
  rintro _ name ⟨rfl, value⟩
  have instanceNamed : R.named name [] = true := by
    rw [value]
    exact law.instanceName named arity
  refine (beginInstance_pairs base out name).andThen fun claim => ?_
  cases claim with
  | existing state => exact .pure rfl
  | fresh =>
    exact (makeInstance_pairs law hr kind h outAllowed instanceNamed).andThen fun _ => .pure rfl

end

end Walk

end Backend
