import Backend.Proofs.Retyping.Basic

/-!
The rules of resolution on both sides of a retyping. If two resolvers answer alike then so do
lookups, layouts and instances that are made with them.
-/

namespace Backend

namespace Retyping

variable {R : Retyping}

theorem admits_empty : R.Admits {} := fun _ member => nomatch member

theorem Admits.found {σ : Substitution} (h : R.Admits σ) {name : String} {t : TypeRef}
    (found : σ.find? name = some t) : R.param name = true ∧ R.allows t = true :=
  h (name, t) (Table.mem_of_lookup found)

theorem Admits.insert {σ : Substitution} (h : R.Admits σ) {name : String} {t : TypeRef}
    (param : R.param name = true) (allowed : R.allows t = true) : R.Admits (σ.insert name t) := by
  intro e member
  rcases Table.mem_insertEntry member with rfl | member
  · exact ⟨param, allowed⟩
  · exact h e member

theorem Admits.foldl_insert {es : List (String × TypeRef)} {σ : Substitution} (h : R.Admits σ)
    (all : ∀ e ∈ es, R.param e.1 = true ∧ R.allows e.2 = true) :
    R.Admits (es.foldl (fun t e => t.insert e.1 e.2) σ) := by
  induction es generalizing σ with
  | nil => exact h
  | cons e rest ih =>
    have first := all e List.mem_cons_self
    exact ih (h.insert first.1 first.2) fun e member => all e (List.mem_cons_of_mem _ member)

theorem admits_ofParams {params : List String} {args : List TypeRef}
    (hp : params.all R.param = true) (ha : args.all R.allows = true) :
    R.Admits (.ofParams params args) :=
  admits_empty.foldl_insert fun _ member =>
    ⟨List.all_eq_true.mp hp _ (List.of_mem_zip member).1,
      List.all_eq_true.mp ha _ (List.of_mem_zip member).2⟩

theorem Admits.extended {σ τ : Substitution} (h : R.Admits σ) (h' : R.Admits τ) :
    R.Admits (σ.extended τ) :=
  h.foldl_insert h'

theorem Admits.without {σ : Substitution} (h : R.Admits σ) (shadowed : List String) :
    R.Admits (σ.without shadowed) :=
  fun e member => h e (List.mem_filter.mp member).1

section

variable (g : TypeRef → TypeRef)

theorem retype_ofParams (params : List String) (args : List TypeRef) :
    (Substitution.ofParams params args).retype g = .ofParams params (args.map g) := by
  unfold Substitution.ofParams Table.ofList
  rw [Substitution.retype, Table.map_foldl_insert, List.zip_map_right]
  rfl

theorem retype_extended (σ τ : Substitution) :
    (σ.extended τ).retype g = (σ.retype g).extended (τ.retype g) := by
  unfold Substitution.extended
  rw [Substitution.retype, Table.map_foldl_insert]
  rfl

theorem retype_without (σ : Substitution) (shadowed : List String) :
    (σ.without shadowed).retype g = (σ.retype g).without shadowed := by
  unfold Substitution.without Substitution.retype Table.map
  rw [List.filter_map]
  rfl

theorem retype_isEmpty (σ : Substitution) : (σ.retype g).isEmpty = σ.isEmpty := List.isEmpty_map

end

end Retyping

namespace Walk

open Retyping

variable {R : Walk}

/-- The right resolver tells of replaced types what the left one tells of the types themselves. -/
structure Resolvers (R : Walk) (r r' : Resolver) : Prop where
  answers : ∀ {t σ}, R.allows t = true → R.Admits σ →
    R.beside.Answers (r t σ) (r' (R.type t) (σ.retype R.type))
  payload : ∀ {t}, R.allows t = true →
    R.beside.OnSession (fun ty ty' => ty' = ty ∧ R.payload t ty) (r t {}) (r' (R.type t) {})

def Definers (R : Walk) (d d' : Definer) : Prop :=
  ∀ kind name, R.beside.Answers (d kind name) (d' kind name)

/-! ### Dispatched methods -/

section

variable {r r' : Resolver} (hr : R.Resolvers r r')

include hr

theorem structName_pairs {t : TypeRef} (allowed : R.allows t = true) :
    R.beside.Answers (Resolution.structName r t {}) (Resolution.structName r' (R.type t) {}) := by
  refine (hr.answers allowed admits_empty).andThen fun ty => ?_
  split
  · exact .pure rfl
  · exact .fail

omit hr in
theorem chainBudget_pairs : R.beside.Answers Resolution.chainBudget Resolution.chainBudget :=
  reads fun s depth queue _ => .pure (by simp only [Session.retype, Declarations.retype, Table.size_map])

omit hr in
theorem parent_allowed {d : StructDecl} (h : R.struct d = true) {t : TypeRef}
    (parent : d.parent = some t) : R.allows t = true := by
  simp only [struct, Bool.and_eq_true, parent, Option.all_some] at h
  exact h.1.1.2

omit hr in
theorem method_allowed {d : StructDecl} (h : R.struct d = true) {m : FunctionDecl}
    (member : m ∈ d.methods) : R.function m = true := by
  simp only [struct, Bool.and_eq_true] at h
  exact List.all_eq_true.mp h.2 m member

omit hr in
theorem dispatchSlots_retype (g : TypeRef → TypeRef) (inherited : List String)
    (methods : List FunctionDecl) :
    dispatchSlots inherited (methods.map (FunctionDecl.retype g)) =
      dispatchSlots inherited methods := by
  unfold dispatchSlots
  rw [List.filter_map, List.foldl_map]
  rfl

omit hr in
theorem find_struct (name : String) (cause : Cause) :
    R.beside.OnSession (fun d d' => d' = d.retype R.type ∧ R.struct d = true)
      (do orFail ((← get).decls.structs.find? name) cause)
      (do orFail ((← get).decls.structs.find? name) cause) :=
  reads fun s depth queue holds => by
    simp only [Session.retype, Declarations.retype, Table.find?_map]
    exact orFail_map fun d found => holds.decls.structs d (Table.mem_values_of_find? found)

omit hr in
theorem find_enum (name : String) (cause : Cause) :
    R.beside.OnSession (fun d d' => d' = d.retype R.type ∧ R.enum d = true)
      (do orFail ((← get).decls.enums.find? name) cause)
      (do orFail ((← get).decls.enums.find? name) cause) :=
  reads fun s depth queue holds => by
    simp only [Session.retype, Declarations.retype, Table.find?_map]
    exact orFail_map fun d found => holds.decls.enums d (Table.mem_values_of_find? found)

omit hr in
theorem find_function (name : String) (cause : Cause) :
    R.beside.OnSession (fun d d' => d' = d.retype R.type ∧ R.function d = true)
      (do orFail ((← get).decls.functions.find? name) cause)
      (do orFail ((← get).decls.functions.find? name) cause) :=
  reads fun s depth queue holds => by
    simp only [Session.retype, Declarations.retype, Table.find?_map]
    exact orFail_map fun d found => holds.decls.functions d (Table.mem_values_of_find? found)

theorem dispatchLayoutWithin_pairs (n : Nat) (name : String) :
    R.beside.Answers (Resolution.dispatchLayoutWithin r n name)
      (Resolution.dispatchLayoutWithin r' n name) := by
  induction n generalizing name with
  | zero => exact .throw
  | succ n ih =>
    refine reads fun s depth queue _ => ?_
    dsimp only [Session.retype, Layouts.retype]
    split
    · exact .pure rfl
    · refine (find_struct name _).bind ?_
      rintro d _ ⟨rfl, allowed⟩
      have inherited : R.beside.Answers
          (Resolution.inheritedSlots r (Resolution.dispatchLayoutWithin r n) d.parent)
          (Resolution.inheritedSlots r' (Resolution.dispatchLayoutWithin r' n)
            (d.parent.map R.type)) := by
        cases parent : d.parent with
        | none => exact .pure rfl
        | some t =>
          exact (structName_pairs hr (parent_allowed allowed parent)).andThen fun name => ih name
      refine inherited.andThen fun slots => ?_
      simp only [StructDecl.retype, dispatchSlots_retype]
      exact Beside.OnSession.andThen (updates_alike (fun _ _ _ => rfl) (fun _ => rfl)
        fun _ => by constructor <;> rfl)
        fun _ => .pure rfl

theorem dispatchLayout_pairs (name : String) :
    R.beside.Answers (Resolution.dispatchLayout r name) (Resolution.dispatchLayout r' name) :=
  chainBudget_pairs.andThen fun n => dispatchLayoutWithin_pairs hr n name

def Found (R : Walk) (m m' : String × FunctionDecl) : Prop :=
  m' = (m.1, m.2.retype R.type) ∧ R.function m.2 = true

omit hr in
theorem method?_retype (g : TypeRef → TypeRef) (methods : List FunctionDecl) (name : String) :
    (methods.map (FunctionDecl.retype g)).find? (fun m => m.name = name) =
      (methods.find? fun m => m.name = name).map (FunctionDecl.retype g) := by
  rw [List.find?_map]
  rfl

theorem findMethodWithin_pairs (method : String) (n : Nat) (name : String) :
    R.beside.OnSession (Option.Rel R.Found) (Resolution.findMethodWithin r method n name)
      (Resolution.findMethodWithin r' method n name) := by
  induction n generalizing name with
  | zero => exact .throw
  | succ n ih =>
    refine (find_struct name _).bind ?_
    rintro d _ ⟨rfl, allowed⟩
    have searched : (d.retype R.type).method? method =
        (d.method? method).map (FunctionDecl.retype R.type) := method?_retype _ _ _
    rw [searched]
    cases found : d.method? method with
    | some m =>
      exact .pure (.some ⟨rfl, method_allowed allowed (List.mem_of_find?_eq_some found)⟩)
    | none =>
      dsimp only [StructDecl.retype, Option.map_none]
      cases parent : d.parent with
      | none => exact .pure .none
      | some t =>
        exact (structName_pairs hr (parent_allowed allowed parent)).andThen fun name => ih name

theorem findMethod_pairs (name method : String) :
    R.beside.OnSession (Option.Rel R.Found) (Resolution.findMethod r name method)
      (Resolution.findMethod r' name method) :=
  chainBudget_pairs.andThen fun n => findMethodWithin_pairs hr method n name

omit hr in
theorem ownerType_pairs (owner : String) :
    R.beside.Answers (Resolution.ownerType owner) (Resolution.ownerType owner) :=
  reads fun s depth queue _ => .pure (by
    simp only [Session.retype, Declarations.retype, Table.contains_map])

omit hr in
theorem return_allowed {m : FunctionDecl} (h : R.signature m = true) :
    R.allows m.returnType = true := by
  simp only [signature, Bool.and_eq_true] at h
  exact h.2

omit hr in
theorem param_allowed {m : FunctionDecl} (h : R.signature m = true) {f : Field}
    (member : f ∈ m.params) : R.allows f.ty = true := by
  simp only [signature, Bool.and_eq_true] at h
  exact List.all_eq_true.mp h.1.2 f member

omit hr in
theorem signature_of_function {m : FunctionDecl} (h : R.function m = true) :
    R.signature m = true := by
  simp only [function, Bool.and_eq_true] at h
  exact h.1

theorem methodType_pairs (owner : String) {m : FunctionDecl} (h : R.signature m = true)
    {σ : Substitution} (admits : R.Admits σ) :
    R.beside.Answers (Resolution.methodType r owner m σ)
      (Resolution.methodType r' owner (m.retype R.type) (σ.retype R.type)) := by
  refine (hr.answers (return_allowed h) admits).andThen fun ret => ?_
  refine (ownerType_pairs owner).andThen fun receiver => ?_
  refine Beside.OnSession.andThen (.mapM_same ?_) fun params => .pure rfl
  refine List.forall₂_map_right_iff.mpr (List.forall₂_same.mpr fun f member => ?_)
  exact hr.answers (param_allowed h member) admits

/-! ### Names -/

section

omit hr

variable (law : R.Lawful)

include law

theorem map_encode {types : List TypeRef} (allowed : types.all R.allows = true) :
    (types.map R.type).map (R.aliases.retype R.type).encode = types.map R.aliases.encode := by
  rw [List.map_map]
  exact List.map_congr_left fun t member => law.encode (List.all_eq_true.mp allowed t member)

theorem all_expands {types : List TypeRef} (allowed : types.all R.allows = true) :
    (types.map R.type).all (R.aliases.retype R.type).expands = types.all R.aliases.expands := by
  rw [List.all_map, Bool.eq_iff_iff, List.all_eq_true, List.all_eq_true]
  refine forall₂_congr fun t member => ?_
  rw [Function.comp_apply, law.expands (List.all_eq_true.mp allowed t member)]

theorem naming_value {types : List TypeRef} (allowed : types.all R.allows = true)
    {name name' : AliasTable → String} (same : name' (R.aliases.retype R.type) = name R.aliases) :
    R.beside.OnSession (fun n n' => n' = n ∧ n = name R.aliases) (Gen.naming types name)
      (Gen.naming (types.map R.type) name') := by
  refine reads fun s depth queue holds => ?_
  simp only [Session.retype, Declarations.retype, holds.aliases]
  rw [same, all_expands law allowed]
  exact .ite Iff.rfl (fun _ => .pure ⟨rfl, rfl⟩) fun _ => .throw

theorem naming_pairs {types : List TypeRef} (allowed : types.all R.allows = true)
    {name name' : AliasTable → String} (same : name' (R.aliases.retype R.type) = name R.aliases) :
    R.beside.Answers (Gen.naming types name) (Gen.naming (types.map R.type) name') :=
  (naming_value law allowed same).imp fun _ _ both => both.1.symm

theorem genericName_value (base : String) {args : List TypeRef}
    (allowed : args.all R.allows = true) :
    R.beside.OnSession (fun n n' => n' = n ∧ n = R.aliases.genericName base args)
      (Gen.genericName base args) (Gen.genericName base (args.map R.type)) := by
  have same : (R.aliases.retype R.type).genericName base (args.map R.type) =
      R.aliases.genericName base args := by
    simp only [AliasTable.genericName, map_encode law allowed]
  exact @naming_value R law args allowed (·.genericName base args)
    (·.genericName base (args.map R.type)) same

theorem functionName_pairs (name : String) {params typeArgs : List TypeRef}
    (hp : params.all R.allows = true) (ha : typeArgs.all R.allows = true) :
    R.beside.Answers (Gen.functionName name params typeArgs)
      (Gen.functionName name (params.map R.type) (typeArgs.map R.type)) := by
  have both : (params ++ typeArgs).all R.allows = true := by simp [hp, ha]
  unfold Gen.functionName
  rw [← List.map_append]
  refine naming_pairs law both ?_
  simp only [AliasTable.functionName, ← List.map_append, map_encode law both]

theorem methodName_pairs (owner method : String) {params typeArgs : List TypeRef}
    (hp : params.all R.allows = true) (ha : typeArgs.all R.allows = true) :
    R.beside.Answers (Gen.methodName owner method params typeArgs)
      (Gen.methodName owner method (params.map R.type) (typeArgs.map R.type)) := by
  have both : (params ++ typeArgs).all R.allows = true := by simp [hp, ha]
  unfold Gen.methodName
  rw [← List.map_append]
  refine naming_pairs law both ?_
  simp only [AliasTable.methodName, AliasTable.functionName, ← List.map_append, map_encode law both]

omit law in
theorem paramTypes_retype (g : TypeRef → TypeRef) (m : FunctionDecl) :
    (m.retype g).paramTypes = m.paramTypes.map g := Pairing.map_ty_mapType g m.params

omit law in
theorem paramTypes_allowed {m : FunctionDecl} (h : R.signature m = true) :
    m.paramTypes.all R.allows = true := by
  simp only [signature, Bool.and_eq_true] at h
  rw [FunctionDecl.paramTypes, List.all_map]
  exact h.1.2

theorem methodSymbol_pairs (owner : String) {m : FunctionDecl} (h : R.signature m = true) :
    R.beside.Answers (Gen.methodSymbol owner m []) (Gen.methodSymbol owner (m.retype R.type) []) := by
  unfold Gen.methodSymbol
  rw [paramTypes_retype]
  exact methodName_pairs law owner m.name (paramTypes_allowed h) List.all_nil

end

theorem emitDispatchTable_pairs (law : R.Lawful) (name : String) :
    R.beside.Answers (Resolution.emitDispatchTable r name) (Resolution.emitDispatchTable r' name) := by
  refine (dispatchLayout_pairs hr name).andThen fun slots => ?_
  refine Beside.OnSession.andThen (.mapM_same (List.forall₂_same.mpr fun method _ => ?_)) fun entries =>
    modifyOutput_pairs _
  refine (findMethod_pairs hr name method).bind fun found found' related => ?_
  refine (Beside.OnSession.orFail related).bind ?_
  rintro ⟨owner, m⟩ _ ⟨rfl, allowed⟩
  have signature := signature_of_function allowed
  refine (methodSymbol_pairs law owner signature).andThen fun symbol => ?_
  exact (methodType_pairs hr owner signature admits_empty).andThen fun _ => .pure rfl

end

/-! ### Extents -/

section

variable {leaf leaf' : DeclKind → String → Gen Extent}

theorem word_pairs (n : Nat) : R.beside.Answers (word n) (word n) :=
  .ite Iff.rfl (fun _ => .pure rfl) fun _ => .throw

mutual

theorem ofType_pairs (h : ∀ kind name, R.beside.Answers (leaf kind name) (leaf' kind name)) :
    (ty : IrType) → R.beside.Answers (Extent.ofType leaf ty) (Extent.ofType leaf' ty)
  | .void | .int _ | .float | .double | .ptr _ => .pure rfl
  | .array _ elem =>
    (ofType_pairs h elem).andThen fun _ => (word_pairs _).andThen fun _ => .pure rfl
  | .record fields =>
    (pack_pairs h fields 0 1).andThen fun _ => (word_pairs _).andThen fun _ => .pure rfl
  | .struct name => h .struct name
  | .enum name => h .enum name
  | .forward _ | .function _ _ _ => .fail

theorem pack_pairs (h : ∀ kind name, R.beside.Answers (leaf kind name) (leaf' kind name)) :
    (fields : List IrType) → (offset align : Nat) →
      R.beside.Answers (Extent.pack leaf fields offset align)
        (Extent.pack leaf' fields offset align)
  | [], _, _ => .pure rfl
  | ty :: rest, _, _ =>
    (ofType_pairs h ty).andThen fun _ =>
      Beside.OnSession.andThen ((word_pairs _).andThen fun _ => word_pairs _) fun _ =>
        pack_pairs h rest _ _

end

end

theorem extent?_retype (g : TypeRef → TypeRef) (l : Layouts) (kind : DeclKind) (name : String) :
    (l.retype g).extent? kind name = l.extent? kind name := by
  cases kind with
  | struct => rfl
  | enum =>
    simp only [Layouts.extent?, Layouts.retype, Table.find?_map]
    cases l.enums.find? name <;> rfl

section

variable {d d' : Definer} (hd : R.Definers d d')

include hd

theorem namedExtent_pairs (kind : DeclKind) (name : String) :
    R.beside.Answers (Resolution.namedExtent d kind name)
      (Resolution.namedExtent d' kind name) := by
  refine (hd kind name).andThen fun _ => reads fun s depth queue _ => ?_
  simp only [Session.retype, extent?_retype]
  cases s.layouts.extent? kind name with
  | ok e => exact .pure rfl
  | error h => exact .throw

theorem extent_pairs (ty : IrType) :
    R.beside.Answers (Resolution.extent d ty) (Resolution.extent d' ty) :=
  ofType_pairs (namedExtent_pairs hd) ty

theorem packedSize_pairs (fields : List IrType) :
    R.beside.Answers (Resolution.packedSize d fields) (Resolution.packedSize d' fields) :=
  (pack_pairs (namedExtent_pairs hd) fields 0 1).andThen fun _ => .pure rfl

/-! ### Debug information -/

omit hd in
theorem tell_pairs (call : DebugCall) : R.beside.Answers (Gen.tell call) (Gen.tell call) := by
  intro s s' paired
  have same : s'.activeCollector? = s.activeCollector? := by rw [paired.same]; rfl
  have calls : s'.debugCalls = s.debugCalls := by rw [paired.same]; rfl
  have run (s : Session) : Gen.tell call s = s.activeCollector?.elim (.ok none s) fun c =>
      .ok (some (c.reply s.debugCalls call)) { s with debugCalls := s.debugCalls ++ [call] } := by
    cases active : s.activeCollector? with
    | none => rw [Gen.tell, Gen.get_bind, active]; rfl
    | some c => rw [Gen.tell, Gen.get_bind, active]; rfl
  rw [run, run, same, calls]
  cases s.activeCollector? with
  | none => exact .done rfl paired
  | some c =>
    refine .done rfl
      ⟨?_, paired.depth, paired.queue, paired.holds.alike ⟨rfl, rfl, rfl, rfl, rfl, rfl⟩⟩
    rw [paired.same]
    rfl

theorem extentOrNone_pairs (strict : R.beside.Strict) (ty : IrType) :
    R.beside.Answers (Resolution.extentOrNone d ty) (Resolution.extentOrNone d' ty) := by
  refine ((extent_pairs hd ty).attempt strict).bind fun result result' same => ?_
  cases result with
  | ok e =>
    cases result' with
    | ok e' => cases same; exact .pure rfl
    | error => cases same
  | error =>
    cases result' with
    | ok => cases same
    | error => exact .pure rfl

theorem bitSize_pairs (strict : R.beside.Strict) (ty : IrType) :
    R.beside.Answers (Resolution.bitSize d ty) (Resolution.bitSize d' ty) :=
  (extentOrNone_pairs hd strict ty).andThen fun _ => word_pairs _

theorem describeNamed_pairs (strict : R.beside.Strict) (ty : IrType) (name : String) :
    R.beside.Answers (Resolution.describeType.describeNamed d ty name)
      (Resolution.describeType.describeNamed d' ty name) := by
  refine reads fun s depth queue _ => ?_
  dsimp only [Session.retype]
  split
  · exact .pure rfl
  · exact (bitSize_pairs hd strict ty).andThen fun _ => tell_pairs _

omit hd in
theorem describeType_pairs {d d' : Definer} (hd : R.Definers d d') (strict : R.beside.Strict) :
    (ty : IrType) →
      R.beside.Answers (Resolution.describeType d ty) (Resolution.describeType d' ty)
  | .ptr inner => (describeType_pairs hd strict inner).andThen fun _ => tell_pairs _
  | .array _ inner =>
    (bitSize_pairs hd strict _).andThen fun _ => (describeType_pairs hd strict inner).andThen fun _ =>
      tell_pairs _
  | .struct name => describeNamed_pairs hd strict _ name
  | .enum name => describeNamed_pairs hd strict _ name
  | .void | .int _ | .float | .double | .forward _ | .record _ | .function _ _ _ =>
    (bitSize_pairs hd strict _).andThen fun _ => tell_pairs _

theorem describeMembers_pairs (strict : R.beside.Strict) (fields : List (String × IrType))
    (offset align : Nat) :
    R.beside.Answers (Resolution.describeMembers d fields offset align)
      (Resolution.describeMembers d' fields offset align) := by
  induction fields generalizing offset align with
  | nil => exact .pure rfl
  | cons field rest ih =>
    obtain ⟨name, ty⟩ := field
    refine (extentOrNone_pairs hd strict ty).andThen fun e => (word_pairs _).andThen fun start => ?_
    refine (describeType_pairs hd strict ty).andThen fun id => (word_pairs _).andThen fun _ => ?_
    refine (word_pairs _).andThen fun _ => (word_pairs _).andThen fun _ => ?_
    exact (ih _ _).andThen fun _ => .pure rfl

omit hd in
theorem collecting {γ : Type} (law : R.Lawful) {x y z : Gen γ}
    (h : R.beside.Strict → R.beside.Answers x y) (none : R.beside.Answers z z) :
    R.beside.Answers (do if (← get).activeCollector?.isSome then x else z)
      (do if (← get).activeCollector?.isSome then y else z) := by
  refine reads fun s depth queue holds => ?_
  have active : (s.retype R.type depth queue).activeCollector? = s.activeCollector? := rfl
  rw [active]
  rcases law.caught with quiet | strict
  · rw [holds.quiet quiet]
    exact none
  · exact .ite Iff.rfl (fun _ => h strict) fun _ => none

theorem describeStruct_pairs (law : R.Lawful) (name : String) (fields : List (String × IrType))
    (location : Location) :
    R.beside.Answers (Resolution.describeStruct d name fields location)
      (Resolution.describeStruct d' name fields location) := by
  refine collecting law (fun strict => ?_) (.pure rfl)
  refine (describeMembers_pairs hd strict fields 0 1).andThen fun (members, offset, align) => ?_
  refine (tell_pairs _).andThen fun _ => (word_pairs _).andThen fun _ => ?_
  refine (word_pairs _).andThen fun bits => (tell_pairs _).andThen fun id => ?_
  exact updates_alike (fun _ _ _ => rfl) (fun _ => rfl) fun _ => by constructor <;> rfl

end

/-! ### Structs -/

theorem whileDefining_pairs {γ δ : Type} {V : γ → δ → Prop} (name context : String) {x : Gen γ}
    {y : Gen δ} (h : R.beside.OnSession V x y) :
    R.beside.OnSession V (Resolution.whileDefining name context x)
      (Resolution.whileDefining name context y) := by
  refine reads fun s depth queue _ => ?_
  refine .ite Iff.rfl (fun _ => .fail) fun _ => ?_
  refine Beside.OnSession.andThen (updates_alike (fun _ _ _ => rfl) (fun _ => rfl)
    fun _ => by constructor <;> rfl)
    fun _ => ?_
  refine h.tryFinally fun s s' paired => ⟨?_, paired.depth,
    paired.queue, paired.holds.alike ⟨rfl, rfl, rfl, rfl, rfl, rfl⟩⟩
  rw [paired.same]
  rfl

section

variable {r r' : Resolver} (hr : R.Resolvers r r') {d d' : Definer} (hd : R.Definers d d')

include hd in
theorem structLayout_pairs (name : String) :
    R.beside.Answers (Resolution.structLayout d name) (Resolution.structLayout d' name) :=
  (hd .struct name).andThen fun _ => reads fun _ _ _ _ => orFail_same

mutual

theorem defineEmbedded_pairs {d d' : Definer} (hd : R.Definers d d') : (ty : IrType) →
    R.beside.Answers (Resolution.defineEmbedded d ty) (Resolution.defineEmbedded d' ty)
  | .struct name => hd .struct name
  | .enum name => hd .enum name
  | .array _ elem => defineEmbedded_pairs hd elem
  | .record fields => defineAllEmbedded_pairs hd fields
  | .void | .int _ | .float | .double | .ptr _ | .forward _ | .function _ _ _ => .pure rfl

theorem defineAllEmbedded_pairs {d d' : Definer} (hd : R.Definers d d') : (types : List IrType) →
    R.beside.Answers (Resolution.defineAllEmbedded d types) (Resolution.defineAllEmbedded d' types)
  | [] => .pure rfl
  | ty :: rest => (defineEmbedded_pairs hd ty).andThen fun _ => defineAllEmbedded_pairs hd rest

end

include hr hd in
theorem ownField_pairs (owner : String) {f : Field} (allowed : R.allows f.ty = true) :
    R.beside.Answers (Resolution.ownField r d owner f)
      (Resolution.ownField r' d' owner (f.mapType R.type)) :=
  ((hr.answers allowed admits_empty).mappingCause (fun _ _ => rfl)).andThen fun ty =>
    (defineEmbedded_pairs hd ty).andThen fun _ => .pure rfl

include hr hd in
theorem inheritedFields_pairs {parent : Option TypeRef}
    (allowed : ∀ t, parent = some t → R.allows t = true) :
    R.beside.Answers (Resolution.inheritedFields r d parent)
      (Resolution.inheritedFields r' d' (parent.map R.type)) := by
  cases parent with
  | none => exact .pure rfl
  | some t =>
    refine (structName_pairs hr (allowed t rfl)).andThen fun name => ?_
    exact (structLayout_pairs hd name).andThen fun _ => .pure rfl

include hr hd in
theorem structFields_pairs (name : String) {decl : StructDecl} (h : R.struct decl = true) :
    R.beside.Answers (Resolution.structFields r d name decl)
      (Resolution.structFields r' d' name (decl.retype R.type)) := by
  refine (inheritedFields_pairs hr hd fun t => parent_allowed h).andThen fun inherited => ?_
  refine (dispatchLayout_pairs hr name).andThen fun slots => ?_
  refine Beside.OnSession.andThen (.mapM_same ?_) fun own => .pure rfl
  refine List.forall₂_map_right_iff.mpr (List.forall₂_same.mpr fun f member => ?_)
  simp only [struct, Bool.and_eq_true] at h
  exact ownField_pairs hr hd name (List.all_eq_true.mp h.1.2 f member)

theorem addStructLayout_pairs (layout : StructLayout) :
    R.beside.Answers (Resolution.addStructLayout layout) (Resolution.addStructLayout layout) :=
  (modifyOutput_pairs _).andThen fun _ => updates_alike (fun _ _ _ => rfl) (fun _ => rfl)
    fun _ => by constructor <;> rfl

theorem aggregate_retype (g : TypeRef → TypeRef) (l : Layouts) (fields : List IrType) :
    (l.retype g).aggregate fields = l.aggregate fields := by
  unfold Layouts.aggregate
  congr 1
  funext kind name
  exact extent?_retype g l kind name

include hr hd in
theorem defineStruct_pairs (law : R.Lawful) (name : String) :
    R.beside.Answers (Resolution.defineStruct r d name) (Resolution.defineStruct r' d' name) := by
  refine reads fun s depth queue _ => .ite Iff.rfl (fun _ => .pure rfl) fun _ => ?_
  refine (find_struct name _).bind ?_
  rintro decl _ ⟨rfl, allowed⟩
  refine .ite Iff.rfl (fun _ => .fail) fun _ => ?_
  refine (whileDefining_pairs _ _ (structFields_pairs hr hd name allowed)).andThen fun fields => ?_
  refine reads fun s depth queue _ => ?_
  simp only [Session.retype, aggregate_retype]
  refine (addStructLayout_pairs _).andThen fun _ => ?_
  refine (describeStruct_pairs hd law _ _ _).andThen fun _ => ?_
  refine (dispatchLayout_pairs hr name).andThen fun slots => ?_
  exact .ite Iff.rfl (fun _ => .pure rfl) fun _ => emitDispatchTable_pairs hr law name

/-! ### Enums -/

theorem payloadTypes_retype (g : TypeRef → TypeRef) (v : Variant) :
    (v.retype g).payloadTypes = v.payloadTypes.map g := by
  obtain ⟨name, payload⟩ := v
  cases payload with
  | none => rfl
  | some p =>
    cases p with
    | tuple types => rfl
    | struct fields => exact Pairing.map_ty_mapType g fields

theorem zip_payload {types : List TypeRef} {payload : List IrType}
    (h : List.Forall₂ R.payload types payload) :
    ∀ field ∈ payload.zip types, R.payload field.2 field.1 := by
  induction h with
  | nil => exact fun _ member => nomatch member
  | cons head _ ih =>
    intro field member
    rcases List.mem_cons.mp member with rfl | member
    · exact head
    · exact ih field member

include hr in
theorem payloadTypes_pairs {types : List TypeRef} (allowed : types.all R.allows = true) :
    R.beside.OnSession (fun ir ir' => ir' = ir ∧ List.Forall₂ R.payload types ir)
      (types.mapM fun ty => r ty {}) ((types.map R.type).mapM fun ty => r' ty {}) := by
  rw [List.mapM_map]
  induction types with
  | nil => exact .pure ⟨rfl, .nil⟩
  | cons t rest ih =>
    simp only [List.all_cons, Bool.and_eq_true] at allowed
    rw [List.mapM_cons, List.mapM_cons]
    refine (hr.payload allowed.1).bind ?_
    rintro ty _ ⟨rfl, head⟩
    refine (ih allowed.2).bind ?_
    rintro types _ ⟨rfl, tail⟩
    exact .pure ⟨rfl, .cons head tail⟩

include hr hd in
theorem variantLayouts_pairs (variants : List Variant)
    (allowed : ∀ v ∈ variants, v.payloadTypes.all R.allows = true) (tag : Nat)
    {done : Table VariantLayout} (settled : R.Payloads done) (size : Nat) :
    R.beside.OnSession
      (fun result result' => result' = (result.1.map (VariantLayout.retype R.type), result.2) ∧
        R.Payloads result.1)
      (Resolution.variantLayouts r d variants tag done size)
      (Resolution.variantLayouts r' d' (variants.map (Variant.retype R.type)) tag
        (done.map (VariantLayout.retype R.type)) size) := by
  induction variants generalizing tag done size with
  | nil => exact .pure ⟨rfl, settled⟩
  | cons v rest ih =>
    simp only [List.map_cons, Resolution.variantLayouts, payloadTypes_retype]
    have here := allowed v List.mem_cons_self
    refine (payloadTypes_pairs hr here).bind ?_
    rintro _ payload ⟨rfl, resolved⟩
    refine (packedSize_pairs hd _).andThen fun bytes => ?_
    have settled' : R.Payloads (done.insert v.name ⟨tag, payload, v.payloadTypes, bytes⟩) := by
      intro emits w member
      rcases Table.mem_values_insert member with rfl | member
      · exact ⟨here, zip_payload resolved⟩
      · exact settled emits w member
    have next := ih (fun v member => allowed v (List.mem_cons_of_mem _ member)) (tag + 1) settled'
      (max size bytes)
    rw [Table.map_insert] at next
    exact next

theorem addEnumLayout_pairs {layout : EnumLayout} (settled : R.Payloads layout.variants) :
    R.beside.Answers (Resolution.addEnumLayout layout)
      (Resolution.addEnumLayout (layout.retype R.type)) := by
  refine (modifyOutput_pairs _).andThen fun _ =>
    updates (fun s depth queue => ?_) (fun _ => ⟨rfl, rfl⟩) ?_
  · simp only [Session.retype, Layouts.retype, Table.map_insert]
    rfl
  · intro s holds
    refine { holds with payloads := fun l member => ?_ }
    rcases Table.mem_values_insert member with rfl | member
    · exact settled
    · exact holds.payloads l member

include hr hd in
theorem defineEnum_pairs (name : String) :
    R.beside.Answers (Resolution.defineEnum r d name) (Resolution.defineEnum r' d' name) := by
  refine reads fun s depth queue _ => .ite ?_ (fun _ => .pure rfl) fun _ => ?_
  · simp only [Session.retype, Layouts.retype, Table.contains_map]
  refine (find_enum name _).bind ?_
  rintro decl _ ⟨rfl, allowed⟩
  refine .ite Iff.rfl (fun _ => .fail) fun _ => ?_
  simp only [enum, Bool.and_eq_true] at allowed
  have start : R.Payloads {} := fun _ _ member => (List.not_mem_nil member).elim
  have variants := variantLayouts_pairs hr hd decl.variants (List.all_eq_true.mp allowed.1.2) 0
    start 0
  refine (whileDefining_pairs _ _ variants).bind ?_
  rintro ⟨done, size⟩ _ ⟨rfl, settled⟩
  refine reads fun s depth queue _ => ?_
  simp only [Session.retype, aggregate_retype]
  have added (extent : Except Halt Extent) :=
    @addEnumLayout_pairs R ⟨name, done, size, extent⟩ settled
  exact added _

end

section

variable {r r' : Resolver} (hr : R.Resolvers r r') (law : R.Lawful)

include hr law

theorem defineWithin_pairs (budget : Nat) :
    R.Definers (Resolution.defineWithin r budget) (Resolution.defineWithin r' budget) := by
  induction budget with
  | zero => exact fun _ _ => .throw
  | succ budget ih =>
    intro kind name
    cases kind with
    | struct => exact defineStruct_pairs hr ih law name
    | enum => exact defineEnum_pairs hr ih name

theorem define_pairs : R.Definers (Resolution.define r) (Resolution.define r') := by
  refine fun kind name => reads fun s depth queue _ => ?_
  simp only [Session.retype, Declarations.retype, Table.size_map]
  exact defineWithin_pairs hr law _ kind name

end

end Walk

end Backend
