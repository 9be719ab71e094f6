import Backend.Proofs.Retyping.Generate

/-!
Retypings that keep the shape of every type: at most a name without arguments is replaced, by the
primitive that it stands for. Resolution then takes the same way on both sides, level by level.
-/

namespace Backend

variable {args : List TypeRef} {σ : Substitution} {t : TypeRef}

namespace Walk

open Retyping

structure Structural (R : Walk) : Prop where
  primitive : ∀ p, R.type (.primitive p) = .primitive p
  pointer : ∀ {t depth}, R.allows (.pointer t depth) = true →
    R.allows t = true ∧ R.type (.pointer t depth) = .pointer (R.type t) depth
  array : ∀ {t dims}, R.allows (.array t dims) = true →
    R.allows t = true ∧ R.type (.array t dims) = .array (R.type t) dims
  tuple : ∀ {elems}, R.allows (.tuple elems) = true →
    elems.all R.allows = true ∧ R.type (.tuple elems) = .tuple (elems.map R.type)
  function : ∀ {params ret variadic}, R.allows (.function params ret variadic) = true →
    params.all R.allows = true ∧ R.allows ret = true ∧
      R.type (.function params ret variadic) = .function (params.map R.type) (R.type ret) variadic
  applied : ∀ {name arg args hint}, R.allows (.named name (arg :: args) hint) = true →
    (arg :: args).all R.allows = true ∧
      R.type (.named name (arg :: args) hint) = .named name ((arg :: args).map R.type) hint
  simple : ∀ name hint, R.type (.named name [] hint) = .named name [] hint ∨
    ∃ p, Primitive.ofName? name = some p ∧ R.type (.named name [] hint) = .primitive p
  isSelfMapped : ∀ {σ}, R.Admits σ → ∀ name,
    (σ.retype R.type).isSelfMapped name = σ.isSelfMapped name

variable {R : Walk}

theorem nested_pairs (same : R.depths = Eq) {γ : Type} {ty ty' : TypeRef} {x y : Gen γ}
    (h : R.beside.Answers x y) :
    R.beside.Answers (Resolution.nested ty x) (Resolution.nested ty' y) := by
  refine .reading fun s s' paired => ?_
  have depth : s.resolveDepth = s'.resolveDepth := by
    have related := paired.depth
    rwa [same] at related
  refine .ite (by rw [depth]) (fun _ => .fail) fun _ => ?_
  have counted (f : Nat → Nat) (s s' : Session) (paired : R.Sessions s s') :
      R.Sessions { s with resolveDepth := f s.resolveDepth }
        { s' with resolveDepth := f s'.resolveDepth } := by
    refine ⟨?_, ?_, paired.queue, paired.holds.alike ⟨rfl, rfl, rfl, rfl, rfl, rfl⟩⟩
    · have retyped := paired.same
      rw [retyped]
      rfl
    · have related := paired.depth
      rw [same] at related ⊢
      exact congrArg f related
  refine Beside.OnSession.andThen (.update (counted (· + 1))) fun _ => ?_
  exact h.tryFinally (counted (· - 1))

section

variable {r r' : Resolver} (hr : R.Resolvers r r') (law : R.Lawful)

include hr law

theorem concreteType_pairs (kind : DeclKind) (name : String) (allowed : args.all R.allows = true) :
    R.beside.Answers (Resolution.concreteType r kind name args)
      (Resolution.concreteType r' kind name (args.map R.type)) := by
  unfold Resolution.concreteType
  rw [List.isEmpty_map]
  refine .ite Iff.rfl (fun _ => .pure rfl) fun _ => ?_
  exact (instantiate_pairs law hr kind name allowed admits_empty).andThen fun _ => .pure rfl

omit hr in
theorem aliasTarget_pairs (name : String) (allowed : args.all R.allows = true) :
    R.beside.OnSession (fun out out' => out' = R.type out ∧ R.allows out = true)
      (Resolution.aliasTarget name args) (Resolution.aliasTarget name (args.map R.type)) := by
  refine reads fun s depth queue holds => ?_
  simp only [Session.retype, Declarations.retype, Table.find?_map]
  refine (orFail_map fun a found =>
    holds.decls.typeAliases a (Table.mem_values_of_find? found)).bind ?_
  rintro a _ ⟨rfl, h⟩
  simp only [typeAlias, Bool.and_eq_true] at h
  refine (checkArity_pairs a.name a.typeParams args).bind fun _ _ _ => ?_
  have substituted := substitute_pairs law (admits_ofParams h.1 allowed) h.2
  rw [retype_ofParams] at substituted
  exact substituted

omit hr law in
theorem kind?_retype (g : TypeRef → TypeRef) (d : Declarations) (name : String)
    (hint : Option DeclKind) : (d.retype g).kind? name hint = d.kind? name hint := by
  have structs : (d.retype g).structs.contains name = d.structs.contains name :=
    Table.contains_map _ _ _
  have enums : (d.retype g).enums.contains name = d.enums.contains name :=
    Table.contains_map _ _ _
  have contains (kind : DeclKind) : (d.retype g).contains kind name = d.contains kind name := by
    cases kind
    · exact structs
    · exact enums
  unfold Declarations.kind?
  rw [structs, enums]
  simp only [contains]

theorem declaredType_pairs (name : String) (allowed : args.all R.allows = true)
    (hint : Option DeclKind) (admits : R.Admits σ) :
    R.beside.Answers (Resolution.declaredType r name args hint σ)
      (Resolution.declaredType r' name (args.map R.type) hint (σ.retype R.type)) := by
  refine (substituteAll_pairs law admits allowed).bind ?_
  rintro out _ ⟨rfl, outAllowed⟩
  refine reads fun s depth queue _ => ?_
  simp only [Session.retype, kind?_retype]
  cases s.decls.kind? name hint with
  | some kind => exact concreteType_pairs hr law kind name outAllowed
  | none =>
    refine (aliasTarget_pairs law name outAllowed).bind ?_
    rintro target _ ⟨rfl, targetAllowed⟩
    exact hr.answers targetAllowed admits

variable (shape : R.Structural)

include shape

theorem simpleName_pairs (name : String) (hint : Option DeclKind) (admits : R.Admits σ) :
    R.beside.Answers (Resolution.simpleName r name hint σ)
      (Resolution.simpleName r' name hint (σ.retype R.type)) := by
  unfold Resolution.simpleName
  rw [shape.isSelfMapped admits]
  cases Primitive.ofName? name with
  | some p => exact .pure rfl
  | none =>
    refine .ite Iff.rfl (fun _ => (modifyOutput_pairs _).andThen fun _ => .pure rfl) fun _ => ?_
    rw [Table.find?_map]
    cases found : σ.find? name with
    | some mapped => exact hr.answers (admits.found found).2 admits
    | none => exact declaredType_pairs hr law name List.all_nil hint admits

omit law shape in
theorem mapResolved_pairs {types : List TypeRef} (allowed : types.all R.allows = true)
    (admits : R.Admits σ) : R.beside.Answers (types.mapM fun t => r t σ)
      ((types.map R.type).mapM fun t => r' t (σ.retype R.type)) :=
  .mapM_same (List.forall₂_map_right_iff.mpr (List.forall₂_same.mpr fun t member =>
    hr.answers (List.all_eq_true.mp allowed t member) admits))

theorem step_pairs (allowed : R.allows t = true) (admits : R.Admits σ) :
    R.beside.Answers (Resolution.step r t σ)
      (Resolution.step r' (R.type t) (σ.retype R.type)) := by
  cases t with
  | primitive p =>
    rw [shape.primitive]
    exact .pure rfl
  | pointer inner depth =>
    obtain ⟨inside, same⟩ := shape.pointer allowed
    rw [same]
    exact (hr.answers inside admits).andThen fun _ => .pure rfl
  | array inner dims =>
    obtain ⟨inside, same⟩ := shape.array allowed
    rw [same]
    exact (hr.answers inside admits).andThen fun _ => .pure rfl
  | tuple elems =>
    obtain ⟨inside, same⟩ := shape.tuple allowed
    rw [same]
    exact (mapResolved_pairs hr inside admits).andThen fun _ => .pure rfl
  | function params ret variadic =>
    obtain ⟨paramsAllowed, retAllowed, same⟩ := shape.function allowed
    rw [same]
    exact (hr.answers retAllowed admits).andThen fun _ =>
      (mapResolved_pairs hr paramsAllowed admits).andThen fun _ => .pure rfl
  | named name args hint =>
    cases args with
    | nil =>
      have here := simpleName_pairs hr law shape name hint admits
      rcases shape.simple name hint with same | ⟨p, spelled, same⟩
      · rw [same]
        exact here
      · rw [same]
        simp only [Resolution.step, Resolution.simpleName, spelled]
        exact .pure rfl
    | cons arg rest =>
      obtain ⟨inside, same⟩ := shape.applied allowed
      rw [same]
      exact declaredType_pairs hr law name inside hint admits

end

/-- What is known of a resolved payload does not depend on the right side. -/
def Settles (R : Walk) : Prop :=
  ∀ {n t s ty s'}, R.allows t = true → R.Holds s →
    Resolution.resolveWithin n t {} s = .ok ty s' → R.payload t ty

theorem answers_settled {x y : Gen IrType}
    (settles : ∀ {s ty s'}, R.Holds s → x s = .ok ty s' → R.payload t ty)
    (h : R.beside.Answers x y) :
    R.beside.OnSession (fun ty ty' => ty' = ty ∧ R.payload t ty) x y := by
  intro s s' paired
  have ends := h paired
  generalize run : x s = result at ends
  generalize y s' = result' at ends
  cases ends with
  | done same after => exact .done ⟨same.symm, settles paired.holds run⟩ after
  | failed like after => exact .failed like after
  | limit limit => exact .limit limit
  | overflow overflows => exact .overflow overflows

theorem Structural.resolveWithin_pairs (shape : R.Structural) (law : R.Lawful)
    (settles : R.Settles) (same : R.depths = Eq) (n : Nat) :
    R.Resolvers (Resolution.resolveWithin n) (Resolution.resolveWithin n) := by
  induction n with
  | zero =>
    exact ⟨fun _ _ => .throw, fun _ => .throw⟩
  | succ n ih =>
    have answers {t : TypeRef} {σ : Substitution} (allowed : R.allows t = true)
        (admits : R.Admits σ) :
        R.beside.Answers (Resolution.resolveWithin (n + 1) t σ)
          (Resolution.resolveWithin (n + 1) (R.type t) (σ.retype R.type)) :=
      nested_pairs same (step_pairs ih law shape allowed admits)
    exact ⟨answers, fun allowed => answers_settled (settles allowed) (answers allowed admits_empty)⟩

theorem Structural.resolves (shape : R.Structural) (law : R.Lawful) (settles : R.Settles)
    (same : R.depths = Eq) : R.Resolves :=
  shape.resolveWithin_pairs law settles same _

end Walk

end Backend
