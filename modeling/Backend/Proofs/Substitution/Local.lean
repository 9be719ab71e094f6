import Backend.Proofs.Resolution.Follows
import Backend.Proofs.Session.Over

/-!
Substitution in place. Below the path of a known name stand the names of its type, and all other
names stay where they are. In a declaration the same holds of every method, but for its own type
parameters.
-/

namespace Backend

/-- The signature as one type, in which the result and the parameters have their paths. -/
def FunctionDecl.functionType (f : FunctionDecl) : TypeRef :=
  .function f.paramTypes f.returnType false

namespace Substitution

variable (σ : Substitution)

theorem occurrences_apply (t : TypeRef) :
    (σ.apply t).occurrences = t.occurrences.flatMap σ.place := by
  unfold apply
  split
  case isTrue empty =>
    have kept : σ.place = fun o => [o] := by
      funext o
      rw [place, Table.find?, List.isEmpty_iff.mp empty]
      rfl
    rw [kept, List.flatMap_singleton']
  case isFalse => exact occurrences_replace t

theorem find?_without (shadowed : List String) (name : String) :
    (σ.without shadowed).find? name = if name ∈ shadowed then none else σ.find? name := by
  unfold without Table.find?
  induction σ.entries with
  | nil => simp [Table.lookup]
  | cons e rest ih =>
    by_cases own : e.1 ∈ shadowed <;> by_cases same : e.1 = name <;>
      simp_all [Table.lookup]

/-! ### Signatures -/

/-- The body is kept. In the signature, a parameter of the function itself stays where it is. -/
structure Rewrites (m m' : FunctionDecl) : Prop where
  body : m'.body = m.body
  signature : m'.functionType.occurrences = m.functionType.occurrences.flatMap fun o =>
    if o.name ∈ m.typeParams then [o] else σ.place o

theorem functionType_applySignature (m : FunctionDecl) :
    (σ.applySignature m).functionType = (σ.without m.typeParams).apply m.functionType := by
  unfold FunctionDecl.functionType FunctionDecl.paramTypes applySignature
  generalize σ.without m.typeParams = inner
  by_cases empty : inner.isEmpty = true <;>
    simp [apply, applyField, empty, replace, replaceAll_eq_map]

theorem rewrites_applySignature (m : FunctionDecl) : σ.Rewrites m (σ.applySignature m) := by
  have placed : (σ.without m.typeParams).place = fun o =>
      if o.name ∈ m.typeParams then [o] else σ.place o := by
    funext o
    rw [place, find?_without, place]
    split <;> rfl
  exact ⟨rfl, by rw [functionType_applySignature, occurrences_apply, placed]⟩

theorem rewrites_methods (methods : List FunctionDecl) :
    List.Forall₂ σ.Rewrites methods (methods.map σ.applySignature) :=
  List.forall₂_map_right_iff.mpr (List.forall₂_same.mpr fun m _ => σ.rewrites_applySignature m)

/-! ### Declarations with their types blank -/

theorem blank_applySignature (m : FunctionDecl) :
    (σ.applySignature m).retype (fun _ => .void) = m.retype fun _ => .void := by
  simp [applySignature, FunctionDecl.retype, applyField, Field.mapType]

theorem blank_applyVariant (v : Variant) :
    (σ.applyVariant v).retype (fun _ => .void) = v.retype fun _ => .void := by
  obtain ⟨name, payload⟩ := v
  cases payload with
  | none => rfl
  | some p =>
    cases p <;>
      simp [applyVariant, Variant.retype, applyPayload, Payload.retype, applyAll, applyField,
        Field.mapType, Function.comp_def]

theorem blank_applyStruct (d : StructDecl) (name : String) :
    (σ.applyStruct d name).retype (fun _ => .void) =
      { d with name, typeParams := [] }.retype fun _ => .void := by
  simp [applyStruct, StructDecl.retype, blank_applySignature, applyField, Field.mapType,
    Function.comp_def]

theorem blank_applyEnum (d : EnumDecl) (name : String) :
    (σ.applyEnum d name).retype (fun _ => .void) =
      { d with name, typeParams := [] }.retype fun _ => .void := by
  simp [applyEnum, EnumDecl.retype, blank_applySignature, blank_applyVariant]

/-- A substitution replaces names in place, keeps types normal and leaves a normal type without its
parameters as it is, so an empty one need not look into types. In a declaration only the name, the
type parameters and the types change, and every method keeps its own parameters in place. -/
theorem apply_in_place :
    (∀ t : TypeRef, (σ.apply t).occurrences = t.occurrences.flatMap σ.place ∧
      (t.isNormal = true → (σ.Normal → (σ.apply t).isNormal = true) ∧
        ((∀ o ∈ t.occurrences, o.name ∉ σ.keys) → σ.apply t = t) ∧ σ.apply t = σ.replace t)) ∧
    (∀ (d : StructDecl) (name : String),
      (σ.applyStruct d name).retype (fun _ => .void) =
        { d with name, typeParams := [] }.retype (fun _ => .void) ∧
      List.Forall₂ σ.Rewrites d.methods (σ.applyStruct d name).methods ∧
      (σ.Normal → d.isNormal = true → (σ.applyStruct d name).isNormal = true)) ∧
    (∀ (d : EnumDecl) (name : String),
      (σ.applyEnum d name).retype (fun _ => .void) =
        { d with name, typeParams := [] }.retype (fun _ => .void) ∧
      List.Forall₂ σ.Rewrites d.methods (σ.applyEnum d name).methods ∧
      (σ.Normal → d.isNormal = true → (σ.applyEnum d name).isNormal = true)) := by
  have law : (shallower False σ {} 0 0 fun _ _ => True).Lawful :=
    shallower_lawful fun _ _ _ _ _ => trivial
  refine ⟨fun t => ⟨σ.occurrences_apply t, fun normal => ⟨fun values => ?_, fun foreign => ?_,
    apply_eq_replace σ normal⟩⟩, fun d name => ?_, fun d name => ?_⟩
  · exact isNormal_apply values normal
  · rw [apply_eq_replace σ normal]
    refine replace_eq_self t normal fun name member => ?_
    rw [TypeRef.simpleNames_eq] at member
    obtain ⟨o, inside, rfl⟩ := List.mem_map.mp member
    exact Table.find?_eq_none_of_not_mem (foreign o inside)
  · exact ⟨σ.blank_applyStruct d name, σ.rewrites_methods d.methods,
      fun values normal => shallower_struct.symm.trans (Walk.applyStruct_allowed law
        (shallower_admits.mpr values) (shallower_struct.trans normal) name)⟩
  · exact ⟨σ.blank_applyEnum d name, σ.rewrites_methods d.methods,
      fun values normal => shallower_enum.symm.trans (Walk.applyEnum_allowed law
        (shallower_admits.mpr values) (shallower_enum.trans normal) name)⟩

/-- `T ↦ Foo*`, where a method of the struct has its own `T` and `T<U>*` holds no `T` to replace. -/
theorem apply_in_place_shadowed :
    let σ := ofParams ["T"] [.pointer (.ofName "Foo") 1]
    let t : TypeRef := .pointer (.ofName "T") 1
    let u : TypeRef := .pointer (.named "T" [.ofName "U"] none) 1
    let m : FunctionDecl :=
      { name := "map", typeParams := ["T"], params := [⟨"x", t⟩], returnType := u }
    let d : StructDecl :=
      { name := "Box", typeParams := ["T"], fields := [⟨"item", t⟩], methods := [m] }
    (σ.apply t).isNormal = true ∧ σ.apply t = .pointer (.ofName "Foo") 2 ∧ σ.apply u = u ∧
      List.Forall₂ σ.Rewrites [m] [m] ∧ (σ.applyStruct d "Box_Foo").isNormal = true := by
  intro σ t u m d
  have values : σ.Normal := by
    intro v member
    obtain rfl := List.mem_singleton.mp member
    rfl
  obtain ⟨types, structs, -⟩ := apply_in_place σ
  obtain ⟨-, methods, normal⟩ := structs d "Box_Foo"
  exact ⟨((types t).2 rfl).1 values, rfl, ((types u).2 rfl).2.1 (by decide), methods,
    normal values rfl⟩

end Substitution

end Backend
