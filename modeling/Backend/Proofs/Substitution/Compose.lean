import Backend.Proofs.Substitution.Normal
import Backend.Session.Basic

/-!
Substitutions one after the other. A substitution commutes with the merging constructors, so two of
them in a row are one: the first with the second applied to its types, and the second for the names
that the first leaves. On types in normal form this makes a substitution whose types hold none of
its parameters idempotent.
-/

namespace Backend

namespace TypeRef

theorem arrayOf_arrayOf (t : TypeRef) (dims more : List Nat) :
    arrayOf (arrayOf t dims) more = arrayOf t (more ++ dims) := by
  cases dims with
  | nil => rw [List.append_nil]; rfl
  | cons d rest =>
    cases more with
    | nil => rfl
    | cons e others =>
      cases t with
      | array inner ds => simp [arrayOf]
      | _ => rfl

end TypeRef

namespace Substitution

variable {σ τ ρ : Substitution}

/-! ### Equal lookups -/

theorem isEmpty_iff : σ.isEmpty = true ↔ ∀ name, σ.find? name = none := by
  obtain ⟨entries⟩ := σ
  cases entries with
  | nil => exact ⟨fun _ _ => rfl, fun _ => rfl⟩
  | cons e rest =>
    refine ⟨fun empty => (Bool.false_ne_true empty).elim, fun unknown => ?_⟩
    have found := unknown e.1
    rw [Table.find?, Table.lookup, if_pos rfl] at found
    cases found

mutual

theorem replace_congr (same : ∀ name, σ.find? name = τ.find? name) :
    (t : TypeRef) → σ.replace t = τ.replace t
  | .primitive _ => rfl
  | .pointer inner _ => by rw [replace, replace, replace_congr same inner]
  | .array inner _ => by rw [replace, replace, replace_congr same inner]
  | .tuple elems => by rw [replace, replace, replaceAll_congr same elems]
  | .function params ret _ => by
    rw [replace, replace, replaceAll_congr same params, replace_congr same ret]
  | .named name [] _ => by rw [replace, replace, same name]
  | .named _ (arg :: args) _ => by
    rw [replace, replace, replace_congr same arg, replaceAll_congr same args]

theorem replaceAll_congr (same : ∀ name, σ.find? name = τ.find? name) :
    (types : List TypeRef) → σ.replaceAll types = τ.replaceAll types
  | [] => rfl
  | t :: rest => by rw [replaceAll, replaceAll, replace_congr same t, replaceAll_congr same rest]

end

theorem apply_congr (same : ∀ name, σ.find? name = τ.find? name) (t : TypeRef) :
    σ.apply t = τ.apply t := by
  have empty : σ.isEmpty = τ.isEmpty := by
    rw [Bool.eq_iff_iff, isEmpty_iff, isEmpty_iff]
    simp only [same]
  rw [apply, apply, empty, replace_congr same]

/-! ### Replacing twice -/

theorem replace_pointerTo (σ : Substitution) (t : TypeRef) (depth : Nat) :
    σ.replace (.pointerTo t depth) = .pointerTo (σ.replace t) depth := by
  rcases TypeRef.pointerTo_cases t depth with ⟨rfl, eq⟩ | ⟨inner, d, -, rfl, eq⟩ | ⟨-, -, eq⟩
  · rw [eq]; rfl
  · rw [eq, replace, replace, TypeRef.pointerTo_pointerTo]
  · rw [eq, replace]

theorem replace_arrayOf (σ : Substitution) (t : TypeRef) (dims : List Nat) :
    σ.replace (.arrayOf t dims) = .arrayOf (σ.replace t) dims := by
  rcases TypeRef.arrayOf_cases t dims with ⟨rfl, eq⟩ | ⟨inner, ds, -, rfl, eq⟩ | ⟨-, -, eq⟩
  · rw [eq]; rfl
  · rw [eq, replace, replace, TypeRef.arrayOf_arrayOf]
  · rw [eq, replace]

mutual

/-- Only names without arguments are replaced, so it is enough to know what becomes of these. -/
theorem replace_replace
    (composed : ∀ name, ρ.find? name = ((σ.find? name).map τ.replace).or (τ.find? name)) :
    (t : TypeRef) → τ.replace (σ.replace t) = ρ.replace t
  | .primitive _ => rfl
  | .pointer inner depth => by
    rw [replace, replace, replace_pointerTo, replace_replace composed inner]
  | .array inner dims => by rw [replace, replace, replace_arrayOf, replace_replace composed inner]
  | .tuple elems => by rw [replace, replace, replace, replaceAll_replaceAll composed elems]
  | .function params ret variadic => by
    rw [replace, replace, replace, replaceAll_replaceAll composed params,
      replace_replace composed ret]
  | .named name [] hint => by
    rw [replace, replace, composed name]
    cases σ.find? name with
    | none => rw [Option.getD_none, replace]; rfl
    | some t => rfl
  | .named name (arg :: args) hint => by
    rw [replace, replace, replace, replace_replace composed arg,
      replaceAll_replaceAll composed args]

theorem replaceAll_replaceAll
    (composed : ∀ name, ρ.find? name = ((σ.find? name).map τ.replace).or (τ.find? name)) :
    (types : List TypeRef) → τ.replaceAll (σ.replaceAll types) = ρ.replaceAll types
  | [] => rfl
  | t :: rest => by
    rw [replaceAll, replaceAll, replaceAll, replace_replace composed t,
      replaceAll_replaceAll composed rest]

end

/-! ### Applying twice -/

/-- First `σ` and then `τ`, as one substitution. -/
def composite (σ τ : Substitution) : Substitution :=
  ⟨σ.entries.map (fun e => (e.1, τ.apply e.2)) ++ τ.entries.filter fun e => !σ.contains e.1⟩

/-- `ρ` maps what `σ` maps, with `τ` applied, and else what `τ` maps. -/
def Composes (σ τ ρ : Substitution) : Prop :=
  ∀ name, ρ.find? name = ((σ.find? name).map τ.apply).or (τ.find? name)

theorem lookup_applied (name : String) (entries rest : List (String × TypeRef)) :
    Table.lookup name (entries.map (fun e => (e.1, τ.apply e.2)) ++ rest) =
      ((Table.lookup name entries).map τ.apply).or (Table.lookup name rest) := by
  induction entries with
  | nil => rfl
  | cons e more ih =>
    rw [List.map_cons, List.cons_append, Table.lookup, Table.lookup, ih]
    by_cases same : e.1 = name <;> simp [same]

theorem lookup_left {name : String} (unknown : σ.find? name = none)
    (entries : List (String × TypeRef)) :
    Table.lookup name (entries.filter fun e => !σ.contains e.1) = Table.lookup name entries := by
  induction entries with
  | nil => rfl
  | cons e more ih =>
    by_cases same : e.1 = name
    · simp [Table.lookup, Table.contains, same, unknown]
    · by_cases known : σ.contains e.1 = true <;> simp [Table.lookup, same, known, ih]

theorem composes_composite (σ τ : Substitution) : σ.Composes τ (σ.composite τ) := by
  intro name
  refine (lookup_applied name σ.entries _).trans ?_
  change ((σ.find? name).map τ.apply).or _ = _
  cases found : σ.find? name with
  | none => exact lookup_left found τ.entries
  | some t => rfl

theorem apply_apply (composed : σ.Composes τ ρ) (t : TypeRef) :
    τ.apply (σ.apply t) = ρ.apply t := by
  by_cases noσ : σ.isEmpty = true
  · have same (name : String) : τ.find? name = ρ.find? name := by
      rw [composed name, isEmpty_iff.mp noσ name]
      rfl
    have keeps : σ.apply t = t := if_pos noσ
    rw [keeps, apply_congr same]
  by_cases noτ : τ.isEmpty = true
  · have keeps (u : TypeRef) : τ.apply u = u := if_pos noτ
    have same (name : String) : σ.find? name = ρ.find? name := by
      rw [composed name, isEmpty_iff.mp noτ name, Option.or_none]
      cases σ.find? name with
      | none => rfl
      | some u => exact congrArg some (keeps u).symm
    rw [keeps, apply_congr same]
  · have replaces (u : TypeRef) : τ.apply u = τ.replace u := if_neg noτ
    have noρ : ¬ ρ.isEmpty = true := by
      intro empty
      refine noτ (isEmpty_iff.mpr fun name => ?_)
      have unknown := (composed name).symm.trans (isEmpty_iff.mp empty name)
      exact (Option.or_eq_none_iff.mp unknown).2
    rw [replaces, apply, if_neg noσ, apply, if_neg noρ]
    refine replace_replace (fun name => ?_) t
    rw [composed name, funext replaces]

/-- Where the pointer depths of the result are in range, those on the way to it are. -/
theorem fits_of_fits_apply {t : TypeRef} (h : (σ.apply t).fits = true) : t.fits = true := by
  unfold apply at h
  split at h
  · exact h
  · exact fits_of_fits_replace t h

theorem substitute_substitute (composed : σ.Composes τ ρ) (t : TypeRef) :
    (Gen.substitute σ t >>= Gen.substitute τ) = Gen.substitute ρ t := by
  have same := apply_apply composed t
  by_cases fits : (σ.apply t).fits = true
  · have first : Gen.substitute σ t = pure (σ.apply t) := if_pos fits
    rw [first, pure_bind, Gen.substitute, Gen.substitute, same]
  · have first : Gen.substitute σ t = throw .overflow := if_neg fits
    have beyond : ¬ (ρ.apply t).fits = true := fun h => fits (fits_of_fits_apply (same ▸ h))
    rw [first, Gen.substitute, if_neg beyond]
    rfl

theorem composes_self (normal : σ.Normal) (closed : σ.Closed) : σ.Composes σ σ := by
  intro name
  cases found : σ.find? name with
  | none => rfl
  | some t =>
    have fixed : σ.apply t = t := by
      rw [apply_eq_replace σ (normal.found found)]
      exact replace_eq_self t (normal.found found) (closed name t found)
    rw [Option.map_some, fixed]
    rfl

/-- Two substitutions in a row are one, also as steps that check the range of pointer depths. A
substitution into normal types without its own parameters can be carried out any number of times. -/
theorem apply_composes (σ τ : Substitution) :
    (∃ ρ, σ.Composes τ ρ) ∧
      (∀ ρ, σ.Composes τ ρ → ∀ t : TypeRef, τ.apply (σ.apply t) = ρ.apply t ∧
        (Gen.substitute σ t >>= Gen.substitute τ) = Gen.substitute ρ t) ∧
      (σ.Normal → σ.Closed → ∀ t : TypeRef, σ.apply (σ.apply t) = σ.apply t) := by
  refine ⟨⟨_, composes_composite σ τ⟩, fun ρ composed t => ?_, fun normal closed t => ?_⟩
  · exact ⟨apply_apply composed t, substitute_substitute composed t⟩
  · exact apply_apply (composes_self normal closed) t

/-- `A ↦ B*` and then `B ↦ C[2]` under a pointer and a pointer of depth zero. -/
theorem apply_composes_wrapped :
    let σ := ofParams ["A"] [.pointer (.ofName "B") 1]
    let τ := ofParams ["B"] [.array (.ofName "C") [2]]
    let t : TypeRef := .pointer (.pointer (.ofName "A") 0) 2
    τ.apply (σ.apply t) = .pointer (.array (.ofName "C") [2]) 3 ∧
      (σ.composite τ).apply t = .pointer (.array (.ofName "C") [2]) 3 ∧
      σ.apply (σ.apply t) = σ.apply t := by
  intro σ τ t
  have both := apply_composes σ τ
  have merged : (σ.composite τ).apply t = .pointer (.array (.ofName "C") [2]) 3 := rfl
  refine ⟨((both.2.1 _ (composes_composite σ τ) t).1).trans merged, merged, both.2.2 ?_ ?_ t⟩
  · intro u member
    obtain rfl := List.mem_singleton.mp member
    rfl
  · intro param u found name member
    obtain ⟨-, rfl⟩ : "A" = param ∧ TypeRef.pointer (.ofName "B") 1 = u := by
      change (if "A" = param then some _ else none) = some u at found
      split at found
      case isTrue same => exact ⟨same, Option.some.inj found⟩
      case isFalse => cases found
    obtain rfl := List.mem_singleton.mp member
    rfl

end Substitution

end Backend
