import Backend.Proofs.Resolution.Substituted
import Backend.Proofs.Session.Over

/-!
Substituting first or while resolving. A resolver meets parameters one by one and looks up what they
stand for; the same type and the same session result if all of them are replaced beforehand, as long
as nobody listens. A collector hears of failures to lay out what a pointer points to, and these
depend on how deep the resolution is.
-/

namespace Backend

/-- Parameters stand in the targets of aliases only where the alias has a parameter of that name. -/
def Declarations.Spares (D : Declarations) (σ : Substitution) : Prop :=
  ∀ a ∈ D.aliases.values, ∀ name ∈ a.target.simpleNames,
    name ∈ a.typeParams ∨ σ.find? name = none

theorem Session.steady_of_spares {s : Session} {σ : Substitution} (normal : s.decls.Normal)
    (spares : s.decls.Spares σ) (quiet : s.activeCollector? = none) : s.Steady False σ where
  holds := {
    decls := normal.declares
    aliases := rfl
    payloads := fun _ _ bodies => bodies.elim
    owners := fun bodies => bodies.elim
    quiet := fun _ => quiet }
  undeclared bodies := bodies.elim
  targets := spares

theorem Substitution.Ground.ofParams {params : List String} {args : List TypeRef}
    (normal : ∀ t ∈ args, t.isNormal = true)
    (closed : ∀ t ∈ args, ∀ name ∈ t.simpleNames, name ∉ params)
    (primitive : ∀ name ∈ params, Primitive.ofName? name = none) :
    (Substitution.ofParams params args).Ground where
  normal := Substitution.normal_ofParams normal
  closed param t found name inside := by
    rw [Option.eq_none_iff_forall_ne_some]
    intro u known
    exact closed t (Substitution.mem_of_find?_ofParams found).2 name inside
      (Substitution.mem_of_find?_ofParams known).1
  primitive name p spelled := by
    rw [Option.eq_none_iff_forall_ne_some]
    intro u known
    cases spelled.symm.trans (primitive name (Substitution.mem_of_find?_ofParams known).1)

/-- Resolving under a substitution is resolving the substituted type, in any session with normal
declarations and no collector. The substitution maps to normal types without parameters of its own,
maps no primitive and is spared by the targets of aliases. -/
theorem Gen.resolve_eagerly {s s' : Session} {σ : Substitution} {t : TypeRef} {ty : IrType}
    (declarations : s.decls.Normal) (quiet : s.activeCollector? = none) (ground : σ.Ground)
    (spares : s.decls.Spares σ) (normal : t.isNormal = true)
    (run : resolve t σ s = .ok ty s') : resolve (σ.apply t) {} s = .ok ty s' := by
  have steady := Session.steady_of_spares declarations spares quiet
  obtain ⟨-, asked, goes, again⟩ := resolve_image ground normal run steady
  have here := again s.resolveDepth (Nat.le_refl _) s.pending
  rw [goes.moved] at here
  exact here

/-! ### A parameter as an argument -/

def holderModule : Module where
  name := "holder"
  decls := [
    .struct { name := "Box", typeParams := ["T"], fields := [⟨"value", .ofName "T"⟩] },
    .typeAlias { name := "Ref", typeParams := ["T"], target := .pointer (.ofName "T") 1 }]

/-- `Ref<Box<T>>*` for `T ↦ i32*`. -/
theorem Gen.resolve_eagerly_holder :
    let σ := Substitution.ofParams ["T"] [.pointer .i32 1]
    let s := (Session.ofOptions {}).registerAll holderModule
    ∃ ty s', resolve (.pointer (.named "Ref" [.named "Box" [.ofName "T"] none] none) 1) σ s =
        .ok ty s' ∧
      resolve (.pointer (.named "Ref" [.named "Box" [.pointer .i32 1] none] none) 1) {} s =
        .ok ty s' := by
  intro σ s
  have succeeds : (resolve (.pointer (.named "Ref" [.named "Box" [.ofName "T"] none] none) 1)
      σ).succeeds s = true := by decide +kernel
  obtain ⟨ty, s', run⟩ := exists_ok succeeds
  have spares : s.decls.Spares σ := by unfold Declarations.Spares; decide +kernel
  exact ⟨ty, s', run, resolve_eagerly (by constructor <;> decide +kernel) rfl
    (.ofParams (by decide) (by decide) (by decide)) spares (by decide) run⟩

/-! ### A collector that listens -/

def TypeRef.nest : Nat → TypeRef → TypeRef
  | 0, t => t
  | n + 1, t => .tuple [nest n t]

/-- Boxes point to a type that takes some levels to lay out, and the way to a box is long. -/
def deepModule : Module where
  name := "deep"
  decls := [
    .struct { name := "Deep", fields := [⟨"value", .nest 4 .i32⟩] },
    .struct {
      name := "Box", typeParams := ["U"], fields := [⟨"link", .pointer (.ofName "Deep") 1⟩] },
    .typeAlias { name := "A", target := .nest 48 (.ofName "B") },
    .typeAlias { name := "B", target := .nest 48 (.ofName "C") },
    .typeAlias { name := "C", target := .nest 48 (.ofName "D") },
    .typeAlias { name := "D", target := .nest 46 (.named "Box" [.i32] none) }]

/-- With a collector the box is described while it is laid out, and so is what it points to if that
can be laid out. Under the substitution this takes a level too many. -/
theorem Gen.resolve_eagerly_heard :
    let σ := Substitution.ofParams ["T"] [.ofName "A"]
    let s := (Session.ofOptions { debugInfo := true } (some .recording)).registerAll deepModule
    (s.decls.Normal ∧ σ.Ground ∧ s.decls.Spares σ ∧ s.decls.kind? "T" none = none ∧
        s.decls.aliases.contains "T" = false) ∧
      ∃ ty s₁ ty' s₂, resolve (.ofName "T") σ s = .ok ty s₁ ∧
        resolve (σ.apply (.ofName "T")) {} s = .ok ty' s₂ ∧
        s₁.layouts.structs.contains "Deep" = false ∧
        s₂.layouts.structs.contains "Deep" = true := by
  intro σ s
  refine ⟨⟨by constructor <;> decide +kernel, .ofParams (by decide) (by decide) (by decide),
    by unfold Declarations.Spares; decide +kernel, by decide +kernel, by decide +kernel⟩, ?_⟩
  obtain ⟨ty, s₁, lazily, missing⟩ := exists_reached (x := resolve (.ofName "T") σ) (s := s)
    (P := fun s => s.layouts.structs.contains "Deep" = false) (by decide +kernel)
  obtain ⟨ty', s₂, eagerly, found⟩ :=
    exists_reached (x := resolve (σ.apply (.ofName "T")) {}) (s := s)
      (P := fun s => s.layouts.structs.contains "Deep" = true) (by decide +kernel)
  exact ⟨ty, s₁, ty', s₂, lazily, eagerly, missing, found⟩

end Backend
