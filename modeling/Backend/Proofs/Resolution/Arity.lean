import Backend.Proofs.Session.Course

/-!
References with a wrong number of arguments. Structs and enums are checked when an instance is asked
for, and aliases where they are followed. Main statement: the mismatch is reported and the session
is left as it was, unless a struct or an enum is referred to without any arguments. Such a
reference is the name itself, which is how every struct and enum without parameters is referred to.
-/

namespace Backend

/-- What a name refers to: how messages call the declaration, and how many parameters it has. -/
def Declarations.arity? (d : Declarations) (name : String) (hint : Option DeclKind) :
    Option (String × Nat) :=
  match d.kind? name hint with
  | some .struct => (d.structs.find? name).map fun s => (name, s.typeParams.length)
  | some .enum => (d.enums.find? name).map fun e => (name, e.typeParams.length)
  | none => (d.aliases.find? name).map fun a => (a.name, a.typeParams.length)

def Halt.wrongArity (decl : String) (expected got : Nat) : Halt :=
  .failed { cause := .genericArity decl expected got }

variable {args : List TypeRef} {s : Session} {resolve : Resolver} {decl name : String}
  {kind : DeclKind} {hint : Option DeclKind} {σ : Substitution}

/-! ### The checks -/

theorem checkArity_of_ne {params : List String} (differs : params.length ≠ args.length) :
    checkArity decl params args s = .error (.wrongArity decl params.length args.length) s := by
  rw [checkArity, if_neg differs]
  rfl

theorem isIdentity_of_ne {params : List String} (differs : params.length ≠ args.length) :
    isIdentity params args = false := by
  simp [isIdentity, differs]

theorem Template.find_of_declared {expected : Nat}
    (declared : s.decls.arity? name hint = some (decl, expected))
    (known : s.decls.kind? name hint = some kind) :
    ∃ t : Template,
      Template.find kind name s = .ok t s ∧ t.typeParams.length = expected ∧ decl = name := by
  rw [Declarations.arity?, known] at declared
  cases kind with
  | struct =>
    obtain ⟨d, found, same⟩ := Option.map_eq_some_iff.mp declared
    cases same
    refine ⟨.struct d, ?_, rfl, rfl⟩
    rw [Template.find, Gen.bind_of_ok (x := get) rfl, found]
    rfl
  | enum =>
    obtain ⟨d, found, same⟩ := Option.map_eq_some_iff.mp declared
    cases same
    refine ⟨.enum d, ?_, rfl, rfl⟩
    rw [Template.find, Gen.bind_of_ok (x := get) rfl, found]
    rfl

theorem Gen.substituteAll_of_fits (fits : TypeRef.allFit (σ.applyAll args) = true) :
    Gen.substituteAll σ args s = .ok (σ.applyAll args) s := by
  rw [Gen.substituteAll, if_pos fits]
  rfl

namespace Resolution

theorem instantiate_wrongArity {t : Template} (found : Template.find kind name s = .ok t s)
    (fits : TypeRef.allFit args = true) (differs : t.typeParams.length ≠ args.length) :
    instantiate resolve kind name args {} s =
      .error (.wrongArity name t.typeParams.length args.length) s := by
  have kept : Substitution.applyAll {} args = args := List.map_id' args
  have given : Gen.substituteAll {} args s = .ok args s :=
    (Gen.substituteAll_of_fits (by rw [kept]; exact fits)).trans (by rw [kept])
  unfold instantiate
  rw [Gen.bind_of_ok given, Gen.bind_of_ok found, isIdentity_of_ne differs,
    if_neg Bool.false_ne_true]
  exact Gen.bind_of_error (checkArity_of_ne differs)

theorem aliasTarget_wrongArity {a : AliasDecl} (found : s.decls.aliases.find? name = some a)
    (differs : a.typeParams.length ≠ args.length) :
    aliasTarget name args s = .error (.wrongArity a.name a.typeParams.length args.length) s := by
  unfold aliasTarget
  rw [Gen.bind_of_ok (x := get) rfl, found, orFail, pure_bind]
  exact Gen.bind_of_error (checkArity_of_ne differs)

/-! ### References -/

variable {expected : Nat}

theorem declaredType_wrongArity (declared : s.decls.arity? name hint = some (decl, expected))
    (fits : TypeRef.allFit (σ.applyAll args) = true) (differs : expected ≠ args.length)
    (checked : args ≠ [] ∨ s.decls.kind? name hint = none) :
    declaredType resolve name args hint σ s = .error (.wrongArity decl expected args.length) s := by
  have length : (σ.applyAll args).length = args.length := List.length_map _
  rw [← length] at differs ⊢
  unfold declaredType
  rw [Gen.bind_of_ok (Gen.substituteAll_of_fits fits), Gen.bind_of_ok (x := get) rfl]
  cases known : s.decls.kind? name hint with
  | some kind =>
    obtain ⟨t, found, rfl, rfl⟩ := Template.find_of_declared declared known
    have given : args ≠ [] := checked.resolve_right (by rw [known]; exact Option.some_ne_none kind)
    have listed : (σ.applyAll args).isEmpty = false := by
      rw [List.isEmpty_eq_false_iff, ← List.length_pos_iff, length, List.length_pos_iff]
      exact given
    simp only [concreteType, listed, Bool.false_eq_true, if_false]
    exact Gen.bind_of_error (instantiate_wrongArity found fits differs)
  | none =>
    rw [Declarations.arity?, known] at declared
    obtain ⟨a, found, same⟩ := Option.map_eq_some_iff.mp declared
    cases same
    exact Gen.bind_of_error (aliasTarget_wrongArity found differs)

theorem declaredType_bare (known : s.decls.kind? name hint = some kind) :
    declaredType resolve name [] hint σ s = .ok (kind.irType name) s := by
  unfold declaredType
  rw [Gen.bind_of_ok (Gen.substituteAll_of_fits rfl), Gen.bind_of_ok (x := get) rfl, known]
  rfl

theorem step_named (unspelled : Primitive.ofName? name = none) (unbound : σ.find? name = none) :
    step resolve (.named name args hint) σ = declaredType resolve name args hint σ := by
  cases args with
  | cons arg rest => rfl
  | nil =>
    have other : σ.isSelfMapped name = false := by
      rw [Substitution.isSelfMapped, unbound]
    rw [step, simpleName, unspelled]
    simp only [other, Bool.false_eq_true, if_false, unbound]

end Resolution

open Resolution in
/-- A reference to a declaration with a wrong number of arguments fails and leaves the session as it
was. Only a struct or an enum without any arguments is not checked. -/
theorem Gen.resolve_wrongArity (s : Session) (name : String) (args : List TypeRef)
    (hint : Option DeclKind) (σ : Substitution) (decl : String) (expected : Nat)
    (declared : s.decls.arity? name hint = some (decl, expected))
    (unspelled : Primitive.ofName? name = none) (unbound : σ.find? name = none)
    (differs : expected ≠ args.length) (within : s.resolveDepth < maxResolveDepth)
    (fits : TypeRef.allFit (σ.applyAll args) = true) :
    (args ≠ [] ∨ s.decls.kind? name hint = none →
      Gen.resolve (.named name args hint) σ s = .error (.wrongArity decl expected args.length) s) ∧
    (∀ kind, args = [] → s.decls.kind? name hint = some kind →
      Gen.resolve (.named name args hint) σ s = .ok (kind.irType name) s) := by
  let deeper : Session := { s with resolveDepth := s.resolveDepth + 1 }
  have nested : Gen.resolve (.named name args hint) σ s =
      leave (declaredType (resolveWithin maxResolveDepth) name args hint σ deeper) := by
    rw [← step_named unspelled unbound]
    exact nested_of_lt within
  refine ⟨fun checked => ?_, fun kind bare known => ?_⟩
  · exact nested.trans
      (congrArg leave (declaredType_wrongArity (s := deeper) declared fits differs checked))
  · subst bare
    exact nested.trans (congrArg leave (declaredType_bare (s := deeper) known))

def boxDeclarations : Session :=
  [.struct { name := "Box", typeParams := ["T"], fields := [⟨"content", .ofName "T"⟩] },
    .enum { name := "Maybe", typeParams := ["T"], variants := [{ name := "None" }] },
    .typeAlias { name := "Boxes", typeParams := ["T"],
                 target := .array (.named "Box" [.ofName "T"] none) [8] }].foldl
    Session.register (.ofOptions {})

/-- Too many arguments for an enum, some of them parameters, and none for an alias. -/
theorem Gen.resolve_wrongArity_boxes :
    Gen.resolve (.named "Maybe" [.i32, .pointer (.ofName "U") 1] none) (.ofParams ["U"] [.string])
        boxDeclarations = .error (.wrongArity "Maybe" 1 2) boxDeclarations ∧
      Gen.resolve (.ofName "Boxes") {} boxDeclarations =
        .error (.wrongArity "Boxes" 1 0) boxDeclarations := by
  constructor
  · exact (Gen.resolve_wrongArity boxDeclarations "Maybe" _ none _ "Maybe" 1 (by rfl) (by decide)
      (by decide) (by decide) (by decide) (by decide)).1 (.inl (List.cons_ne_nil _ _))
  · exact (Gen.resolve_wrongArity boxDeclarations "Boxes" [] none {} "Boxes" 1 (by rfl) (by decide)
      (by decide) (by decide) (by decide) (by decide)).1 (.inr (by decide))

/-- A box without its argument is taken for a type of that name. -/
theorem Gen.resolve_bare_template :
    boxDeclarations.decls.arity? "Box" none = some ("Box", 1) ∧
      Gen.resolve (.ofName "Box") {} boxDeclarations = .ok (.struct "Box") boxDeclarations := by
  exact ⟨by rfl, by rfl⟩

end Backend
