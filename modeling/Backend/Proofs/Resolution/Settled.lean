import Backend.Proofs.Resolution.Requests
import Backend.Proofs.Session.Function

/-!
Names keep their meaning. Over declarations whose names no instance takes, a session only adds
instances to what is declared. So a type that was resolved once stands for the same struct or enum
ever after, and `Declarations.Stands` says for which one.
-/

namespace Backend

open Gen (Moves Keeps)
open Session (Course)

variable {kind kind' : DeclKind} {args : List TypeRef} {levels : Nat} {hint : Option DeclKind}
  {base name name' : String} {d : StructDecl} {t : Template} {ty : TypeRef}

namespace Declarations

variable {D D' D'' : Declarations} {n : String}

def declares (D : Declarations) (n : String) : Bool :=
  D.structs.contains n || D.enums.contains n || D.aliases.contains n

theorem declares_iff : D.declares n = true ↔
    (∃ kind t, D.template? kind n = some t) ∨ ∃ a, D.aliases.find? n = some a := by
  simp only [declares, Bool.or_eq_true, Table.contains_iff]
  refine or_congr_left ⟨?_, ?_⟩
  · rintro (⟨d, found⟩ | ⟨d, found⟩)
    · exact ⟨.struct, _, template?_struct.mpr found⟩
    · exact ⟨.enum, _, template?_enum.mpr found⟩
  · rintro ⟨kind, t, found⟩
    cases kind with
    | struct =>
      obtain ⟨d, found, -⟩ := Option.map_eq_some_iff.mp found
      exact .inl ⟨d, found⟩
    | enum =>
      obtain ⟨d, found, -⟩ := Option.map_eq_some_iff.mp found
      exact .inr ⟨d, found⟩

theorem declares_of_template? (h : D.template? kind n = some t) : D.declares n = true :=
  declares_iff.mpr (.inl ⟨kind, t, h⟩)

/-- What is declared means the same from then on. -/
structure Settles (D D' : Declarations) : Prop where
  aliases : D'.aliases = D.aliases
  same : ∀ {n}, D.declares n = true → ∀ kind, D'.template? kind n = D.template? kind n

namespace Settles

theorem refl : D.Settles D := ⟨rfl, fun _ _ => rfl⟩

theorem declares (h : D.Settles D') (known : D.declares n = true) : D'.declares n = true := by
  rcases declares_iff.mp known with ⟨kind, t, found⟩ | ⟨a, found⟩
  · exact declares_of_template? ((h.same known kind).trans found)
  · exact declares_iff.mpr (.inr ⟨a, h.aliases ▸ found⟩)

theorem trans (h : D.Settles D') (h' : D'.Settles D'') : D.Settles D'' where
  aliases := h'.aliases.trans h.aliases
  same known kind := (h'.same (h.declares known) kind).trans (h.same known kind)

theorem template? (h : D.Settles D') {kind : DeclKind} {t : Template}
    (found : D.template? kind n = some t) : D'.template? kind n = some t :=
  (h.same (declares_of_template? found) kind).trans found

theorem struct (h : D.Settles D') (found : D.structs.find? n = some d) :
    D'.structs.find? n = some d :=
  template?_struct.mp (h.template? (template?_struct.mpr found))

theorem kind? (h : D.Settles D') (known : D.declares n = true) (hint : Option DeclKind) :
    D'.kind? n hint = D.kind? n hint := by
  have contains (kind : DeclKind) : D'.contains kind n = D.contains kind n := by
    rw [contains_eq, contains_eq, h.same known]
  have structs : D'.structs.contains n = D.structs.contains n := contains .struct
  have enums : D'.enums.contains n = D.enums.contains n := contains .enum
  simp only [Declarations.kind?, contains, structs, enums]

end Settles

theorem declares_of_kind? (h : D.kind? n hint = some kind) : D.declares n = true := by
  cases unknown : D.declares n with
  | true => rfl
  | false =>
    simp only [declares, Bool.or_eq_false_iff] at unknown
    obtain ⟨⟨structs, enums⟩, -⟩ := unknown
    have contains (kind : DeclKind) : D.contains kind n = false := by
      cases kind with
      | struct => exact structs
      | enum => exact enums
    simp [kind?, contains, structs, enums] at h

theorem Settles.meaning (h : D.Settles D') {args : List TypeRef} {hint : Option DeclKind}
    (known : D.meaning n args hint ≠ .unknown) : D'.meaning n args hint = D.meaning n args hint := by
  unfold Declarations.meaning at known ⊢
  cases primitive : if args.isEmpty then Primitive.ofName? n else none with
  | some p => rfl
  | none =>
    rw [primitive] at known
    have declared : D.declares n = true := by
      dsimp only at known
      split at known
      case h_1 kind found => exact declares_of_kind? found
      case h_2 =>
        split at known
        case h_1 a found => exact declares_iff.mpr (.inr ⟨a, found⟩)
        case h_2 => exact (known rfl).elim
    rw [h.kind? declared, h.aliases]

theorem Settles.expands (h : D.Settles D') {t target : TypeRef} (expands : D.Expands t target) :
    D'.Expands t target := by
  obtain ⟨name, args, hint, a, rfl, meaning, rfl⟩ := expands
  refine ⟨name, args, hint, a, rfl, (h.meaning ?_).trans meaning, rfl⟩
  rw [meaning]
  exact Meaning.noConfusion

theorem Settles.declaredAs (h : D.Settles D') (meaning : D.meaning n args hint = .declared kind) :
    D'.meaning n args hint = .declared kind := by
  refine (h.meaning ?_).trans meaning
  rw [meaning]
  exact Meaning.noConfusion

theorem kind?_of_meaning (h : D.meaning n args hint = .declared kind) :
    D.kind? n hint = some kind := by
  unfold meaning at h
  split at h
  · cases h
  · split at h
    case h_1 found =>
      cases h
      exact found
    case h_2 => split at h <;> cases h

theorem Settles.instanceName (h : D.Settles D') {kind : DeclKind} {base : String}
    (known : D.declares base = true) (args : List TypeRef) :
    D'.instanceName kind base args = D.instanceName kind base args := by
  rw [Declarations.instanceName, Declarations.instanceName, h.same known, h.aliases]

theorem Stands.settled (stands : D.Stands ty kind name) (h : D.Settles D') :
    D'.Stands ty kind name := by
  induction stands with
  | declared meaning => exact .declared (h.declaredAs meaning)
  | made mention =>
    obtain ⟨hint, rfl, some, meaning⟩ := mention
    rw [← h.instanceName (declares_of_kind? (kind?_of_meaning meaning))]
    exact .made ⟨hint, rfl, some, h.declaredAs meaning⟩
  | expands expands _ ih => exact .expands (h.expands expands) ih
  | pointer _ ih => exact .pointer ih
  | array _ ih => exact .array ih

theorem Stands.unique (stands : D.Stands ty kind name) (stands' : D.Stands ty kind' name') :
    kind = kind' ∧ name = name' := by
  induction stands generalizing kind' name' with
  | declared meaning =>
    cases stands' with
    | declared meaning' =>
      cases meaning.symm.trans meaning'
      exact ⟨rfl, rfl⟩
    | made mention =>
      obtain ⟨_, same, some, -⟩ := mention
      cases same
      exact (some rfl).elim
    | expands expands =>
      obtain ⟨_, _, _, _, same, meaning', -⟩ := expands
      cases same
      cases meaning.symm.trans meaning'
  | made mention =>
    obtain ⟨_, rfl, some, meaning⟩ := mention
    cases stands' with
    | declared => exact (some rfl).elim
    | made mention' =>
      obtain ⟨_, same, -, meaning'⟩ := mention'
      cases same
      cases meaning.symm.trans meaning'
      exact ⟨rfl, rfl⟩
    | expands expands =>
      obtain ⟨_, _, _, _, same, meaning', -⟩ := expands
      cases same
      cases meaning.symm.trans meaning'
  | expands expands _ ih =>
    obtain ⟨_, _, _, _, rfl, meaning, rfl⟩ := expands
    cases stands' with
    | declared meaning' => cases meaning.symm.trans meaning'
    | made mention =>
      obtain ⟨_, same, -, meaning'⟩ := mention
      cases same
      cases meaning.symm.trans meaning'
    | expands expands' stands' =>
      obtain ⟨_, _, _, _, same, meaning', rfl⟩ := expands'
      cases same
      cases meaning.symm.trans meaning'
      exact ih stands'
  | pointer _ ih =>
    cases stands' with
    | made mention => obtain ⟨_, same, -⟩ := mention; cases same
    | expands expands => obtain ⟨_, _, _, _, same, -⟩ := expands; cases same
    | pointer stands' => exact ih stands'
  | array _ ih =>
    cases stands' with
    | made mention => obtain ⟨_, same, -⟩ := mention; cases same
    | expands expands => obtain ⟨_, _, _, _, same, -⟩ := expands; cases same
    | array stands' => exact ih stands'

theorem settles_declare (new : D.declares name = false) : D.Settles (D.declare name t) where
  aliases := aliases_declare
  same := by
    intro n known kind
    rw [template?_declare, if_neg]
    rintro ⟨-, rfl⟩
    rw [new] at known
    cases known

theorem declares_declare (h : (D.declare name t).declares n = true) :
    n = name ∨ D.declares n = true := by
  rcases declares_iff.mp h with ⟨kind, u, found⟩ | ⟨a, found⟩
  · rw [template?_declare] at found
    split at found
    case isTrue same => exact .inl same.2.symm
    case isFalse => exact .inr (declares_of_template? found)
  · rw [aliases_declare] at found
    exact .inr (declares_iff.mpr (.inr ⟨a, found⟩))

def Parent (D : Declarations) (child parent : String) : Prop :=
  ∃ d ty, D.structs.find? child = some d ∧ d.parent = some ty ∧ D.Stands ty .struct parent

theorem Parent.unique {child parent parent' : String} (h : D.Parent child parent)
    (h' : D.Parent child parent') : parent = parent' := by
  obtain ⟨d, ty, found, isParent, stands⟩ := h
  obtain ⟨d', ty', found', isParent', stands'⟩ := h'
  cases found.symm.trans found'
  cases isParent.symm.trans isParent'
  exact (stands.unique stands').2

theorem Parent.ofName {child parent : String} (found : D.structs.find? child = some d)
    (isParent : d.parent = some (.ofName parent)) (declared : D.structs.contains parent = true)
    (plain : Primitive.ofName? parent = none) : D.Parent child parent := by
  have kind : D.kind? parent none = some .struct := by
    rw [kind?, declared]
    rfl
  have meaning : D.meaning parent [] none = .declared .struct := by
    rw [Declarations.meaning, List.isEmpty_nil, if_pos rfl, plain, kind]
  exact ⟨d, _, found, isParent, .declared meaning⟩

theorem Parent.settled {D' : Declarations} {child parent : String} (h : D.Parent child parent)
    (settles : D.Settles D') : D'.Parent child parent := by
  obtain ⟨d, ty, found, isParent, stands⟩ := h
  exact ⟨d, ty, settles.struct found, isParent, stands.settled settles⟩

def ownerType (D : Declarations) (owner : String) : IrType :=
  if D.enums.contains owner then .enum owner else .struct owner

def receiver (D : Declarations) (owner : String) (m : FunctionDecl) : List IrType :=
  if m.isStatic then [] else [.ptr (D.ownerType owner)]

section

variable {owner name : String} {m : FunctionDecl}

theorem Settles.find? (h : D.Settles D') (known : D.declares n = true) :
    D'.structs.find? n = D.structs.find? n ∧ D'.enums.find? n = D.enums.find? n := by
  have structs := h.same known .struct
  have enums := h.same known .enum
  exact ⟨Option.map_injective (fun _ _ => Template.struct.inj) structs,
    Option.map_injective (fun _ _ => Template.enum.inj) enums⟩

theorem Settles.receiver (h : D.Settles D') (known : D.declares owner = true) (m : FunctionDecl) :
    D'.receiver owner m = D.receiver owner m := by
  rw [Declarations.receiver, Declarations.receiver, ownerType, ownerType, Table.contains,
    Table.contains, (h.find? known).2]

end

/-- Types that are declared, and what becomes of them at some arguments. -/
inductive Derives (D : Declarations) : Template → Prop where
  | declared {kind : DeclKind} {n : String} {t : Template} (found : D.template? kind n = some t) :
    Derives D t
  | concrete {t : Template} (σ : Substitution) (n : String) (h : Derives D t) :
    Derives D (t.concrete σ n)

end Declarations

/-! ### Sessions -/

namespace Session

def Separate (D : Declarations) (s : Session) : Prop :=
  ∀ n, s.instances.contains n = true → D.declares n = false

theorem separate_of_keys {D : Declarations} {s : Session}
    (h : ∀ n ∈ s.instances.keys, D.declares n = false) : s.Separate D := by
  intro n known
  obtain ⟨r, found⟩ := Table.contains_iff.mp known
  exact h n (List.mem_map.mpr ⟨(n, r), Table.mem_of_lookup found, rfl⟩)

/-- What `D` declares stands, and all else has been made from it. -/
structure RestsOn (D : Declarations) (s : Session) : Prop where
  settles : D.Settles s.decls
  made : ∀ {n}, s.decls.declares n = true → D.declares n = true ∨ s.instances.Started n
  derives : ∀ {kind n t}, s.decls.template? kind n = some t → D.Derives t

/-- Instances are added, and nothing loses its meaning as long as names do not clash. -/
structure Onward (D : Declarations) (s s' : Session) : Prop where
  names : ∀ {n}, s.instances.contains n = true → s'.instances.contains n = true
  started : ∀ {n}, s.instances.Started n → s'.instances.Started n
  settles : s'.Separate D → s.RestsOn D → s'.RestsOn D ∧ s.decls.Settles s'.decls

namespace Onward

variable {D : Declarations} {s s' s'' : Session}

theorem separate (h : Onward D s s') (separate : s'.Separate D) : s.Separate D :=
  fun n known => separate n (h.names known)

instance : IsPreorder Session (Onward D) where
  refl s := ⟨id, id, fun _ rests => ⟨rests, .refl⟩⟩
  trans s s' s'' h h' := by
    refine ⟨fun known => h'.names (h.names known), fun begun => h'.started (h.started begun),
      fun separate rests => ?_⟩
    obtain ⟨rests', settles⟩ := h.settles (h'.separate separate) rests
    obtain ⟨rests'', settles'⟩ := h'.settles separate rests'
    exact ⟨rests'', settles.trans settles'⟩

theorem of_instances (decls : s'.decls = s.decls)
    (names : ∀ {n}, s.instances.contains n = true → s'.instances.contains n = true)
    (started : ∀ {n}, s.instances.Started n → s'.instances.Started n) : Onward D s s' where
  names := names
  started := started
  settles _ rests := by
    refine ⟨⟨decls ▸ rests.settles, fun known => ?_, fun found => ?_⟩, decls ▸ .refl⟩
    · exact (rests.made (decls ▸ known)).imp_right started
    · exact rests.derives (decls ▸ found)

theorem of_same (decls : s'.decls = s.decls) (instances : s'.instances = s.instances) :
    Onward D s s' :=
  of_instances decls (fun known => instances ▸ known) fun begun => instances ▸ begun

theorem congr {s₀ s₀' : Session} (h : Onward D s₀ s₀') (decls : s₀.decls = s.decls)
    (instances : s₀.instances = s.instances) (decls' : s'.decls = s₀'.decls)
    (instances' : s'.instances = s₀'.instances) : Onward D s s' :=
  trans_of (Onward D) (trans_of (Onward D) (of_same decls instances) h) (of_same decls' instances')

theorem begun (s : Session) (base : String) (args : List TypeRef) (name : String) :
    Onward D s { s with instances := (InstanceTable.begin s.instances base args name).2 } :=
  of_instances rfl InstanceTable.contains_begin InstanceTable.started_begin

theorem completed (s : Session) (name : String) :
    Onward D s { s with instances := InstanceTable.complete s.instances name } :=
  of_instances rfl InstanceTable.contains_complete InstanceTable.started_complete

theorem requested (s : Session) (base : String) (args : List TypeRef) (name : String) :
    Onward D s { s with instances := (InstanceTable.request s.instances base args name).2 } :=
  of_instances rfl InstanceTable.contains_request InstanceTable.started_request

theorem request (base : String) (args : List TypeRef) (body : Pending) :
    Moves (Onward D) (Gen.requestBody base args body) := fun s =>
  .of_ok (Gen.requestBody_run base args body s)
    (congr (requested s base args body.symbol) rfl rfl rfl rfl)

theorem tell (call : DebugCall) : Moves (Onward D) (Gen.tell call) :=
  .tell (fun _ _ => of_same rfl rfl) call

theorem undeclared (makes : s.Makes kind t base args name)
    (separate : (s.withInstance t base args name).Separate D) (rests : s.RestsOn D) :
    s.decls.declares name = false := by
  refine Bool.eq_false_iff.mpr fun known => ?_
  rcases rests.made known with declared | started
  · have begun := InstanceTable.started_of_begin s.instances base args name
    cases (separate name begun.contains).symm.trans declared
  · exact InstanceTable.not_started_of_fresh makes.fresh started

theorem withInstance {kind : DeclKind} {t : Template} {base : String} {args : List TypeRef}
    {name : String} (makes : s.Makes kind t base args name) :
    Onward D s (s.withInstance t base args name) where
  names := InstanceTable.contains_begin
  started := InstanceTable.started_begin
  settles separate rests := by
    have begun := InstanceTable.started_of_begin s.instances base args name
    have settles : s.decls.Settles (s.decls.declare name (t.made args name)) :=
      Declarations.settles_declare (undeclared makes separate rests)
    refine ⟨⟨rests.settles.trans settles, fun known => ?_, fun {kind n u} found => ?_⟩, settles⟩
    · rcases Declarations.declares_declare known with rfl | known
      · exact .inr begun
      · exact (rests.made known).imp_right InstanceTable.started_begin
    · change (s.decls.declare name (t.made args name)).template? kind n = some u at found
      rw [Declarations.template?_declare] at found
      split at found
      · cases found
        exact .concrete _ _ (rests.derives makes.template)
      · exact rests.derives found

theorem lays : Session.Lays (.always (Onward D)) where
  forward := fun _ _ => of_same rfl rfl
  request := fun _ => request _ _ _ _
  nest := fun h => congr h rfl rfl rfl rfl
  nestHalts := fun h => congr h rfl rfl rfl rfl
  mark := fun _ h => congr h rfl rfl rfl rfl
  markHalts := fun _ h => congr h rfl rfl rfl rfl
  slots := fun _ _ _ h => congr h rfl rfl rfl rfl
  struct := fun level _ _ _ _ h => level.finishes
    ((Resolution.describeStruct_keeps level.define tell (fun _ _ _ => of_same rfl rfl) _ _ _).from
      (congr h rfl rfl rfl rfl))
    fun _ _ h h' => congr (trans_of (Onward D) h h') rfl rfl rfl rfl
  enum := fun _ _ _ _ _ h => congr h rfl rfl rfl rfl
  make := fun makes _ _ h =>
    trans_of (Onward D) (trans_of (Onward D) (withInstance makes) h) (completed _ _)
  makeHalts := fun makes h => trans_of (Onward D) (withInstance makes) h
  begin := fun _ => begun _ _ _ _

end Onward

end Session

/-! ### What a resolved type stands for -/

namespace Resolution

open Session (Onward)

variable {D : Declarations} {s s' : Session} {kind : DeclKind} {name : String}

theorem onward {α : Type} {x : Gen α} (keeps : Keeps (.always (Onward D)) x) {a : α}
    (run : x s = .ok a s') : Onward D s s' :=
  (keeps).of_ok run

theorem ptrs_eq_irType {ty : IrType} {depth : Nat} (h : ty.ptrs depth = kind.irType name) :
    depth = 0 ∧ ty = kind.irType name := by
  cases depth with
  | zero => exact ⟨rfl, h⟩
  | succ depth => cases kind <;> cases h

theorem arrays_eq_irType {ty : IrType} {dims : List Nat} (h : ty.arrays dims = kind.irType name) :
    dims = [] ∧ ty = kind.irType name := by
  cases dims with
  | nil => exact ⟨rfl, h⟩
  | cons d dims => cases kind <;> cases h

theorem irType_inj (h : kind.irType name = kind'.irType name') : kind = kind' ∧ name = name' := by
  cases kind <;> cases kind' <;> cases h <;> exact ⟨rfl, rfl⟩

theorem substituteAll_empty_ok {types result : List TypeRef}
    (run : Gen.substituteAll {} types s = .ok result s') : result = types ∧ s' = s := by
  have same : Substitution.applyAll {} types = types := List.map_id' types
  rw [Gen.substituteAll, same] at run
  split at run
  · exact Gen.pure_ok run
  · cases run

theorem instantiate_name {resolve : Resolver}
    (run : instantiate resolve kind base args {} s = .ok name s') :
    name = s.decls.instanceName kind base args := by
  obtain ⟨args', s₁, substituted, rest₁⟩ := Gen.bind_ok run
  obtain ⟨rfl, rfl⟩ := substituteAll_empty_ok substituted
  obtain ⟨t, s₂, looked, rest₂⟩ := Gen.bind_ok rest₁
  obtain ⟨found, rfl⟩ := Template.find_ok looked
  rw [Declarations.instanceName, found, Option.any_some]
  split at rest₂
  case isTrue own =>
    obtain ⟨rfl, -⟩ := Gen.pure_ok rest₂
    rw [if_pos own]
  case isFalse other =>
    obtain ⟨_, s₃, checked, rest₃⟩ := Gen.bind_ok rest₂
    obtain ⟨-, rfl⟩ := Gen.checkArity_ok checked
    obtain ⟨given, s₄, named, rest₄⟩ := Gen.bind_ok rest₃
    obtain ⟨rfl, rfl⟩ := Gen.naming_ok named
    obtain ⟨claim, s₅, -, rest₅⟩ := Gen.bind_ok rest₄
    rw [if_neg other]
    cases claim with
    | existing state => exact (Gen.pure_ok rest₅).1
    | fresh =>
      obtain ⟨_, s₆, -, done⟩ := Gen.bind_ok rest₅
      exact (Gen.pure_ok done).1

theorem aliasTarget_ok {target : TypeRef} (run : aliasTarget base args s = .ok target s') :
    ∃ a, s.decls.aliases.find? base = some a ∧
      target = (Substitution.ofParams a.typeParams args).apply a.target ∧ s' = s := by
  obtain ⟨now, s₁, got, rest₁⟩ := Gen.bind_ok run
  cases got
  obtain ⟨a, s₂, looked, rest₂⟩ := Gen.bind_ok rest₁
  obtain ⟨found, rfl⟩ := Gen.orFail_ok looked
  obtain ⟨_, s₃, checked, rest₃⟩ := Gen.bind_ok rest₂
  obtain ⟨-, rfl⟩ := Gen.checkArity_ok checked
  refine ⟨a, found, ?_⟩
  rw [Gen.substitute] at rest₃
  split at rest₃
  · exact Gen.pure_ok rest₃
  · cases rest₃

theorem declaredType_stands (rests : s.RestsOn D) (separate : s'.Separate D)
    (plain : (if args.isEmpty then Primitive.ofName? base else none) = none)
    (below : ∀ {ty s₁}, s₁.RestsOn D →
      resolveWithin levels ty {} s₁ = .ok (kind.irType name) s' → s'.decls.Stands ty kind name)
    (run : declaredType (resolveWithin levels) base args hint {} s = .ok (kind.irType name) s') :
    s'.decls.Stands (.named base args hint) kind name := by
  have onwards := onward (Onward.lays (D := D).declaredType (Onward.lays.resolveWithin levels) _ _ _ _) run
  obtain ⟨-, settles⟩ := onwards.settles separate rests
  obtain ⟨args', s₁, substituted, rest₁⟩ := Gen.bind_ok run
  obtain ⟨rfl, rfl⟩ := substituteAll_empty_ok substituted
  obtain ⟨now, s₂, got, rest₂⟩ := Gen.bind_ok rest₁
  cases got
  cases known : s₁.decls.kind? base hint with
  | some kind' =>
    rw [known] at rest₂
    dsimp only at rest₂
    have meaning : s₁.decls.meaning base args' hint = .declared kind' := by
      simp only [Declarations.meaning, plain, known]
    unfold concreteType at rest₂
    split at rest₂
    case isTrue empty =>
      obtain ⟨same, -⟩ := Gen.pure_ok rest₂
      obtain ⟨rfl, rfl⟩ := irType_inj same
      rw [List.isEmpty_iff] at empty
      subst empty
      exact .declared (settles.declaredAs meaning)
    case isFalse some =>
      obtain ⟨made, s₃, ran, done⟩ := Gen.bind_ok rest₂
      obtain ⟨same, -⟩ := Gen.pure_ok done
      obtain ⟨rfl, rfl⟩ := irType_inj same
      rw [instantiate_name ran, ← settles.instanceName (Declarations.declares_of_kind? known)]
      exact .made ⟨hint, rfl, by simpa using some, settles.declaredAs meaning⟩
  | none =>
    rw [known] at rest₂
    dsimp only at rest₂
    obtain ⟨target, s₃, expanded, resolved⟩ := Gen.bind_ok rest₂
    obtain ⟨a, found, rfl, rfl⟩ := aliasTarget_ok expanded
    have meaning : s₃.decls.meaning base args' hint = .expands a := by
      simp only [Declarations.meaning, plain, known, found]
    refine .expands (settles.expands ⟨base, args', hint, a, rfl, meaning, rfl⟩) (below rests resolved)

theorem irType_ne_primitive (p : Primitive) : p.irType ≠ kind.irType name := by
  cases p <;> cases kind <;> exact IrType.noConfusion

theorem resolveWithin_stands (levels : Nat) (rests : s.RestsOn D) (separate : s'.Separate D)
    (run : resolveWithin levels ty {} s = .ok (kind.irType name) s') :
    s'.decls.Stands ty kind name := by
  induction levels generalizing ty s s' with
  | zero => cases run
  | succ levels ih =>
    obtain ⟨-, s₁, ran, rfl⟩ := nested_ok run
    have separate₁ : s₁.Separate D := separate
    have rests₀ : Session.RestsOn D { s with resolveDepth := s.resolveDepth + 1 } :=
      ⟨rests.settles, rests.made, rests.derives⟩
    suffices s₁.decls.Stands ty kind name from this
    cases ty with
    | primitive p => exact (irType_ne_primitive p (Gen.pure_ok ran).1.symm).elim
    | pointer inner depth =>
      obtain ⟨base, s₂, inside, done⟩ := Gen.bind_ok ran
      obtain ⟨same, rfl⟩ := Gen.pure_ok done
      obtain ⟨rfl, same⟩ := ptrs_eq_irType same.symm
      split at same
      · cases kind <;> cases same
      · subst same
        exact .pointer (ih rests₀ separate₁ inside)
    | array inner dims =>
      obtain ⟨base, s₂, inside, done⟩ := Gen.bind_ok ran
      obtain ⟨same, rfl⟩ := Gen.pure_ok done
      obtain ⟨rfl, rfl⟩ := arrays_eq_irType same.symm
      exact .array (ih rests₀ separate₁ inside)
    | tuple elems =>
      obtain ⟨types, s₂, -, done⟩ := Gen.bind_ok ran
      cases kind <;> cases (Gen.pure_ok done).1
    | function params ret variadic =>
      obtain ⟨retType, s₂, -, rest⟩ := Gen.bind_ok ran
      obtain ⟨types, s₃, -, done⟩ := Gen.bind_ok rest
      cases kind <;> cases (Gen.pure_ok done).1
    | named base args hint =>
      have below {ty : TypeRef} {s₂ : Session} (rests : s₂.RestsOn D)
          (run : resolveWithin levels ty {} s₂ = .ok (kind.irType name) s₁) :
          s₁.decls.Stands ty kind name := ih rests separate₁ run
      cases args with
      | cons arg rest => exact declaredType_stands rests₀ separate₁ rfl below ran
      | nil =>
        change simpleName (resolveWithin levels) base hint {} _ = _ at ran
        unfold simpleName at ran
        cases plain : Primitive.ofName? base with
        | some p =>
          rw [plain] at ran
          exact (irType_ne_primitive p (Gen.pure_ok ran).1.symm).elim
        | none =>
          rw [plain] at ran
          exact declaredType_stands rests₀ separate₁ plain below ran

theorem structName_stands (rests : s.RestsOn D) (separate : s'.Separate D)
    (run : structName (resolveWithin levels) ty {} s = .ok name s') :
    s'.decls.Stands ty .struct name := by
  obtain ⟨ir, s₁, resolved, rest⟩ := Gen.bind_ok run
  cases ir with
  | struct found =>
    obtain ⟨rfl, rfl⟩ := Gen.pure_ok rest
    change resolveWithin levels ty {} s = .ok (DeclKind.struct.irType name) s' at resolved
    exact resolveWithin_stands levels rests separate resolved
  | _ => exact (Gen.fail_ok rest).elim

end Resolution

end Backend
