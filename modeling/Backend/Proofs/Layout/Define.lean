import Backend.Proofs.Layout.Sound
import Backend.Proofs.Resolution.Requests

/-!
Resolution and definition keep layouts sound. Each level of resolution is taken on its own: what
all types have that the level below gives, such as integers of source widths, the types have that
this one gives.
-/

namespace Backend

open Gen (Keeps Moves)
open Session (Later)

variable {ir ty : IrType} {L : Layouts} {fields : List (String × IrType)} {hint : Option DeclKind}
  {s s' : Session} {context name : String} {σ : Substitution}

/-- A property that a type owes to what it holds by value. -/
structure IrType.Structural (P : IrType → Prop) : Prop where
  primitive : ∀ p : Primitive, P p.irType
  named : ∀ (kind : DeclKind) (name : String), P (kind.irType name)
  ptr : ∀ ty, P (.ptr ty)
  array : ∀ {length elem}, P elem → P (.array length elem)
  record : ∀ {types}, (∀ ty ∈ types, P ty) → P (.record types)

/-- The types that are given under the substitution have the property. -/
def Resolver.Gives (resolve : Resolver) (σ : Substitution) (P : IrType → Prop) : Prop :=
  ∀ {ty s ir s'}, resolve ty σ s = .ok ir s' → P ir

theorem Gen.mapM_ok {α β : Type} {x : α → Gen β} {xs : List α} {ys : List β} {P : β → Prop}
    (each : ∀ {a b s s'}, x a s = .ok b s' → P b) (run : xs.mapM x s = .ok ys s') :
    ∀ y ∈ ys, P y := by
  induction xs generalizing s ys with
  | nil =>
    obtain ⟨rfl, -⟩ := Gen.pure_ok run
    exact List.forall_mem_nil _
  | cons a rest ih =>
    rw [List.mapM_cons] at run
    obtain ⟨b, s₁, ran, ran₁⟩ := Gen.bind_ok run
    obtain ⟨bs, s₂, ran₂, done⟩ := Gen.bind_ok ran₁
    obtain ⟨rfl, rfl⟩ := Gen.pure_ok done
    exact List.forall_mem_cons.mpr ⟨each ran, ih ran₂⟩

namespace Resolution

variable {resolve : Resolver} {define : Definer} {levels budget : Nat}

/-! ### Properties of resolved types -/

section

variable {P : IrType → Prop} (structural : IrType.Structural P) (hr : resolve.Gives σ P)

include structural hr

theorem declaredType_gives {args : List TypeRef}
    (run : declaredType resolve name args hint σ s = .ok ir s') : P ir := by
  obtain ⟨args, s₁, -, ran₁⟩ := Gen.bind_ok run
  obtain ⟨now, s₂, -, ran₂⟩ := Gen.bind_ok ran₁
  cases declared : now.decls.kind? name hint with
  | some kind =>
    simp only [declared, concreteType] at ran₂
    split at ran₂
    · obtain ⟨rfl, -⟩ := Gen.pure_ok ran₂
      exact structural.named kind name
    · obtain ⟨concrete, s₃, -, done⟩ := Gen.bind_ok ran₂
      obtain ⟨rfl, -⟩ := Gen.pure_ok done
      exact structural.named kind concrete
  | none =>
    rw [declared] at ran₂
    obtain ⟨target, s₃, -, ran₃⟩ := Gen.bind_ok ran₂
    exact hr ran₃

omit hr in
theorem arrays_structural (h : P ty) (dims : List Nat) : P (ty.arrays dims) := by
  induction dims with
  | nil => exact h
  | cons d rest ih => exact structural.array ih

theorem simpleName_gives (forward : ∀ name, σ.isSelfMapped name = true → P (.forward name))
    (run : simpleName resolve name hint σ s = .ok ir s') : P ir := by
  unfold simpleName at run
  cases primitive : Primitive.ofName? name with
  | some p =>
    rw [primitive] at run
    obtain ⟨rfl, -⟩ := Gen.pure_ok run
    exact structural.primitive p
  | none =>
    simp only [primitive] at run
    split at run
    case isTrue itself =>
      obtain ⟨_, s₁, -, done⟩ := Gen.bind_ok run
      obtain ⟨rfl, -⟩ := Gen.pure_ok done
      exact forward name itself
    · cases found : σ.find? name with
      | some mapped => rw [found] at run; exact hr run
      | none => rw [found] at run; exact declaredType_gives structural hr run

theorem step_gives (forward : ∀ name, σ.isSelfMapped name = true → P (.forward name))
    {ty : TypeRef} (run : step resolve ty σ s = .ok ir s') : P ir := by
  match ty with
  | .primitive p =>
    obtain ⟨rfl, -⟩ := Gen.pure_ok run
    exact structural.primitive p
  | .pointer inner depth =>
    obtain ⟨base, s₁, ran, done⟩ := Gen.bind_ok run
    obtain ⟨rfl, -⟩ := Gen.pure_ok done
    cases depth with
    | succ n => exact structural.ptr _
    | zero =>
      show P (if base.isVoid then _ else _)
      split
      · exact structural.primitive .i8
      · exact hr ran
  | .array inner dims =>
    obtain ⟨base, s₁, ran, done⟩ := Gen.bind_ok run
    obtain ⟨rfl, -⟩ := Gen.pure_ok done
    exact arrays_structural structural (hr ran) dims
  | .tuple elems =>
    obtain ⟨types, s₁, ran, done⟩ := Gen.bind_ok run
    obtain ⟨rfl, -⟩ := Gen.pure_ok done
    exact structural.record (Gen.mapM_ok (fun ran => hr ran) ran)
  | .function params ret variadic =>
    obtain ⟨result, s₁, -, ran₁⟩ := Gen.bind_ok run
    obtain ⟨types, s₂, -, done⟩ := Gen.bind_ok ran₁
    obtain ⟨rfl, -⟩ := Gen.pure_ok done
    refine structural.record ?_
    rw [List.forall_mem_cons, List.forall_mem_singleton]
    exact ⟨structural.ptr _, structural.ptr _⟩
  | .named name [] hint => exact simpleName_gives structural hr forward run
  | .named name (arg :: args) hint => exact declaredType_gives structural hr run

end

theorem resolveWithin_gives {P : IrType → Prop} (structural : IrType.Structural P)
    (forward : ∀ name, σ.isSelfMapped name = true → P (.forward name)) (levels : Nat) :
    (resolveWithin levels).Gives σ P := by
  induction levels with
  | zero => intro _ _ _ _ run; cases run
  | succ levels ih =>
    intro ty s ir s' run
    obtain ⟨-, s₁, ran, -⟩ := nested_ok run
    exact step_gives structural ih forward ran

theorem plain_structural : IrType.Structural fun ty => ty.isPlain = true where
  primitive p := by cases p <;> rfl
  named kind _ := by cases kind <;> rfl
  ptr _ := rfl
  array h := h
  record := allPlain_iff.mpr

theorem resolveWithin_plain {ty : TypeRef} (run : resolveWithin levels ty σ s = .ok ir s') :
    ir.isPlain = true :=
  resolveWithin_gives plain_structural (fun _ _ => rfl) levels run

/-! ### Types under way -/

theorem whileDefining_run {α : Type} {x : Gen α} {a : α}
    (run : whileDefining name context x s = .ok a s') :
    name ∉ s.defining ∧ ∃ s₁, x { s with defining := name :: s.defining } = .ok a s₁ ∧
      s' = { s₁ with defining := s₁.defining.erase name } := by
  obtain ⟨now, s₁, got, rest⟩ := Gen.bind_ok run
  cases got
  split at rest
  · exact (Gen.fail_ok rest).elim
  case isFalse idle =>
    obtain ⟨_, s₁, marked, finished⟩ := Gen.bind_ok rest
    cases marked
    exact ⟨idle, Gen.finally_ok finished⟩

theorem whileDefining_ok {α : Type} {x : Gen α} (moves : Moves Later x) {a : α}
    (run : whileDefining name context x s = .ok a s') :
    name ∉ s.defining ∧ s'.layouts.structs.find? name = s.layouts.structs.find? name ∧
      s'.layouts.enums.find? name = s.layouts.enums.find? name ∧
      ∃ s₁ s₂, x s₁ = .ok a s₂ ∧ s'.layouts = s₂.layouts := by
  obtain ⟨idle, s₁, ran, rfl⟩ := whileDefining_run run
  have later := moves.of_ok ran
  have here : name ∈ name :: s.defining := List.mem_cons_self
  exact ⟨idle, later.structs name here, later.enums name here, _, s₁, ran, rfl⟩

/-! ### Structs -/

theorem structLayout_ok {layout : StructLayout} (run : structLayout define name s = .ok layout s') :
    s'.layouts.structs.find? name = some layout := by
  obtain ⟨_, s₁, -, rest⟩ := Gen.bind_ok run
  obtain ⟨now, s₂, got, looked⟩ := Gen.bind_ok rest
  cases got
  obtain ⟨found, rfl⟩ := Gen.orFail_ok looked
  exact found

theorem inheritedFields_ok {parent : Option TypeRef}
    (run : inheritedFields resolve define parent s = .ok fields s') :
    fields = [] ∨ ∃ name layout, s'.layouts.structs.find? name = some layout ∧
      fields = layout.inherited := by
  cases parent with
  | none =>
    obtain ⟨rfl, -⟩ := Gen.pure_ok run
    exact .inl rfl
  | some parent =>
    obtain ⟨name, s₁, -, rest⟩ := Gen.bind_ok run
    obtain ⟨layout, s₂, ran, done⟩ := Gen.bind_ok rest
    obtain ⟨rfl, rfl⟩ := Gen.pure_ok done
    exact .inr ⟨name, layout, structLayout_ok ran, rfl⟩

theorem mem_types_of_inherited {l : StructLayout} {f : String × IrType}
    (h : f ∈ l.inherited) : f.2 ∈ l.types :=
  (List.of_mem_zip (List.mem_filter.mp h).1).2

theorem ownField_gives {P : IrType → Prop} (hr : resolve.Gives {} P) {owner : String} {f : Field}
    {field : String × IrType} (run : ownField resolve define owner f s = .ok field s') :
    P field.2 := by
  obtain ⟨ty, s₁, mapped, rest⟩ := Gen.bind_ok run
  obtain ⟨_, s₂, -, done⟩ := Gen.bind_ok rest
  obtain ⟨rfl, -⟩ := Gen.pure_ok done
  exact hr (Gen.mappingCause_ok mapped)

/-- The slots of a struct have what resolved types and the slots of all structs before it have. -/
theorem structFields_give {P : IrType → Prop} (structural : IrType.Structural P)
    (level : Session.Level (.always Later) levels budget) {decl : StructDecl}
    (run : structFields (resolveWithin levels) (definerAt levels budget) name decl s =
      .ok fields s')
    (before : ∀ {name layout}, s'.layouts.structs.find? name = some layout →
      ∀ ty ∈ layout.types, P ty) : ∀ ty ∈ fields.map Prod.snd, P ty := by
  obtain ⟨inherited, s₁, ran₁, rest₁⟩ := Gen.bind_ok run
  obtain ⟨slots, s₂, ran₂, rest₂⟩ := Gen.bind_ok rest₁
  obtain ⟨own, s₃, ran₃, done⟩ := Gen.bind_ok rest₂
  obtain ⟨rfl, rfl⟩ := Gen.pure_ok done
  have later₂ := (level.slots name).of_ok ran₂
  have later₃ := (level.ownFields name _).of_ok ran₃
  have given : (resolveWithin levels).Gives {} P :=
    resolveWithin_gives structural (fun _ mapped => by cases mapped) levels
  intro ty member
  obtain ⟨f, listed, rfl⟩ := List.mem_map.mp member
  simp only [List.append_assoc, List.mem_append, List.mem_singleton] at listed
  rcases listed with listed | listed | listed | rfl
  · rcases inheritedFields_ok ran₁ with rfl | ⟨parent, layout, found, rfl⟩
    · cases listed
    · exact before ((later₂.trans later₃).grows.structs found) _ (mem_types_of_inherited listed)
  · split at listed
    · rw [List.mem_singleton.mp listed]
      exact structural.ptr _
    · cases listed
  · exact Gen.mapM_ok (fun ran => ownField_gives given ran) ran₃ f listed
  · exact structural.primitive .bool

/-! ### Enums -/

theorem variantLayouts_ok (level : Session.Level (.always Later) levels budget)
    {vs : List Variant} {tag : Nat} {done variants : Table VariantLayout} {dataSize largest : Nat}
    (run : variantLayouts (resolveWithin levels) (definerAt levels budget) vs tag done dataSize s = .ok (variants, largest) s')
    (grows : s'.layouts.Grows L) (sound : L.Sound) : ∃ cases ends, HaveEnds L cases ends ∧
      variants = cases.foldl (fun t c => t.insert c.1 c.2) done ∧
      largest = ends.foldl max dataSize ∧ ∀ c ∈ cases, allPlain c.2.payload = true := by
  induction vs generalizing tag done dataSize s with
  | nil =>
    obtain ⟨same, -⟩ := Gen.pure_ok run
    obtain ⟨rfl, rfl⟩ := Prod.mk.inj same
    exact ⟨[], [], .nil, rfl, rfl, List.forall_mem_nil _⟩
  | cons v rest ih =>
    obtain ⟨payload, s₁, resolved, ran₁⟩ := Gen.bind_ok run
    obtain ⟨size, s₂, measured, ran₂⟩ := Gen.bind_ok ran₁
    obtain ⟨cases, ends, haveEnds, rfl, rfl, plain⟩ := ih ran₂
    have later := (variantLayouts_keeps level.resolve level.define rest _ _ _).of_ok ran₂
    obtain ⟨⟨stop, strictest⟩, s₃, packed, done⟩ := Gen.bind_ok measured
    obtain ⟨rfl, rfl⟩ := Gen.pure_ok done
    obtain ⟨es, extents, rfl, -⟩ := haveExtents_of_run (namedExtent_keeps level.define)
      (fun ran grown => hasExtent_of_namedExtent ran grown sound) payload (Nat.le_refl 1) packed
      (later.grows.trans grows)
    refine ⟨(v.name, ⟨tag, payload, v.payloadTypes, _⟩) :: cases, _, .cons extents haveEnds, rfl, rfl,
      List.forall_mem_cons.mpr ⟨allPlain_iff.mpr ?_, plain⟩⟩
    exact Gen.mapM_ok (fun ran => resolveWithin_plain ran) resolved

end Resolution

/-! ### Every definition -/

namespace Session.Later

open Resolution

theorem unmarked (h : { s with defining := name :: s.defining }.Later s') :
    s.Later { s' with defining := s'.defining.erase name } where
  sound := h.sound
  grows := h.grows
  defining := by rw [h.defining, List.erase_cons_head]
  structs n member := h.structs n (List.mem_cons_of_mem name member)
  enums n member := h.enums n (List.mem_cons_of_mem name member)

theorem withStruct {s : Session} {layout : StructLayout}
    (idle : layout.name ∉ s.defining) (absent : s.layouts.structs.find? layout.name = none)
    (extent : layout.extent = s.layouts.aggregate layout.types)
    (plain : s.layouts.Plain → allPlain layout.types = true) :
    s.Later (s.withStruct layout) := by
  let L : Layouts := { s.layouts with structs := s.layouts.structs.insert layout.name layout }
  have others {n : String} (other : layout.name ≠ n) : L.structs.find? n = s.layouts.structs.find? n := by
    simp [L, other]
  have new : L.structs.find? layout.name = some layout := by simp [L]
  have grows : s.layouts.Grows L := .insertStruct absent
  have sound (sound : s.layouts.Sound) : L.Sound := by
    refine ⟨⟨fun {n l} found => ?_, sound.payloads⟩, fun kind {n e} found => ?_⟩
    · by_cases same : layout.name = n
      · subst same
        obtain rfl := Option.some.inj (new.symm.trans found)
        exact plain sound.toPlain
      · exact sound.structs (others same ▸ found)
    · cases kind with
      | enum => exact (sound.extents .enum found).grown grows
      | struct =>
        by_cases same : layout.name = n
        · subst same
          have computed : s.layouts.aggregate layout.types = .ok e := by
            rw [← extent, ← found, Layouts.extent?, new]
          exact .struct new ((sound.aggregate computed).grown grows)
        · refine (sound.extents .struct ?_).grown grows
          rw [← found, Layouts.extent?, Layouts.extent?, others same]
  exact {
    sound
    grows
    defining := rfl
    structs := fun n member => others fun same => idle (same ▸ member)
    enums := fun _ _ => rfl }

theorem withEnum {s : Session} {layout : EnumLayout} (idle : layout.name ∉ s.defining)
    (absent : s.layouts.enums.find? layout.name = none)
    (extent : layout.extent = s.layouts.aggregate layout.types)
    (known : s.layouts.Sound → ∃ cases ends, HaveEnds s.layouts cases ends ∧
      layout.variants = Table.ofList cases ∧ layout.dataSize = ends.foldl max 0 ∧
      ∀ c ∈ cases, allPlain c.2.payload = true) :
    s.Later (s.withEnum layout) := by
  let L : Layouts := { s.layouts with enums := s.layouts.enums.insert layout.name layout }
  have others {n : String} (other : layout.name ≠ n) : L.enums.find? n = s.layouts.enums.find? n := by
    simp [L, other]
  have new : L.enums.find? layout.name = some layout := by simp [L]
  have grows : s.layouts.Grows L := .insertEnum absent
  have sound (sound : s.layouts.Sound) : L.Sound := by
    obtain ⟨cases, ends, haveEnds, variantsEq, data, plain⟩ := known sound
    refine ⟨⟨sound.structs, fun {n l} found => ?_⟩, fun kind {n e} found => ?_⟩
    · by_cases same : layout.name = n
      · subst same
        obtain rfl := Option.some.inj (new.symm.trans found)
        intro v member
        rw [variantsEq, Table.ofList] at member
        rcases Table.mem_values_foldl_insert member with listed | listed
        · obtain ⟨c, inCases, rfl⟩ := List.mem_map.mp listed
          exact plain c inCases
        · cases listed
      · exact sound.payloads (others same ▸ found)
    · cases kind with
      | struct => exact (sound.extents .struct found).grown grows
      | enum =>
        by_cases same : layout.name = n
        · subst same
          have computed : s.layouts.aggregate layout.types = .ok e := by
            rw [← extent, ← found, Layouts.extent?, new]
          exact .enum new variantsEq (haveEnds.grown grows) data
            ((sound.aggregate computed).grown grows)
        · refine (sound.extents .enum ?_).grown grows
          rw [← found, Layouts.extent?, Layouts.extent?, others same]
  exact {
    sound
    grows
    defining := rfl
    structs := fun _ _ => rfl
    enums := fun n member => others fun same => idle (same ▸ member) }

theorem structAdded {s₁ : Session} {levels budget : Nat} {decl : StructDecl}
    (level : Level (.always Later) levels budget) (absent : s.layouts.structs.find? name = none)
    (run : whileDefining name context
      (structFields (resolveWithin levels) (definerAt levels budget) name decl) s = .ok fields s₁)
    (h : s.Later s₁) : s.Later
      (s₁.withStruct { name, fields, extent := s₁.layouts.aggregate (fields.map Prod.snd) }) := by
  obtain ⟨idle, same, -, _, s₃, inner, layouts⟩ :=
    whileDefining_ok (level.structFields name decl) run
  refine h.trans (.withStruct ?_ (same.trans absent) rfl fun plain => ?_)
  · rw [h.defining]
    exact idle
  · refine allPlain_iff.mpr (structFields_give plain_structural level inner fun found => ?_)
    exact allPlain_iff.mp (plain.structs (layouts ▸ found))

theorem tell (call : DebugCall) : Moves Later (Gen.tell call) :=
  .tell (fun _ _ => of_same rfl rfl rfl) call

theorem lays : Session.Lays (.always Later) where
  forward := fun _ _ => of_same rfl rfl rfl
  request := fun _ => .of_ok (Gen.requestBody_run ..) (of_same rfl rfl rfl)
  nest := fun h => ⟨h.sound, h.grows, h.defining, h.structs, h.enums⟩
  nestHalts := fun h => ⟨h.sound, h.grows, h.defining, h.structs, h.enums⟩
  mark := fun _ h => h.unmarked
  markHalts := fun _ h => h.unmarked
  slots := fun _ _ _ h => h.trans (of_same rfl rfl rfl)
  struct := fun level absent _ _ run h => level.finishes
    ((describeStruct_keeps level.define tell (fun _ _ _ => of_same rfl rfl rfl) _ _ _).from
      (structAdded level absent run h))
    fun _ _ h h' => (h.trans h').trans (of_same rfl rfl rfl)
  enum := by
    intro levels budget s s₁ name decl variants dataSize level absent _ _ run h
    obtain ⟨idle, -, same, _, s₃, inner, layouts⟩ :=
      whileDefining_ok (level.variantLayouts decl.variants) run
    refine h.trans (.withEnum ?_ (same.trans absent) rfl fun sound => ?_)
    · rw [h.defining]
      exact idle
    · exact variantLayouts_ok level inner (layouts ▸ .rfl) sound
  make := fun _ _ _ h => ⟨h.sound, h.grows, h.defining, h.structs, h.enums⟩
  makeHalts := fun _ h => ⟨h.sound, h.grows, h.defining, h.structs, h.enums⟩
  begin := fun _ => of_same rfl rfl rfl

theorem level (levels budget : Nat) : Session.Level (.always Later) levels budget :=
  lays.level levels budget

end Session.Later

end Backend
