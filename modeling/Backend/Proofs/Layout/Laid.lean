import Backend.Proofs.Layout.Define

/-!
What is laid out when a step succeeds. Defining a type lays it out, and whatever the slots of a
struct or the payloads of an enum hold by value is laid out before the struct or enum itself.
-/

namespace Backend

open Gen (Keeps Moves)
open Session (Later)

variable {s s' : Session} {name : String}

/-! ### What a target type holds -/

mutual

def IrType.embedded : IrType → List (DeclKind × String)
  | .struct name => [(.struct, name)]
  | .enum name => [(.enum, name)]
  | .array _ elem => elem.embedded
  | .record fields => allEmbedded fields
  | _ => []

def allEmbedded : List IrType → List (DeclKind × String)
  | [] => []
  | ty :: rest => ty.embedded ++ allEmbedded rest

end

theorem mem_allEmbedded {types : List IrType} {p : DeclKind × String} :
    p ∈ allEmbedded types ↔ ∃ ty ∈ types, p ∈ ty.embedded := by
  induction types with
  | nil => simp [allEmbedded]
  | cons ty rest ih => simp [allEmbedded, ih]

theorem Layouts.Grows.contains {L L' : Layouts} (grows : L.Grows L') {kind : DeclKind}
    {name : String} (h : L.contains kind name = true) : L'.contains kind name = true := by
  cases kind with
  | struct =>
    obtain ⟨layout, found⟩ := Option.isSome_iff_exists.mp h
    exact Option.isSome_iff_exists.mpr ⟨layout, grows.structs found⟩
  | enum =>
    obtain ⟨layout, found⟩ := Option.isSome_iff_exists.mp h
    exact Option.isSome_iff_exists.mpr ⟨layout, grows.enums found⟩

def Definer.Delivers (define : Definer) : Prop :=
  ∀ {kind name s s'}, define kind name s = .ok () s' → s'.layouts.contains kind name = true

/-! ### Extents -/

section

variable {leaf : DeclKind → String → Gen Extent}

mutual

theorem ofType_laid (moves : ∀ kind name, Moves Later (leaf kind name))
    (laid : ∀ {kind name s e s'}, leaf kind name s = .ok e s' →
      s'.layouts.contains kind name = true) (ty : IrType) {s s' : Session} {e : Extent}
    (run : Extent.ofType leaf ty s = .ok e s') :
    ∀ p ∈ ty.embedded, s'.layouts.contains p.1 p.2 = true := by
  match ty with
  | .void | .int _ | .float | .double | .ptr _ | .forward _ | .function .. =>
    exact List.forall_mem_nil _
  | .array length elem =>
    obtain ⟨each, s₁, ran, rest⟩ := Gen.bind_ok run
    obtain ⟨size, s₂, sized, done⟩ := Gen.bind_ok rest
    obtain ⟨-, rfl⟩ := Gen.word_ok sized
    obtain ⟨-, rfl⟩ := Gen.pure_ok done
    exact ofType_laid moves laid elem ran
  | .record fields =>
    obtain ⟨⟨offset, align⟩, s₁, packed, rest⟩ := Gen.bind_ok run
    obtain ⟨size, s₂, sized, done⟩ := Gen.bind_ok rest
    obtain ⟨-, rfl⟩ := Gen.word_ok sized
    obtain ⟨-, rfl⟩ := Gen.pure_ok done
    exact pack_laid moves laid fields packed
  | .struct name => exact List.forall_mem_singleton.mpr (laid run)
  | .enum name => exact List.forall_mem_singleton.mpr (laid run)

theorem pack_laid (moves : ∀ kind name, Moves Later (leaf kind name))
    (laid : ∀ {kind name s e s'}, leaf kind name s = .ok e s' →
      s'.layouts.contains kind name = true) (fields : List IrType) {s s' : Session}
    {offset align : Nat} {ends : Nat × Nat}
    (run : Extent.pack leaf fields offset align s = .ok ends s') :
    ∀ p ∈ allEmbedded fields, s'.layouts.contains p.1 p.2 = true := by
  match fields with
  | [] => exact List.forall_mem_nil _
  | ty :: rest =>
    obtain ⟨e, s₁, ran, ran₁⟩ := Gen.bind_ok run
    obtain ⟨next, s₂, placed, ran₂⟩ := Gen.bind_ok ran₁
    obtain ⟨start, s₃, aligned, ended⟩ := Gen.bind_ok placed
    obtain ⟨-, rfl⟩ := Gen.word_ok aligned
    obtain ⟨-, rfl⟩ := Gen.word_ok ended
    have later := (Resolution.pack_keeps moves rest _ _).of_ok ran₂
    have first := ofType_laid moves laid ty ran
    intro p member
    rcases List.mem_append.mp member with member | member
    · exact later.grows.contains (first p member)
    · exact pack_laid moves laid rest ran₂ p member

end

end

theorem Gen.ofExcept_ok {α : Type} {e : Except Halt α} {a : α}
    (run : (MonadExcept.ofExcept e : Gen α) s = .ok a s') : e = .ok a ∧ s' = s := by
  cases e with
  | ok b => obtain ⟨rfl, rfl⟩ := Gen.pure_ok run; exact ⟨rfl, rfl⟩
  | error h => cases run

namespace Resolution

variable {resolve : Resolver} {define : Definer} {levels budget : Nat}

theorem namedExtent_laid (delivers : define.Delivers) {kind : DeclKind} {e : Extent}
    (run : namedExtent define kind name s = .ok e s') : s'.layouts.contains kind name = true := by
  obtain ⟨_, s₁, defined, rest⟩ := Gen.bind_ok run
  obtain ⟨now, s₂, got, looked⟩ := Gen.bind_ok rest
  cases got
  obtain ⟨-, rfl⟩ := Gen.ofExcept_ok looked
  exact delivers defined

theorem packedSize_laid (h : ∀ kind name, Moves Later (define kind name))
    (delivers : define.Delivers) {fields : List IrType} {size : Nat}
    (run : packedSize define fields s = .ok size s') :
    ∀ p ∈ allEmbedded fields, s'.layouts.contains p.1 p.2 = true := by
  obtain ⟨ends, s₁, packed, done⟩ := Gen.bind_ok run
  obtain ⟨-, rfl⟩ := Gen.pure_ok done
  exact pack_laid (namedExtent_keeps h) (namedExtent_laid delivers) fields packed

/-! ### Slots of a struct -/

mutual

theorem defineEmbedded_laid (h : ∀ kind name, Moves Later (define kind name)) (delivers : define.Delivers) (ty : IrType)
    {s s' : Session} (run : defineEmbedded define ty s = .ok () s') :
    ∀ p ∈ ty.embedded, s'.layouts.contains p.1 p.2 = true := by
  match ty with
  | .void | .int _ | .float | .double | .ptr _ | .forward _ | .function .. =>
    exact List.forall_mem_nil _
  | .array _ elem => exact defineEmbedded_laid h delivers elem run
  | .record fields => exact defineAllEmbedded_laid h delivers fields run
  | .struct name => exact List.forall_mem_singleton.mpr (delivers run)
  | .enum name => exact List.forall_mem_singleton.mpr (delivers run)

theorem defineAllEmbedded_laid (h : ∀ kind name, Moves Later (define kind name)) (delivers : define.Delivers)
    (types : List IrType) {s s' : Session} (run : defineAllEmbedded define types s = .ok () s') :
    ∀ p ∈ allEmbedded types, s'.layouts.contains p.1 p.2 = true := by
  match types with
  | [] => exact List.forall_mem_nil _
  | ty :: rest =>
    obtain ⟨_, s₁, ran, ran₁⟩ := Gen.bind_ok run
    have later := (defineAllEmbedded_keeps h rest).of_ok ran₁
    intro p member
    rcases List.mem_append.mp member with member | member
    · exact later.grows.contains (defineEmbedded_laid h delivers ty ran p member)
    · exact defineAllEmbedded_laid h delivers rest ran₁ p member

end

theorem ownFields_laid (delivers : (definerAt levels budget).Delivers) {owner : String}
    {declared : List Field} {fields : List (String × IrType)}
    (run : declared.mapM (ownField (resolveWithin levels) (definerAt levels budget) owner) s =
      .ok fields s') :
    ∀ f ∈ fields, ∀ p ∈ f.2.embedded, s'.layouts.contains p.1 p.2 = true := by
  induction declared generalizing s fields with
  | nil =>
    obtain ⟨rfl, -⟩ := Gen.pure_ok run
    exact List.forall_mem_nil _
  | cons d rest ih =>
    rw [List.mapM_cons] at run
    obtain ⟨field, s₁, ran, ran₁⟩ := Gen.bind_ok run
    obtain ⟨others, s₂, ran₂, done⟩ := Gen.bind_ok ran₁
    obtain ⟨rfl, rfl⟩ := Gen.pure_ok done
    obtain ⟨ty, s₃, -, rest₃⟩ := Gen.bind_ok ran
    obtain ⟨_, s₄, defined, named⟩ := Gen.bind_ok rest₃
    obtain ⟨rfl, rfl⟩ := Gen.pure_ok named
    have level := Later.level levels budget
    have later := (level.ownFields owner rest).of_ok ran₂
    refine List.forall_mem_cons.mpr ⟨fun p member => ?_, ih ran₂⟩
    exact later.grows.contains (defineEmbedded_laid level.define delivers ty defined p member)

theorem structFields_laid (delivers : (definerAt levels budget).Delivers) {decl : StructDecl}
    {fields : List (String × IrType)}
    (run : structFields (resolveWithin levels) (definerAt levels budget) name decl s =
      .ok fields s')
    (before : ∀ {name layout}, s'.layouts.structs.find? name = some layout →
      ∀ p ∈ allEmbedded layout.types, s'.layouts.contains p.1 p.2 = true) :
    ∀ p ∈ allEmbedded (fields.map Prod.snd), s'.layouts.contains p.1 p.2 = true := by
  obtain ⟨inherited, s₁, ran₁, rest₁⟩ := Gen.bind_ok run
  obtain ⟨slots, s₂, ran₂, rest₂⟩ := Gen.bind_ok rest₁
  obtain ⟨own, s₃, ran₃, done⟩ := Gen.bind_ok rest₂
  obtain ⟨rfl, rfl⟩ := Gen.pure_ok done
  have later₂ := ((Later.level levels budget).slots name).of_ok ran₂
  have later₃ := ((Later.level levels budget).ownFields name _).of_ok ran₃
  intro p member
  obtain ⟨ty, isType, embedded⟩ := mem_allEmbedded.mp member
  obtain ⟨f, listed, rfl⟩ := List.mem_map.mp isType
  simp only [List.append_assoc, List.mem_append, List.mem_singleton] at listed
  rcases listed with listed | listed | listed | rfl
  · rcases inheritedFields_ok ran₁ with rfl | ⟨parent, layout, found, rfl⟩
    · cases listed
    · have held : p ∈ allEmbedded layout.types :=
        mem_allEmbedded.mpr ⟨f.2, mem_types_of_inherited listed, embedded⟩
      exact before ((later₂.trans later₃).grows.structs found) p held
  · split at listed
    · rw [List.mem_singleton.mp listed] at embedded
      cases embedded
    · cases listed
  · exact ownFields_laid delivers ran₃ f listed p embedded
  · cases embedded

/-! ### Payloads of an enum -/

theorem variantLayouts_laid (delivers : (definerAt levels budget).Delivers) {vs : List Variant}
    {tag : Nat} {done variants : Table VariantLayout} {dataSize largest : Nat}
    (run : variantLayouts (resolveWithin levels) (definerAt levels budget) vs tag done dataSize s =
      .ok (variants, largest) s')
    (before : ∀ v ∈ done.values, ∀ p ∈ allEmbedded v.payload, s.layouts.contains p.1 p.2 = true) :
    ∀ v ∈ variants.values, ∀ p ∈ allEmbedded v.payload, s'.layouts.contains p.1 p.2 = true := by
  induction vs generalizing tag done dataSize s with
  | nil =>
    obtain ⟨same, rfl⟩ := Gen.pure_ok run
    obtain ⟨rfl, -⟩ := Prod.mk.inj same
    exact before
  | cons v rest ih =>
    obtain ⟨payload, s₁, resolved, ran₁⟩ := Gen.bind_ok run
    obtain ⟨size, s₂, measured, ran₂⟩ := Gen.bind_ok ran₁
    have level := Later.level levels budget
    have later₁ := (Keeps.mapM fun ty _ => level.resolve ty {}).of_ok resolved
    have later₂ := (packedSize_keeps level.define payload).of_ok measured
    refine ih ran₂ fun w member p embedded => ?_
    rcases Table.mem_values_insert member with rfl | member
    · exact packedSize_laid level.define delivers measured p embedded
    · exact (later₁.trans later₂).grows.contains (before w member p embedded)

/-! ### Definitions -/

theorem defineStruct_delivers
    (run : defineStruct (resolveWithin levels) (definerAt levels budget) name s = .ok () s') :
    s'.layouts.contains .struct name = true := by
  obtain ⟨now, s₁, got, run⟩ := Gen.bind_ok run
  cases got
  split at run
  case isTrue known =>
    obtain ⟨-, rfl⟩ := Gen.pure_ok run
    exact known
  case isFalse =>
    obtain ⟨now, s₁, got, run⟩ := Gen.bind_ok run
    cases got
    obtain ⟨decl, s₁, -, run⟩ := Gen.bind_ok run
    split at run
    · exact (Gen.fail_ok run).elim
    · obtain ⟨fields, s₂, -, run⟩ := Gen.bind_ok run
      obtain ⟨now, s₃, got, run⟩ := Gen.bind_ok run
      cases got
      obtain ⟨_, s₃, added, run⟩ := Gen.bind_ok run
      cases added
      have level := Later.level levels budget
      have described : Moves Later (finishStruct (resolveWithin levels) (definerAt levels budget)
          name fields decl.location) := fun _ => level.finishes
        (describeStruct_keeps level.define Later.tell (fun _ _ _ => .of_same rfl rfl rfl) _ _ _ _)
        fun _ _ h h' => (h.trans h').trans (.of_same rfl rfl rfl)
      exact (described.of_ok run).grows.contains (Table.contains_insert_self _ _ _)

theorem defineEnum_delivers (run : defineEnum resolve define name s = .ok () s') :
    s'.layouts.contains .enum name = true := by
  obtain ⟨now, s₁, got, run⟩ := Gen.bind_ok run
  cases got
  split at run
  case isTrue known =>
    obtain ⟨-, rfl⟩ := Gen.pure_ok run
    exact known
  case isFalse =>
    obtain ⟨now, s₁, got, run⟩ := Gen.bind_ok run
    cases got
    obtain ⟨decl, s₁, -, run⟩ := Gen.bind_ok run
    split at run
    · exact (Gen.fail_ok run).elim
    · obtain ⟨⟨variants, dataSize⟩, s₂, -, run⟩ := Gen.bind_ok run
      obtain ⟨now, s₃, got, added⟩ := Gen.bind_ok run
      cases got
      cases added
      exact Table.contains_insert_self _ _ _

theorem defineWithin_delivers (levels budget : Nat) : (definerAt levels budget).Delivers := by
  intro kind name s s' run
  cases budget with
  | zero => cases run
  | succ budget =>
    cases kind with
    | struct => exact defineStruct_delivers run
    | enum => exact defineEnum_delivers run

end Resolution

end Backend
