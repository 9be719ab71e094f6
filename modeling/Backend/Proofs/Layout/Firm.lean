import Backend.Proofs.Layout.Laid

/-!
Extents that are there. A type is sized if it holds no bare function and nothing that is only
declared. Where whatever a sized type holds by value is laid out, asking for its extent changes
nothing and does not fail: it gives what follows from the layouts, or halts fatally because a number
is too large or because no budget is left. Layouts that are firm have only such types in them.
-/

namespace Backend

open Session (Later)

variable {α β : Type} {L L' : Layouts} {s : Session} {spare : Bool}

/-! ### Sized types -/

mutual

def IrType.isSized : IrType → Bool
  | .forward _ | .function .. => false
  | .array _ elem => elem.isSized
  | .record fields => allSized fields
  | _ => true

def allSized : List IrType → Bool
  | [] => true
  | ty :: rest => ty.isSized && allSized rest

end

theorem allSized_iff {types : List IrType} :
    allSized types = true ↔ ∀ ty ∈ types, ty.isSized = true := by
  induction types with
  | nil => exact ⟨fun _ => List.forall_mem_nil _, fun _ => rfl⟩
  | cons ty rest ih => rw [allSized, Bool.and_eq_true, ih, List.forall_mem_cons]

theorem sized_structural : IrType.Structural fun ty => ty.isSized = true where
  primitive p := by cases p <;> rfl
  named kind _ := by cases kind <;> rfl
  ptr _ := rfl
  array h := h
  record := allSized_iff.mpr

/-! ### Steps that give a known result -/

namespace Gen

/-- In `s` the step gives the result and changes nothing, or it halts fatally, by running out of
budget at most if there is none to spare. -/
def GivesIn (s : Session) (spare : Bool) (x : Gen α) (r : Except Halt α) : Prop :=
  match x s with
  | .ok a s' => s' = s ∧ r = .ok a
  | .error h _ => h.isFatal = true ∧ (spare = true → r = .error h)

namespace GivesIn

variable {x : Gen α} {r : Except Halt α}

theorem run {a : α} (h : GivesIn s true x (.ok a)) : x s = .ok a s := by
  rw [GivesIn] at h
  split at h
  case h_1 b s' given =>
    obtain ⟨rfl, same⟩ := h
    rw [given, Except.ok.inj same]
  case h_2 => cases h.2 rfl

theorem pure (a : α) : GivesIn s spare (pure a) (.ok a) := ⟨rfl, rfl⟩

theorem word (n : Nat) : GivesIn s spare (word n) (word n) := by
  unfold Backend.word
  split
  · exact pure n
  · exact ⟨rfl, fun _ => rfl⟩

theorem given (h : ∀ e, r ≠ .error (.failed e)) : GivesIn s spare (Gen.given r) r := by
  cases r with
  | ok a => exact pure a
  | error halt =>
    cases halt with
    | failed e => exact (h e rfl).elim
    | overflow => exact ⟨rfl, fun _ => rfl⟩
    | exhausted => exact ⟨rfl, fun _ => rfl⟩

theorem bind {k : α → Gen β} {k' : α → Except Halt β} (first : GivesIn s spare x r)
    (rest : ∀ a, r = .ok a → GivesIn s spare (k a) (k' a)) :
    GivesIn s spare (x >>= k) (r >>= k') := by
  rw [GivesIn] at first
  cases ran : x s with
  | ok a s₁ =>
    rw [ran] at first
    obtain ⟨rfl, same⟩ := first
    have later := rest a same
    rw [GivesIn] at later ⊢
    rw [bind_of_ok ran, same]
    exact later
  | error e s₁ =>
    rw [ran] at first
    rw [GivesIn, bind_of_error ran]
    exact ⟨first.1, fun enough => by rw [first.2 enough]; rfl⟩

end GivesIn

end Gen

open Gen (GivesIn)

section

variable {leaf : DeclKind → String → Gen Extent} {leaf' : DeclKind → String → Except Halt Extent}

mutual

theorem ofType_givesIn (ty : IrType) (sized : ty.isSized = true)
    (h : ∀ p ∈ ty.embedded, GivesIn s spare (leaf p.1 p.2) (leaf' p.1 p.2)) :
    GivesIn s spare (Extent.ofType leaf ty) (Extent.ofType leaf' ty) := by
  cases ty with
  | array length elem =>
    exact (ofType_givesIn elem sized h).bind fun _ _ => (GivesIn.word _).bind fun _ _ => .pure _
  | record fields =>
    exact (pack_givesIn fields sized h 0 1).bind fun _ _ => (GivesIn.word _).bind fun _ _ => .pure _
  | struct name => exact h (.struct, name) List.mem_cons_self
  | enum name => exact h (.enum, name) List.mem_cons_self
  | forward name => cases sized
  | function ret params variadic => cases sized
  | _ => exact .pure _

theorem pack_givesIn (types : List IrType) (sized : allSized types = true)
    (h : ∀ p ∈ allEmbedded types, GivesIn s spare (leaf p.1 p.2) (leaf' p.1 p.2))
    (offset align : Nat) : GivesIn s spare (Extent.pack leaf types offset align)
      (Extent.pack leaf' types offset align) := by
  cases types with
  | nil => exact .pure _
  | cons ty rest =>
    obtain ⟨first, later⟩ := Bool.and_eq_true_iff.mp sized
    refine (ofType_givesIn ty first fun p member => h p (List.mem_append_left _ member)).bind
      fun e _ => ?_
    refine ((GivesIn.word _).bind fun _ _ => .word _).bind fun _ _ => ?_
    exact pack_givesIn rest later (fun p member => h p (List.mem_append_right _ member)) _ _

end

end

/-! ### Extents by layouts -/

namespace Layouts

/-- The extent of a type whose parts are laid out. -/
def typeExtent (L : Layouts) (ty : IrType) : Except Halt Extent := Extent.ofType L.extent? ty

theorem Grows.extent?_eq (grows : L.Grows L') {kind : DeclKind} {name : String}
    (laid : L.contains kind name = true) : L'.extent? kind name = L.extent? kind name := by
  cases kind with
  | struct =>
    obtain ⟨layout, found⟩ := Option.isSome_iff_exists.mp laid
    simp only [Layouts.extent?, found, grows.structs found]
  | enum =>
    obtain ⟨layout, found⟩ := Option.isSome_iff_exists.mp laid
    simp only [Layouts.extent?, found, grows.enums found]

mutual

theorem Grows.typeExtent_eq (grows : L.Grows L') (ty : IrType)
    (held : ∀ p ∈ ty.embedded, L.contains p.1 p.2 = true) :
    L'.typeExtent ty = L.typeExtent ty := by
  cases ty with
  | array length elem =>
    have same := Grows.typeExtent_eq grows elem held
    unfold typeExtent at same ⊢
    rw [Extent.ofType, Extent.ofType, same]
  | record fields =>
    unfold typeExtent
    rw [Extent.ofType, Extent.ofType, Grows.pack_eq grows fields held]
  | struct name => exact grows.extent?_eq (held (.struct, name) List.mem_cons_self)
  | enum name => exact grows.extent?_eq (held (.enum, name) List.mem_cons_self)
  | _ => exact Eq.refl _

theorem Grows.pack_eq (grows : L.Grows L') (types : List IrType)
    (held : ∀ p ∈ allEmbedded types, L.contains p.1 p.2 = true) :
    Extent.pack (m := Except Halt) L'.extent? types = Extent.pack L.extent? types := by
  cases types with
  | nil => exact Eq.refl _
  | cons ty rest =>
    have same := Grows.typeExtent_eq grows ty fun p member => held p (List.mem_append_left _ member)
    have later := Grows.pack_eq grows rest fun p member => held p (List.mem_append_right _ member)
    unfold typeExtent at same
    funext offset align
    rw [Extent.pack, Extent.pack, same, later]

end

/-- What is laid out is of sized types and has no extent only if a number is too large. -/
structure Firm (L : Layouts) : Prop where
  sized : ∀ {name layout}, L.structs.find? name = some layout → allSized layout.types = true
  held : ∀ {name layout}, L.structs.find? name = some layout →
    ∀ p ∈ allEmbedded layout.types, L.contains p.1 p.2 = true
  extents : ∀ {kind name}, L.contains kind name = true →
    ∀ e, L.extent? kind name ≠ .error (.failed e)

theorem Firm.typeExtent (firm : L.Firm) (ty : IrType) (sized : ty.isSized = true)
    (held : ∀ p ∈ ty.embedded, L.contains p.1 p.2 = true) (e : GenError) :
    L.typeExtent ty ≠ .error (.failed e) := by
  have given : GivesIn {} true (Gen.given (L.typeExtent ty)) (L.typeExtent ty) := by
    rw [Layouts.typeExtent, Gen.given_ofType]
    exact ofType_givesIn ty sized fun p member => .given (firm.extents (held p member))
  intro failed
  rw [failed] at given
  cases given.1

end Layouts

namespace Layouts.Firm

theorem withStruct (firm : L.Firm) {layout : StructLayout}
    (absent : L.structs.find? layout.name = none)
    (extent : layout.extent = L.aggregate layout.types) (sized : allSized layout.types = true)
    (held : ∀ p ∈ allEmbedded layout.types, L.contains p.1 p.2 = true) :
    Layouts.Firm { L with structs := L.structs.insert layout.name layout } := by
  have grows := Grows.insertStruct absent
  refine ⟨fun {n l} found => ?_, fun {n l} found p member => ?_, fun {kind n} laid e => ?_⟩
  · rw [Table.find?_insert] at found
    split at found
    · cases found
      exact sized
    · exact firm.sized found
  · rw [Table.find?_insert] at found
    split at found
    · cases found
      exact grows.contains (held p member)
    · exact grows.contains (firm.held found p member)
  · by_cases known : L.contains kind n = true
    · rw [grows.extent?_eq known]
      exact firm.extents known e
    · cases kind with
      | enum => exact (known laid).elim
      | struct =>
        obtain ⟨l, found⟩ := Option.isSome_iff_exists.mp laid
        have found' := found
        rw [Table.find?_insert] at found'
        split at found'
        case isTrue same =>
          cases found'
          simp only [extent?, found, extent]
          exact firm.typeExtent (.record layout.types) sized held e
        case isFalse => exact (known (Option.isSome_iff_exists.mpr ⟨l, found'⟩)).elim

theorem withEnum (firm : L.Firm) {layout : EnumLayout} (absent : L.enums.find? layout.name = none)
    (extent : layout.extent = L.aggregate layout.types) :
    Layouts.Firm { L with enums := L.enums.insert layout.name layout } := by
  have grows := Grows.insertEnum absent
  refine ⟨firm.sized, fun found p member => grows.contains (firm.held found p member),
    fun {kind n} laid e => ?_⟩
  by_cases known : L.contains kind n = true
  · rw [grows.extent?_eq known]
    exact firm.extents known e
  · cases kind with
    | struct => exact (known laid).elim
    | enum =>
      obtain ⟨l, found⟩ := Option.isSome_iff_exists.mp laid
      have found' := found
      rw [Table.find?_insert] at found'
      split at found'
      case isTrue same =>
        cases found'
        simp only [extent?, found, extent]
        have parts : allSized layout.types = true ∧ allEmbedded layout.types = [] := by
          unfold EnumLayout.types enumTypes
          split <;> exact ⟨rfl, rfl⟩
        exact firm.typeExtent (.record layout.types) parts.1
          (fun p member => by rw [IrType.embedded, parts.2] at member; cases member) e
      case isFalse => exact (known (Option.isSome_iff_exists.mpr ⟨l, found'⟩)).elim

end Layouts.Firm

/-! ### Extents that are asked for -/

namespace Resolution

variable {levels : Nat} {kind : DeclKind} {name : String}

theorem definerAt_laid (laid : s.layouts.contains kind name = true) (budget : Nat) :
    definerAt levels (budget + 1) kind name s = .ok () s := by
  cases kind with
  | struct =>
    have known : s.layouts.structs.contains name = true := laid
    change (if s.layouts.structs.contains name = true then _ else _ : Gen Unit) s = _
    rw [known]
    rfl
  | enum =>
    have known : s.layouts.enums.contains name = true := laid
    change (if s.layouts.enums.contains name = true then _ else _ : Gen Unit) s = _
    rw [known]
    rfl

theorem definerAt_givesIn (laid : s.layouts.contains kind name = true) (budget : Nat) :
    GivesIn s false (definerAt levels budget kind name) (.ok ()) := by
  cases budget with
  | zero => exact ⟨rfl, fun none => by cases none⟩
  | succ budget =>
    rw [GivesIn, definerAt_laid laid]
    exact ⟨rfl, rfl⟩

theorem define_givesIn (laid : s.layouts.contains kind name = true) :
    GivesIn s true (Gen.define kind name) (.ok ()) := by
  obtain ⟨budget, enough⟩ : ∃ budget,
      (s.decls.structs.size + s.decls.enums.size + 1) * (maxResolveDepth + 1) = budget + 1 :=
    Nat.exists_eq_succ_of_ne_zero (Nat.mul_ne_zero (Nat.succ_ne_zero _) (Nat.succ_ne_zero _))
  have run : Gen.define kind name s = definerAt (maxResolveDepth + 1) (budget + 1) kind name s := by
    rw [← enough]
    rfl
  rw [GivesIn, run, definerAt_laid laid]
  exact ⟨rfl, rfl⟩

theorem extent_givesIn {define : Definer}
    (asked : ∀ {kind name}, s.layouts.contains kind name = true →
      GivesIn s spare (define kind name) (.ok ())) (firm : s.layouts.Firm)
    {ty : IrType} (sized : ty.isSized = true)
    (held : ∀ p ∈ ty.embedded, s.layouts.contains p.1 p.2 = true) :
    GivesIn s spare (extent define ty) (s.layouts.typeExtent ty) := by
  refine ofType_givesIn ty sized fun p member => ?_
  have laid := held p member
  have looked : GivesIn s spare
      (get >>= fun now => MonadExcept.ofExcept (now.layouts.extent? p.1 p.2) : Gen Extent)
      (s.layouts.extent? p.1 p.2) := GivesIn.given (firm.extents laid)
  exact (asked laid).bind fun _ _ => looked

end Resolution

end Backend
