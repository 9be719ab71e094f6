import Backend.Proofs.Layout.Extent
import Backend.Proofs.Session.Replies

/-!
Layouts that are sound: whatever extent is recorded for a name is the extent of what the name
stands for. Laying out a type keeps that, and it changes nothing that is laid out already, because
a type that is being laid out cannot be laid out a second time meanwhile.
-/

namespace Backend

open Gen (Keeps Moves)

/-- The recorded extents are right. -/
structure Layouts.Sound (L : Layouts) : Prop extends L.Plain where
  extents : ∀ kind {name e}, L.extent? kind name = .ok e → HasExtent L (kind.irType name) e

/-- A session after some steps, as far as layouts go. -/
structure Session.Later (s s' : Session) : Prop where
  sound : s.layouts.Sound → s'.layouts.Sound
  grows : s.layouts.Grows s'.layouts
  defining : s'.defining = s.defining
  /-- Nothing that is being laid out comes to be laid out. -/
  structs : ∀ name ∈ s.defining, s'.layouts.structs.find? name = s.layouts.structs.find? name
  enums : ∀ name ∈ s.defining, s'.layouts.enums.find? name = s.layouts.enums.find? name

namespace Session.Later

theorem trans {s s' s'' : Session} (h : s.Later s') (h' : s'.Later s'') : s.Later s'' where
  sound := fun sound => h'.sound (h.sound sound)
  grows := h.grows.trans h'.grows
  defining := h'.defining.trans h.defining
  structs := fun name member =>
    (h'.structs name (h.defining ▸ member)).trans (h.structs name member)
  enums := fun name member => (h'.enums name (h.defining ▸ member)).trans (h.enums name member)

theorem of_same {s s' : Session} (structs : s'.layouts.structs = s.layouts.structs)
    (enums : s'.layouts.enums = s.layouts.enums) (defining : s'.defining = s.defining) :
    s.Later s' := by
  have grows : s.layouts.Grows s'.layouts :=
    ⟨fun found => structs ▸ found, fun found => enums ▸ found⟩
  refine ⟨fun sound => ⟨⟨?_, ?_⟩, fun kind {name e} found => ?_⟩, grows, defining, ?_, ?_⟩
  · exact fun found => sound.structs (structs ▸ found)
  · exact fun found => sound.payloads (enums ▸ found)
  · refine (sound.extents kind ?_).grown grows
    cases kind with
    | struct => rw [← found, Layouts.extent?, Layouts.extent?, structs]
    | enum => rw [← found, Layouts.extent?, Layouts.extent?, enums]
  · exact fun name _ => by rw [structs]
  · exact fun name _ => by rw [enums]

theorem refl {s : Session} : s.Later s := of_same rfl rfl rfl

instance : IsPreorder Session Later where
  refl _ := refl
  trans _ _ _ := trans

end Session.Later

open Session (Later)

/-! ### Extents that are computed -/

theorem Gen.word_ok {n m : Nat} {s s' : Session} (run : (word n : Gen Nat) s = .ok m s') :
    m = n ∧ s' = s := by
  unfold word at run
  split at run
  · exact Gen.pure_ok run
  · cases run

theorem max_strictest (align : Nat) (e : Extent) (es : List Extent) :
    max (max align e.align) (Extent.strictest es) = max align (Extent.strictest (e :: es)) :=
  Nat.max_assoc _ _ _

section

variable {L : Layouts} {leaf : DeclKind → String → Gen Extent}

mutual

theorem hasExtent_of_run (moves : ∀ kind name, Moves Later (leaf kind name))
    (named : ∀ {kind name s e s'}, leaf kind name s = .ok e s' → s'.layouts.Grows L →
      HasExtent L (kind.irType name) e) (ty : IrType) {s s' : Session} {e : Extent}
    (run : Extent.ofType leaf ty s = .ok e s') (grows : s'.layouts.Grows L) :
    HasExtent L ty e := by
  match ty with
  | .void => obtain ⟨rfl, -⟩ := Gen.pure_ok run; exact .void
  | .int bits =>
    obtain ⟨rfl, -⟩ := Gen.pure_ok run
    rw [intBytes_eq]
    exact .int bits
  | .float => obtain ⟨rfl, -⟩ := Gen.pure_ok run; exact .float
  | .double => obtain ⟨rfl, -⟩ := Gen.pure_ok run; exact .double
  | .ptr inner => obtain ⟨rfl, -⟩ := Gen.pure_ok run; exact .ptr inner
  | .array length elem =>
    obtain ⟨each, s₁, ran, rest⟩ := Gen.bind_ok run
    obtain ⟨size, s₂, sized, done⟩ := Gen.bind_ok rest
    obtain ⟨rfl, rfl⟩ := Gen.word_ok sized
    obtain ⟨rfl, rfl⟩ := Gen.pure_ok done
    exact .array length (hasExtent_of_run moves named elem ran grows)
  | .record fields =>
    obtain ⟨⟨offset, align⟩, s₁, packed, rest⟩ := Gen.bind_ok run
    obtain ⟨size, s₂, sized, done⟩ := Gen.bind_ok rest
    obtain ⟨rfl, rfl⟩ := Gen.word_ok sized
    obtain ⟨rfl, rfl⟩ := Gen.pure_ok done
    obtain ⟨es, each, rfl, rfl⟩ := haveExtents_of_run moves named fields (Nat.le_refl 1) packed grows
    rw [Nat.max_eq_right (Extent.one_le_strictest es)]
    exact .record each
  | .struct name => exact named run grows
  | .enum name => exact named run grows
  | .forward _ => exact (Gen.fail_ok run).elim
  | .function .. => exact (Gen.fail_ok run).elim

theorem haveExtents_of_run (moves : ∀ kind name, Moves Later (leaf kind name))
    (named : ∀ {kind name s e s'}, leaf kind name s = .ok e s' → s'.layouts.Grows L →
      HasExtent L (kind.irType name) e) (fields : List IrType) {s s' : Session}
    {offset align stop strictest : Nat} (positive : 1 ≤ align)
    (run : Extent.pack leaf fields offset align s = .ok (stop, strictest) s')
    (grows : s'.layouts.Grows L) :
    ∃ es, HaveExtents L fields es ∧ stop = Extent.endFrom offset es ∧
      strictest = max align (Extent.strictest es) := by
  match fields with
  | [] =>
    obtain ⟨same, rfl⟩ := Gen.pure_ok run
    obtain ⟨rfl, rfl⟩ := Prod.mk.inj same
    exact ⟨[], .nil, rfl, (Nat.max_eq_left positive).symm⟩
  | ty :: rest =>
    obtain ⟨e, s₁, ran, ran₁⟩ := Gen.bind_ok run
    obtain ⟨next, s₂, placed, ran₂⟩ := Gen.bind_ok ran₁
    obtain ⟨start, s₃, aligned, ended⟩ := Gen.bind_ok placed
    obtain ⟨rfl, rfl⟩ := Gen.word_ok aligned
    obtain ⟨rfl, rfl⟩ := Gen.word_ok ended
    have later := (Resolution.pack_keeps moves rest _ _).of_ok ran₂
    have first := hasExtent_of_run moves named ty ran (later.grows.trans grows)
    obtain ⟨es, each, rfl, rfl⟩ := haveExtents_of_run moves named rest
      (Nat.le_trans positive (Nat.le_max_left align e.align)) ran₂ grows
    exact ⟨e :: es, .cons first each, rfl, max_strictest align e es⟩

end

end

/-! ### Extents among layouts -/

section

variable {α β : Type}

abbrev Gen.given (x : Except Halt α) : Gen α := MonadExcept.ofExcept x

theorem Gen.given_bind (x : Except Halt α) (k : α → Except Halt β) :
    given (x >>= k) = given x >>= fun a => given (k a) := by
  cases x <;> rfl

theorem Gen.given_word (n : Nat) : given (word n) = word n := by
  unfold word
  split <;> rfl

mutual

theorem Gen.given_ofType (leaf : DeclKind → String → Except Halt Extent) :
    (ty : IrType) → given (Extent.ofType leaf ty) = Extent.ofType (fun k n => given (leaf k n)) ty
  | .void | .int _ | .float | .double | .ptr _ => rfl
  | .array length elem => by
    rw [Extent.ofType, given_bind, Gen.given_ofType leaf elem, Extent.ofType]
    simp only [given_bind, given_word]
    rfl
  | .record fields => by
    rw [Extent.ofType, given_bind, Gen.given_pack leaf fields, Extent.ofType]
    simp only [Extent.closing, given_bind, given_word]
    rfl
  | .struct name => rfl
  | .enum name => rfl
  | .forward _ => rfl
  | .function .. => rfl

theorem Gen.given_pack (leaf : DeclKind → String → Except Halt Extent) :
    (fields : List IrType) → (offset align : Nat) → given (Extent.pack leaf fields offset align) =
      Extent.pack (fun k n => given (leaf k n)) fields offset align
  | [], _, _ => rfl
  | ty :: rest, offset, align => by
    rw [Extent.pack, given_bind, Gen.given_ofType leaf ty, Extent.pack]
    simp only [Extent.place, given_bind, given_word, Gen.given_pack leaf rest]

end

end

theorem Layouts.Sound.aggregate {L : Layouts} (sound : L.Sound) {fields : List IrType}
    {e : Extent} (computed : L.aggregate fields = .ok e) : HasExtent L (.record fields) e := by
  let s : Session := { layouts := L }
  have run : Extent.ofType (fun kind name => Gen.given (L.extent? kind name)) (.record fields) s =
      .ok e s := by
    rw [Layouts.aggregate, Extent.aggregate] at computed
    rw [← Gen.given_ofType, computed]
    rfl
  refine hasExtent_of_run (fun _ _ => .ofExcept _) ?_ _ run .rfl
  intro kind name s₁ e s₂ found _
  cases extent : L.extent? kind name with
  | ok known =>
    rw [extent] at found
    cases found
    exact sound.extents kind extent
  | error h =>
    rw [extent] at found
    cases found

theorem Layouts.Grows.extent? {L L' : Layouts} (grows : L.Grows L') {kind : DeclKind}
    {name : String} {e : Extent} (found : L.extent? kind name = .ok e) :
    L'.extent? kind name = .ok e := by
  cases kind with
  | struct =>
    simp only [Layouts.extent?] at found ⊢
    split at found
    case h_1 layout known => exact grows.structs known ▸ found
    case h_2 => cases found
  | enum =>
    simp only [Layouts.extent?] at found ⊢
    split at found
    case h_1 layout known => exact grows.enums known ▸ found
    case h_2 => cases found

theorem hasExtent_of_namedExtent {define : Definer} {kind : DeclKind} {name : String}
    {s s' : Session} {e : Extent} (run : Resolution.namedExtent define kind name s = .ok e s')
    {L : Layouts} (grows : s'.layouts.Grows L) (sound : L.Sound) :
    HasExtent L (kind.irType name) e := by
  obtain ⟨_, s₁, -, rest⟩ := Gen.bind_ok run
  obtain ⟨now, s₂, got, given⟩ := Gen.bind_ok rest
  cases got
  cases extent : s₁.layouts.extent? kind name with
  | ok known =>
    rw [extent] at given
    cases given
    exact sound.extents kind (grows.extent? extent)
  | error h =>
    rw [extent] at given
    cases given

end Backend
