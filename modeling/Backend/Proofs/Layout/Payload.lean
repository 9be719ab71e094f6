import Mathlib.Tactic.NormNum
import Backend.Proofs.Layout.Soundness

/-!
Alignment of payloads. The data of an enum follow its tag, at offset 4, and an enum is aligned to 4.
Main statement: `Gen.payload_aligned_iff`, a field of a payload is aligned if its alignment divides
4; a field that is aligned to 8 is so exactly where the enum itself is not.
-/

namespace Backend

open Session (Later)

variable {L : Layouts}

/-- Slot `i` of an aggregate of these types starts `offset` bytes after the aggregate. -/
def SlotAt (L : Layouts) (types : List IrType) (i offset : Nat) : Prop :=
  ∃ es, HaveExtents L types es ∧ (spans 0 es)[i]?.map Span.start = some offset

theorem spans_getElem? {es : List Extent} {i : Nat} {e : Extent} (listed : es[i]? = some e)
    (offset : Nat) : ∃ start, (spans offset es)[i]? = some ⟨start, e⟩ := by
  induction es generalizing i offset with
  | nil => cases listed
  | cons first rest ih =>
    cases i with
    | zero =>
      obtain rfl := Option.some.inj listed
      exact ⟨_, rfl⟩
    | succ i => exact ih listed _

theorem HaveExtents.getElem? {types : List IrType} {es : List Extent} (h : HaveExtents L types es)
    {i : Nat} {ty : IrType} (listed : types[i]? = some ty) :
    ∃ e, es[i]? = some e ∧ HasExtent L ty e := by
  match h, i with
  | .nil, _ => cases listed
  | .cons first _, 0 =>
    obtain rfl := Option.some.inj listed
    exact ⟨_, rfl, first⟩
  | .cons _ later, i + 1 => exact later.getElem? listed

/-- A slot lies at a multiple of the alignment of its type. -/
theorem HaveExtents.slotAt (plain : L.Plain) {types : List IrType} {es : List Extent}
    (h : HaveExtents L types es) (widths : allPlain types = true) {i : Nat} {ty : IrType}
    (listed : types[i]? = some ty) :
    ∃ e offset, HasExtent L ty e ∧ e.Regular ∧ SlotAt L types i offset ∧ e.align ∣ offset := by
  obtain ⟨e, extentAt, extent⟩ := h.getElem? listed
  obtain ⟨offset, spanAt⟩ := spans_getElem? extentAt 0
  have regular := h.regular plain widths
  refine ⟨e, offset, extent, regular e (List.mem_of_getElem? extentAt), ⟨es, h, ?_⟩, ?_⟩
  · rw [spanAt, Option.map_some]
  · exact (spans_placed regular 0).aligned _ (List.mem_of_getElem? spanAt)

namespace EnumLayout

/-- A tag, then the data. -/
theorem tag_data_extents (layout : EnumLayout) :
    HaveExtents L [.i32, layout.dataType] [.ofSize 4, ⟨layout.dataSize * 1, 1⟩] :=
  .cons (.int 32) (.cons (.array layout.dataSize (.int 8)) .nil)

theorem data_at (layout : EnumLayout) : SlotAt L [.i32, layout.dataType] 1 4 :=
  ⟨_, layout.tag_data_extents, rfl⟩

theorem align_eq_four {layout : EnumLayout} {es : List Extent}
    (each : HaveExtents L layout.types es) : (Extent.together es).align = 4 := by
  unfold types enumTypes at each
  split at each
  · rw [each.unique layout.tag_data_extents]
    rfl
  · rw [each.unique (.cons (.int 32) .nil)]
    rfl

end EnumLayout

theorem HasExtent.enum_align {name : String} {e : Extent} (h : HasExtent L (.enum name) e)
    {layout : EnumLayout} (found : L.enums.find? name = some layout) : e.align = 4 := by
  have slots : (IrType.enum name).slots? L = some layout.types := by
    rw [IrType.slots?, found, Option.map_some]
  obtain ⟨es, each, rfl⟩ := h.slots slots
  exact layout.align_eq_four each

/-- What lies behind a tag of four bytes: only alignment 8 can be missed. -/
theorem Extent.Regular.behind_tag {e : Extent} (h : e.Regular) {base offset : Nat}
    (placed : 4 ∣ base) (aligned : e.align ∣ offset) : min e.align 4 ∣ base + 4 + offset ∧
      (e.align ∣ base + 4 + offset ↔ e.align ∣ 4 ∨ ¬ 8 ∣ base) := by
  have width := h.align
  simp only [List.mem_cons, List.not_mem_nil, or_false] at width
  rcases width with width | width | width | width <;> rw [width] at aligned ⊢ <;>
    norm_num <;> omega

/-- The extent that is given in a session that can be reached is right from then on. -/
theorem Gen.hasExtent_of_extent {s s' : Session} (sound : s.layouts.Sound) {ir : IrType}
    {e : Extent} (measured : Gen.extent ir s = .ok e s') :
    s'.layouts.Sound ∧ s.layouts.Grows s'.layouts ∧ HasExtent s'.layouts ir e := by
  have later := (Resolution.extent_keeps Later.lays.defined ir).of_ok measured
  refine ⟨later.sound sound, later.grows, ?_⟩
  exact hasExtent_of_run (Resolution.namedExtent_keeps Later.lays.defined)
    (fun run grows => hasExtent_of_namedExtent run grows (later.sound sound)) ir measured .rfl

/-- In every session that can be reached, take an enum that lies at a multiple of its alignment.
A field of a payload lies at a multiple of its own alignment, or of 4 if that is less; it is aligned
exactly if its alignment divides 4 or the enum does not lie at a multiple of 8. -/
theorem Gen.payload_aligned_iff {s s₁ s₂ : Session} {name : String} {e f : Extent}
    {layout : EnumLayout} {v : VariantLayout} {i : Nat} {ty : IrType} (reached : s.Reached)
    (measured : Gen.extent (.enum name) s = .ok e s₁)
    (found : s₁.layouts.enums.find? name = some layout) (variant : v ∈ layout.variants.values)
    (field : v.payload[i]? = some ty) (fieldMeasured : Gen.extent ty s₁ = .ok f s₂) :
    e.align = 4 ∧ ∃ data offset, SlotAt s₂.layouts [.i32, layout.dataType] 1 data ∧
      SlotAt s₂.layouts v.payload i offset ∧
      ∀ base, e.align ∣ base → min f.align 4 ∣ base + data + offset ∧
        (f.align ∣ base + data + offset ↔ f.align ∣ 4 ∨ ¬ 8 ∣ base) := by
  obtain ⟨sound₁, -, extent⟩ := hasExtent_of_extent reached.sound measured
  obtain ⟨sound₂, grows, fieldExtent⟩ := hasExtent_of_extent sound₁ fieldMeasured
  have align : e.align = 4 := extent.enum_align found
  obtain ⟨es, each, -⟩ := (extent.grown grows).payload (grows.enums found) variant
  obtain ⟨f', offset, ofField, regular, fieldAt, aligned⟩ := each.slotAt sound₂.toPlain
    (sound₂.payloads (grows.enums found) v variant) field
  obtain rfl := ofField.unique fieldExtent
  refine ⟨align, 4, offset, layout.data_at, fieldAt, fun base placed => ?_⟩
  rw [align] at placed
  exact regular.behind_tag placed aligned

def wideSession : Session :=
  (Gen.extent (.enum "Wide")).after (Session.register (.ofOptions {})
    (.enum
      { name := "Wide"
        variants := [{ name := "Word", payload := some (.tuple [.primitive .i64]) }] }))

def wideLayout : EnumLayout where
  name := "Wide"
  variants := .ofList [("Word", ⟨0, [.i64], [.primitive .i64], 8⟩)]
  dataSize := 8
  extent := .ok ⟨12, 4⟩

theorem wideSession_reached : wideSession.Reached := .step (.extent _) (.register _ (.start _ _))

theorem Gen.payload_aligned_iff_wide :
    wideSession.Reached ∧ Gen.extent (.enum "Wide") wideSession = .ok ⟨12, 4⟩ wideSession ∧
      ∃ data offset, SlotAt wideSession.layouts [.i32, wideLayout.dataType] 1 data ∧
        SlotAt wideSession.layouts [.i64] 0 offset ∧
        ∀ base, 4 ∣ base → 4 ∣ base + data + offset ∧
          (8 ∣ base + data + offset ↔ 8 ∣ 4 ∨ ¬ 8 ∣ base) := by
  have measured : Gen.extent (.enum "Wide") wideSession = .ok ⟨12, 4⟩ wideSession := by rfl
  have found : wideSession.layouts.enums.find? "Wide" = some wideLayout := by rfl
  obtain ⟨-, aligned⟩ := Gen.payload_aligned_iff wideSession_reached measured found (List.mem_singleton.mpr rfl)
    (i := 0) rfl rfl
  exact ⟨wideSession_reached, measured, aligned⟩

/-- At address 0 the enum is aligned, and the word in its payload is not. -/
theorem Gen.payload_not_aligned :
    wideSession.Reached ∧ wideSession.layouts.enums.find? "Wide" = some wideLayout ∧
      Gen.extent (.enum "Wide") wideSession = .ok ⟨12, 4⟩ wideSession ∧
      Gen.extent .i64 wideSession = .ok ⟨8, 8⟩ wideSession ∧
      SlotAt wideSession.layouts [.i32, wideLayout.dataType] 1 4 ∧
      SlotAt wideSession.layouts [.i64] 0 0 ∧ 4 ∣ 0 ∧ ¬ 8 ∣ 0 + 4 + 0 :=
  ⟨wideSession_reached, rfl, rfl, rfl, wideLayout.data_at, ⟨_, .cons (.int 64) .nil, rfl⟩, by decide, by decide⟩

end Backend
