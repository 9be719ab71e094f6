import Mathlib.Data.List.Forall2
import Backend.Resolution.Resolve

/-!
Extents over the natural numbers, without a bound on sizes. `HasExtent` says what the extent of a
type is, given what is laid out; the fields of an aggregate lie in their spans. Where integers have
the widths of the source types, every alignment is 1, 2, 4 or 8 and divides the size.
-/

namespace Backend

/-! ### Alignment -/

theorem le_alignTo (offset align : Nat) : offset ≤ alignTo offset align := by
  unfold alignTo
  split
  · exact Nat.le_refl offset
  case isFalse large =>
    have remainder := Nat.mod_add_div (offset + align - 1) align
    have small := Nat.mod_lt (offset + align - 1) (show 0 < align by omega)
    rw [Nat.mul_comm]
    omega

theorem dvd_alignTo {align : Nat} (offset : Nat) (positive : 0 < align) :
    align ∣ alignTo offset align := by
  unfold alignTo
  split
  case isTrue small =>
    have one : align = 1 := by omega
    exact one ▸ Nat.one_dvd offset
  case isFalse => exact Nat.dvd_mul_left align _

namespace Extent

/-- The alignment is that of a machine word or less, and elements of this size that follow each
other stay aligned. -/
structure Regular (e : Extent) : Prop where
  align : e.align ∈ [1, 2, 4, 8]
  size : e.align ∣ e.size

theorem Regular.positive {e : Extent} (h : e.Regular) : 0 < e.align := by
  have width := h.align
  simp only [List.mem_cons, List.not_mem_nil, or_false] at width
  omega

def strictest : List Extent → Nat
  | [] => 1
  | e :: rest => max e.align (strictest rest)

def endFrom (offset : Nat) : List Extent → Nat
  | [] => offset
  | e :: rest => endFrom (alignTo offset e.align + e.size) rest

def together (es : List Extent) : Extent :=
  ⟨alignTo (endFrom 0 es) (strictest es), strictest es⟩

theorem one_le_strictest (es : List Extent) : 1 ≤ strictest es := by
  induction es with
  | nil => exact Nat.le_refl 1
  | cons e rest ih => exact Nat.le_trans ih (Nat.le_max_right _ _)

theorem strictest_mem {es : List Extent} (h : ∀ e ∈ es, e.Regular) :
    strictest es ∈ [1, 2, 4, 8] := by
  induction es with
  | nil => exact List.mem_cons_self
  | cons e rest ih =>
    obtain ⟨first, later⟩ := List.forall_mem_cons.mp h
    rcases Nat.le_total e.align (strictest rest) with le | le
    · rw [strictest, Nat.max_eq_right le]
      exact ih later
    · rw [strictest, Nat.max_eq_left le]
      exact first.align

theorem together_regular {es : List Extent} (h : ∀ e ∈ es, e.Regular) : (together es).Regular :=
  ⟨strictest_mem h, dvd_alignTo _ (one_le_strictest es)⟩

end Extent

/-! ### Spans of fields -/

/-- Where a field lies. -/
structure Span where
  start : Nat
  extent : Extent

def Span.stop (p : Span) : Nat := p.start + p.extent.size

/-- Fields that follow each other from `offset` on, each at the next multiple of its alignment. -/
def spans (offset : Nat) : List Extent → List Span
  | [] => []
  | e :: rest => ⟨alignTo offset e.align, e⟩ :: spans (alignTo offset e.align + e.size) rest

/-- Fields are aligned, follow each other without overlap and end before `size`. -/
structure Placed (fields : List Span) (size : Nat) : Prop where
  aligned : ∀ p ∈ fields, p.extent.align ∣ p.start
  ordered : fields.Pairwise fun p q => p.stop ≤ q.start
  inside : ∀ p ∈ fields, p.stop ≤ size

theorem le_endFrom (offset : Nat) (es : List Extent) : offset ≤ Extent.endFrom offset es := by
  induction es generalizing offset with
  | nil => exact Nat.le_refl offset
  | cons e rest ih =>
    have aligned := le_alignTo offset e.align
    have later := ih (alignTo offset e.align + e.size)
    rw [Extent.endFrom]
    omega

theorem le_start_of_mem_spans {offset : Nat} {es : List Extent} {p : Span}
    (h : p ∈ spans offset es) : offset ≤ p.start := by
  induction es generalizing offset with
  | nil => cases h
  | cons e rest ih =>
    have aligned := le_alignTo offset e.align
    rcases List.mem_cons.mp h with rfl | h
    · exact aligned
    · have later := ih h
      omega

theorem spans_placed {es : List Extent} (h : ∀ e ∈ es, e.Regular) (offset : Nat) :
    Placed (spans offset es) (Extent.endFrom offset es) := by
  induction es generalizing offset with
  | nil => exact ⟨List.forall_mem_nil _, .nil, List.forall_mem_nil _⟩
  | cons e rest ih =>
    obtain ⟨first, later⟩ := List.forall_mem_cons.mp h
    obtain ⟨aligned, ordered, inside⟩ := ih later (alignTo offset e.align + e.size)
    refine ⟨List.forall_mem_cons.mpr ⟨dvd_alignTo _ first.positive, aligned⟩, ?_, ?_⟩
    · exact List.pairwise_cons.mpr ⟨fun q member => le_start_of_mem_spans member, ordered⟩
    · exact List.forall_mem_cons.mpr ⟨le_endFrom _ _, inside⟩

theorem Placed.mono {fields : List Span} {size size' : Nat} (h : Placed fields size)
    (le : size ≤ size') : Placed fields size' :=
  ⟨h.aligned, h.ordered, fun p member => Nat.le_trans (h.inside p member) le⟩

/-! ### The extent of a type -/

/-- The bytes of an integer. Those of the source are listed; any other takes the bytes it needs. -/
def intSize : Nat → Nat
  | 1 => 1
  | 8 => 1
  | 16 => 2
  | 32 => 4
  | 64 => 8
  | bits => max ((bits + 7) / 8) 1

theorem intBytes_eq (bits : Nat) : Extent.intBytes bits = intSize bits := by
  unfold intSize
  split <;> rfl

mutual

/-- The extent of a type. What a name stands for is looked up among the layouts; the data of an
enum are as large as the largest payload of its variants, each packed on its own. -/
inductive HasExtent (L : Layouts) : IrType → Extent → Prop where
  | void : HasExtent L .void ⟨0, 1⟩
  | int (bits : Nat) : HasExtent L (.int bits) ⟨intSize bits, intSize bits⟩
  | float : HasExtent L .float ⟨4, 4⟩
  | double : HasExtent L .double ⟨8, 8⟩
  | ptr (inner : IrType) : HasExtent L (.ptr inner) ⟨8, 8⟩
  | array {elem : IrType} {e : Extent} (length : Nat) (each : HasExtent L elem e) :
    HasExtent L (.array length elem) ⟨length * e.size, e.align⟩
  | record {fields : List IrType} {es : List Extent} (each : HaveExtents L fields es) :
    HasExtent L (.record fields) (.together es)
  | struct {name : String} {layout : StructLayout} {e : Extent}
    (found : L.structs.find? name = some layout) (slots : HasExtent L (.record layout.types) e) :
    HasExtent L (.struct name) e
  | enum {name : String} {layout : EnumLayout} {e : Extent} {cases : List (String × VariantLayout)}
    {ends : List Nat} (found : L.enums.find? name = some layout)
    (variants : layout.variants = Table.ofList cases) (payloads : HaveEnds L cases ends)
    (data : layout.dataSize = ends.foldl max 0) (slots : HasExtent L (.record layout.types) e) :
    HasExtent L (.enum name) e

inductive HaveExtents (L : Layouts) : List IrType → List Extent → Prop where
  | nil : HaveExtents L [] []
  | cons {ty : IrType} {e : Extent} {types : List IrType} {es : List Extent}
    (first : HasExtent L ty e) (later : HaveExtents L types es) :
    HaveExtents L (ty :: types) (e :: es)

/-- The ends of the payloads of some variants. -/
inductive HaveEnds (L : Layouts) : List (String × VariantLayout) → List Nat → Prop where
  | nil : HaveEnds L [] []
  | cons {name : String} {v : VariantLayout} {es : List Extent}
    {cases : List (String × VariantLayout)} {ends : List Nat}
    (payload : HaveExtents L v.payload es) (later : HaveEnds L cases ends) :
    HaveEnds L ((name, v) :: cases) (Extent.endFrom 0 es :: ends)

end

/-- What is laid out stays as it is; the dispatched methods are not part of that. -/
structure Layouts.Grows (L L' : Layouts) : Prop where
  structs : ∀ {name layout}, L.structs.find? name = some layout →
    L'.structs.find? name = some layout
  enums : ∀ {name layout}, L.enums.find? name = some layout → L'.enums.find? name = some layout

theorem Layouts.Grows.rfl {L : Layouts} : L.Grows L := ⟨id, id⟩

theorem Layouts.Grows.trans {L L' L'' : Layouts} (h : L.Grows L') (h' : L'.Grows L'') :
    L.Grows L'' :=
  ⟨fun found => h'.structs (h.structs found), fun found => h'.enums (h.enums found)⟩

theorem Layouts.Grows.insertStruct {L : Layouts} {layout : StructLayout}
    (absent : L.structs.find? layout.name = none) :
    L.Grows { L with structs := L.structs.insert layout.name layout } := by
  refine ⟨fun {n l} found => ?_, id⟩
  rw [Table.find?_insert, if_neg, found]
  intro same
  cases absent.symm.trans (same ▸ found)

theorem Layouts.Grows.insertEnum {L : Layouts} {layout : EnumLayout}
    (absent : L.enums.find? layout.name = none) :
    L.Grows { L with enums := L.enums.insert layout.name layout } := by
  refine ⟨id, fun {n l} found => ?_⟩
  rw [Table.find?_insert, if_neg, found]
  intro same
  cases absent.symm.trans (same ▸ found)

mutual

theorem HasExtent.grown {L L' : Layouts} (grows : L.Grows L') {ty : IrType} {e : Extent} :
    HasExtent L ty e → HasExtent L' ty e
  | .void => .void
  | .int bits => .int bits
  | .float => .float
  | .double => .double
  | .ptr inner => .ptr inner
  | .array length each => .array length (each.grown grows)
  | .record each => .record (each.grown grows)
  | .struct found slots => .struct (grows.structs found) (slots.grown grows)
  | .enum found variants payloads data slots =>
    .enum (grows.enums found) variants (payloads.grown grows) data (slots.grown grows)

theorem HaveExtents.grown {L L' : Layouts} (grows : L.Grows L') {types : List IrType}
    {es : List Extent} : HaveExtents L types es → HaveExtents L' types es
  | .nil => .nil
  | .cons first later => .cons (first.grown grows) (later.grown grows)

theorem HaveEnds.grown {L L' : Layouts} (grows : L.Grows L')
    {cases : List (String × VariantLayout)} {ends : List Nat} :
    HaveEnds L cases ends → HaveEnds L' cases ends
  | .nil => .nil
  | .cons payload later => .cons (payload.grown grows) (later.grown grows)

end

mutual

theorem HasExtent.unique {L : Layouts} {ty : IrType} {e e' : Extent} :
    HasExtent L ty e → HasExtent L ty e' → e = e'
  | .void, .void => rfl
  | .int _, .int _ => rfl
  | .float, .float => rfl
  | .double, .double => rfl
  | .ptr _, .ptr _ => rfl
  | .array _ each, .array _ each' => by rw [each.unique each']
  | .record each, .record each' => by rw [each.unique each']
  | .struct found slots, .struct found' slots' => by
    obtain rfl := Option.some.inj (found.symm.trans found')
    exact slots.unique slots'
  | .enum found _ _ _ slots, .enum found' _ _ _ slots' => by
    obtain rfl := Option.some.inj (found.symm.trans found')
    exact slots.unique slots'

theorem HaveExtents.unique {L : Layouts} {types : List IrType} {es es' : List Extent} :
    HaveExtents L types es → HaveExtents L types es' → es = es'
  | .nil, .nil => rfl
  | .cons first later, .cons first' later' => by rw [first.unique first', later.unique later']

end

/-! ### Widths of the source types -/

def sourceWidths : List Nat := [1, 8, 16, 32, 64]

mutual

/-- The integers that the type holds have the width of a source type. -/
def IrType.isPlain : IrType → Bool
  | .int bits => bits ∈ sourceWidths
  | .array _ elem => elem.isPlain
  | .record fields => allPlain fields
  | _ => true

def allPlain : List IrType → Bool
  | [] => true
  | ty :: rest => ty.isPlain && allPlain rest

end

theorem allPlain_iff {types : List IrType} :
    allPlain types = true ↔ ∀ ty ∈ types, ty.isPlain = true := by
  induction types with
  | nil => exact ⟨fun _ => List.forall_mem_nil _, fun _ => rfl⟩
  | cons ty rest ih => rw [allPlain, Bool.and_eq_true, ih, List.forall_mem_cons]

theorem intSize_regular {bits : Nat} (h : bits ∈ sourceWidths) :
    (⟨intSize bits, intSize bits⟩ : Extent).Regular := by
  refine ⟨?_, Nat.dvd_refl _⟩
  simp only [sourceWidths, List.mem_cons, List.not_mem_nil, or_false] at h
  rcases h with rfl | rfl | rfl | rfl | rfl <;> decide

/-- Whatever is laid out has integers of source widths. -/
structure Layouts.Plain (L : Layouts) : Prop where
  structs : ∀ {name layout}, L.structs.find? name = some layout → allPlain layout.types = true
  payloads : ∀ {name layout}, L.enums.find? name = some layout →
    ∀ v ∈ layout.variants.values, allPlain v.payload = true

theorem EnumLayout.types_plain (layout : EnumLayout) : allPlain layout.types = true := by
  unfold EnumLayout.types enumTypes
  split <;> rfl

mutual

theorem HasExtent.regular {L : Layouts} (plain : L.Plain) {ty : IrType} {e : Extent} :
    HasExtent L ty e → ty.isPlain = true → e.Regular
  | .void, _ => ⟨by decide, Nat.dvd_zero 1⟩
  | .int bits, h => intSize_regular (of_decide_eq_true h)
  | .float, _ => ⟨by decide, Nat.dvd_refl _⟩
  | .double, _ => ⟨by decide, Nat.dvd_refl _⟩
  | .ptr _, _ => ⟨by decide, Nat.dvd_refl _⟩
  | .array length each, h =>
    have inner := each.regular plain h
    ⟨inner.align, Nat.dvd_mul_left_of_dvd inner.size length⟩
  | .record each, h => Extent.together_regular (each.regular plain h)
  | .struct found slots, _ => slots.regular plain (plain.structs found)
  | .enum _ _ _ _ slots, _ => slots.regular plain (EnumLayout.types_plain _)

theorem HaveExtents.regular {L : Layouts} (plain : L.Plain) {types : List IrType}
    {es : List Extent} : HaveExtents L types es → allPlain types = true → ∀ e ∈ es, e.Regular
  | .nil, _ => List.forall_mem_nil _
  | .cons first later, h =>
    have both := Bool.and_eq_true_iff.mp h
    List.forall_mem_cons.mpr ⟨first.regular plain both.1, later.regular plain both.2⟩

end

theorem HaveExtents.forall₂ {L : Layouts} {types : List IrType} {es : List Extent} :
    HaveExtents L types es → List.Forall₂ (HasExtent L) types es
  | .nil => .nil
  | .cons first later => .cons first later.forall₂

theorem HaveExtents.placed {L : Layouts} (plain : L.Plain) {types : List IrType}
    {es : List Extent} (h : HaveExtents L types es) (widths : allPlain types = true) :
    Placed (spans 0 es) (Extent.together es).size :=
  (spans_placed (h.regular plain widths) 0).mono (le_alignTo _ _)

theorem le_foldl_max {n start : Nat} {ends : List Nat} (h : n ≤ start ∨ n ∈ ends) :
    n ≤ ends.foldl max start := by
  induction ends generalizing start with
  | nil =>
    rcases h with le | member
    · exact le
    · cases member
  | cons stop rest ih =>
    refine ih ?_
    rcases h with le | member
    · exact .inl (Nat.le_trans le (Nat.le_max_left _ _))
    · rcases List.mem_cons.mp member with rfl | member
      · exact .inl (Nat.le_max_right _ _)
      · exact .inr member

theorem HaveEnds.payload {L : Layouts} {cases : List (String × VariantLayout)} {ends : List Nat}
    (h : HaveEnds L cases ends) {v : VariantLayout} (member : v ∈ cases.map Prod.snd) :
    ∃ es, HaveExtents L v.payload es ∧ Extent.endFrom 0 es ∈ ends := by
  match h with
  | .nil => cases member
  | .cons payload later =>
    rcases List.mem_cons.mp member with rfl | member
    · exact ⟨_, payload, List.mem_cons_self⟩
    · obtain ⟨es, extents, listed⟩ := later.payload member
      exact ⟨es, extents, List.mem_cons_of_mem _ listed⟩

end Backend
