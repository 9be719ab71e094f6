import Backend.Proofs.Layout.Define
import Backend.Proofs.Session.Reached

/-!
Sizes and alignments in every session that can be reached. Main statement: `Gen.extent_sound`, the
extent that is given for a resolved type is its extent over the natural numbers, it is aligned, and
the fields of an aggregate and the payloads of an enum lie where they should.
-/

namespace Backend

open Session (Later)

theorem Session.Later.activated {s s' : Session} {symbol : String}
    (later : Later { s with active := some symbol } s') : Later s { s' with active := none } :=
  have begun : Later s { s with active := some symbol } := .of_same rfl rfl rfl
  (begun.trans later).trans (.of_same rfl rfl rfl)

theorem Session.generates_later : Session.Generates (.always Later) where
  toReplies := Later.lays.replies
  tell := fun call _ => Later.tell call
  internString := fun _ _ => .of_same rfl rfl rfl
  freshLambda := fun _ => .of_same rfl rfl rfl
  environment := fun _ _ _ => .of_same rfl rfl rfl
  queueLambda := fun _ _ _ _ => .of_same rfl rfl rfl
  register := fun _ _ => .of_same rfl rfl rfl
  instantiate := Later.lays.instantiated
  queueMethods := Later.lays.queueMethods
  beginInstance := fun _ _ _ _ => .of_same rfl rfl rfl
  completeInstance := fun _ _ => .of_same rfl rfl rfl
  activate := fun _ => .activated
  activateHalts := fun _ => .activated
  dequeue := fun _ _ => .of_same rfl rfl rfl
  own := fun _ _ _ => .of_same rfl rfl rfl
  declare := fun _ _ => .of_same rfl rfl rfl
  addFunction := fun _ _ _ _ => .of_same rfl rfl rfl

theorem Session.Reached.sound {s : Session} (h : s.Reached) : s.layouts.Sound := by
  obtain ⟨options, collector, later⟩ := generates_later.reached h
  refine later.sound ⟨⟨?_, ?_⟩, ?_⟩
  · exact fun found => nomatch found
  · exact fun found => nomatch found
  · intro kind name e found
    cases kind <;> cases found

def IrType.slots? (L : Layouts) : IrType → Option (List IrType)
  | .record fields => some fields
  | .struct name => (L.structs.find? name).map StructLayout.types
  | .enum name => (L.enums.find? name).map EnumLayout.types
  | _ => none

/-- What a type holds by value, itself included. -/
inductive IrType.Holds (L : Layouts) (ty : IrType) : IrType → Prop where
  | self : Holds L ty ty
  | elem {length : Nat} {elem : IrType} (h : Holds L ty (.array length elem)) : Holds L ty elem
  | slot {part field : IrType} {fields : List IrType} (h : Holds L ty part)
    (slots : part.slots? L = some fields) (member : field ∈ fields) : Holds L ty field
  | payload {name : String} {layout : EnumLayout} {v : VariantLayout} {field : IrType}
    (h : Holds L ty (.enum name)) (found : L.enums.find? name = some layout)
    (variant : v ∈ layout.variants.values) (member : field ∈ v.payload) : Holds L ty field

/-- The type has an extent that is aligned. The slots of an aggregate lie inside it, and the
payloads of an enum inside its data. -/
structure WellPlaced (L : Layouts) (ty : IrType) (e : Extent) : Prop where
  extent : HasExtent L ty e
  align : e.align ∈ [1, 2, 4, 8]
  size : e.align ∣ e.size
  slots : ∀ fields, ty.slots? L = some fields →
    ∃ es, List.Forall₂ (HasExtent L) fields es ∧ Placed (spans 0 es) e.size
  payloads : ∀ name layout, ty = .enum name → L.enums.find? name = some layout →
    ∀ v ∈ layout.variants.values,
      ∃ es, List.Forall₂ (HasExtent L) v.payload es ∧ Placed (spans 0 es) layout.dataSize

section

variable {L : Layouts}

theorem IrType.slots_plain (plain : L.Plain) {ty : IrType} (widths : ty.isPlain = true)
    {fields : List IrType} (slots : ty.slots? L = some fields) : allPlain fields = true := by
  cases ty with
  | record types =>
    obtain rfl := Option.some.inj slots
    exact widths
  | struct name =>
    obtain ⟨layout, found, rfl⟩ := Option.map_eq_some_iff.mp slots
    exact plain.structs found
  | enum name =>
    obtain ⟨layout, found, rfl⟩ := Option.map_eq_some_iff.mp slots
    exact layout.types_plain
  | _ => cases slots

theorem HasExtent.slots {ty : IrType} {e : Extent} (h : HasExtent L ty e) {fields : List IrType}
    (slots : ty.slots? L = some fields) : ∃ es, HaveExtents L fields es ∧ e = .together es := by
  have ofRecord {types : List IrType} {e : Extent} (h : HasExtent L (.record types) e) :
      ∃ es, HaveExtents L types es ∧ e = .together es := by
    cases h with
    | record each => exact ⟨_, each, rfl⟩
  cases h with
  | record each =>
    obtain rfl := Option.some.inj slots
    exact ⟨_, each, rfl⟩
  | struct found held =>
    rw [IrType.slots?, found] at slots
    obtain rfl := Option.some.inj slots
    exact ofRecord held
  | enum found _ _ _ held =>
    rw [IrType.slots?, found] at slots
    obtain rfl := Option.some.inj slots
    exact ofRecord held
  | _ => cases slots

theorem HasExtent.payload {name : String} {e : Extent} (h : HasExtent L (.enum name) e)
    {layout : EnumLayout} (found : L.enums.find? name = some layout) {v : VariantLayout}
    (member : v ∈ layout.variants.values) :
    ∃ es, HaveExtents L v.payload es ∧ Extent.endFrom 0 es ≤ layout.dataSize := by
  cases h with
  | @enum _ known _ cases ends found' variants haveEnds data _ =>
    obtain rfl := Option.some.inj (found'.symm.trans found)
    have listed : v ∈ cases.map Prod.snd := by
      rw [variants, Table.ofList] at member
      rcases Table.mem_values_foldl_insert member with listed | listed
      · exact listed
      · cases listed
    obtain ⟨es, each, isEnd⟩ := haveEnds.payload listed
    exact ⟨es, each, data ▸ le_foldl_max (.inr isEnd)⟩

theorem HasExtent.wellPlaced (plain : L.Plain) {ty : IrType} {e : Extent}
    (h : HasExtent L ty e) (widths : ty.isPlain = true) : WellPlaced L ty e where
  extent := h
  align := (h.regular plain widths).align
  size := (h.regular plain widths).size
  slots := by
    intro fields slots
    obtain ⟨es, each, rfl⟩ := h.slots slots
    exact ⟨es, each.forall₂, each.placed plain (IrType.slots_plain plain widths slots)⟩
  payloads := by
    rintro name layout rfl found v member
    obtain ⟨es, each, inside⟩ := h.payload found member
    have regular := each.regular plain (plain.payloads found v member)
    exact ⟨es, each.forall₂, (spans_placed regular 0).mono inside⟩

theorem HaveExtents.of_mem {types : List IrType} {es : List Extent} (h : HaveExtents L types es)
    {ty : IrType} (member : ty ∈ types) : ∃ e, HasExtent L ty e := by
  match h with
  | .nil => cases member
  | .cons first later =>
    rcases List.mem_cons.mp member with rfl | member
    · exact ⟨_, first⟩
    · exact later.of_mem member

theorem IrType.Holds.extent (plain : L.Plain) {ty part : IrType} (holds : ty.Holds L part)
    {e : Extent} (h : HasExtent L ty e) (widths : ty.isPlain = true) :
    part.isPlain = true ∧ ∃ e', HasExtent L part e' := by
  induction holds with
  | self => exact ⟨widths, e, h⟩
  | elem _ ih =>
    obtain ⟨plainArray, e', ofArray⟩ := ih
    cases ofArray with
    | array _ each => exact ⟨plainArray, _, each⟩
  | slot _ slots member ih =>
    obtain ⟨plainPart, e', ofPart⟩ := ih
    obtain ⟨es, each, -⟩ := ofPart.slots slots
    exact ⟨allPlain_iff.mp (slots_plain plain plainPart slots) _ member, each.of_mem member⟩
  | payload _ found variant member ih =>
    obtain ⟨-, e', ofEnum⟩ := ih
    obtain ⟨es, each, -⟩ := ofEnum.payload found variant
    exact ⟨allPlain_iff.mp (plain.payloads found _ variant) _ member, each.of_mem member⟩

end

/-- In every session that can be reached, the extent that is given for a resolved type is its
extent over the natural numbers, and the type and all that it holds are well placed. -/
theorem Gen.extent_sound {s₀ s₁ s s' : Session} {ty : TypeRef} {σ : Substitution} {ir : IrType}
    {e : Extent} (resolved : Gen.resolve ty σ s₀ = .ok ir s₁) (reached : s.Reached)
    (measured : Gen.extent ir s = .ok e s') :
    (∀ e', HasExtent s'.layouts ir e' ↔ e' = e) ∧ WellPlaced s'.layouts ir e ∧
      ∀ part, ir.Holds s'.layouts part → ∃ e', WellPlaced s'.layouts part e' := by
  have sound : s'.layouts.Sound :=
    ((Resolution.extent_keeps Later.lays.defined ir).of_ok measured).sound reached.sound
  have widths : ir.isPlain = true := Resolution.resolveWithin_plain resolved
  have extent : HasExtent s'.layouts ir e :=
    hasExtent_of_run (Resolution.namedExtent_keeps Later.lays.defined)
      (fun run grows => hasExtent_of_namedExtent run grows sound) ir measured .rfl
  refine ⟨fun e' => ⟨fun other => other.unique extent, ?_⟩, extent.wellPlaced sound.toPlain widths,
    fun part holds => ?_⟩
  · rintro rfl
    exact extent
  · obtain ⟨plainPart, e', ofPart⟩ := holds.extent sound.toPlain extent widths
    exact ⟨e', ofPart.wellPlaced sound.toPlain plainPart⟩

/-- A template with a parent, an enum with payloads, and a struct that holds both by value. -/
def sceneDecls : List Decl :=
  [.struct { name := "Base", fields := [⟨"id", .primitive .u16⟩] },
   .struct
    { name := "Pair"
      typeParams := ["T"]
      parent := some (.ofName "Base")
      fields := [⟨"first", .ofName "T"⟩, ⟨"second", .primitive .u8⟩] },
   .enum
    { name := "Shape"
      variants :=
        [{ name := "Empty" },
         { name := "Tagged", payload := some (.tuple [.primitive .i8, .primitive .f64]) }] },
   .struct
    { name := "Scene"
      fields :=
        [⟨"shapes", .array (.ofName "Shape") [3]⟩,
         ⟨"corner", .tuple [.primitive .bool, .named "Pair" [.primitive .i64] none]⟩] }]

def sceneSession : Session := sceneDecls.foldl Session.register (.ofOptions {})

def sceneTyped : Session := (Gen.resolve (.ofName "Scene") {}).after sceneSession

def sceneLaid : Session := (Gen.extent (.struct "Scene")).after sceneTyped

theorem sceneTyped_reached : sceneTyped.Reached :=
  .step (.resolve _ _) (.register _ (.register _ (.register _ (.register _ (.start _ _)))))

/-- The scene, with three shapes of 20 bytes, then at the next multiple of 8 a flag and a pair of 24
bytes, and last the liveness bit. -/
theorem Gen.extent_sound_scene :
    Gen.resolve (.ofName "Scene") {} sceneSession = .ok (.struct "Scene") sceneTyped ∧
      sceneTyped.Reached ∧ Gen.extent (.struct "Scene") sceneTyped = .ok ⟨104, 8⟩ sceneLaid ∧
      (∀ e, HasExtent sceneLaid.layouts (.struct "Scene") e ↔ e = ⟨104, 8⟩) ∧
      WellPlaced sceneLaid.layouts (.struct "Scene") ⟨104, 8⟩ ∧
      (∀ part, (IrType.struct "Scene").Holds sceneLaid.layouts part →
        ∃ e, WellPlaced sceneLaid.layouts part e) ∧
      ∃ es, List.Forall₂ (HasExtent sceneLaid.layouts)
        [.array 3 (.enum "Shape"), .record [.int 1, .struct "Pair_i64"], .int 1] es ∧
        es = [⟨60, 4⟩, ⟨32, 8⟩, ⟨1, 1⟩] ∧ (spans 0 es).map Span.start = [0, 64, 96] := by
  have resolved : Gen.resolve (.ofName "Scene") {} sceneSession = .ok (.struct "Scene") sceneTyped :=
    Gen.ok_of_run' (by decide +kernel)
  have measured : Gen.extent (.struct "Scene") sceneTyped = .ok ⟨104, 8⟩ sceneLaid :=
    Gen.ok_of_run' (by decide +kernel)
  obtain ⟨only, placed, parts⟩ := Gen.extent_sound resolved sceneTyped_reached measured
  have slots : (IrType.struct "Scene").slots? sceneLaid.layouts =
      some [.array 3 (.enum "Shape"), .record [.int 1, .struct "Pair_i64"], .int 1] := by
    decide +kernel
  obtain ⟨es, each, -⟩ := placed.slots _ slots
  -- what is measured for a part afterwards is what it takes in the scene
  have part (ty : TypeRef) {ir : IrType} {e : Extent} (e' : Extent)
      (here : HasExtent sceneLaid.layouts ir e)
      (resolves : (Gen.resolve ty {}).run' sceneSession = some ir)
      (measures : (Gen.extent ir).run' sceneLaid = some e') : e = e' := by
    have ran := Gen.ok_of_run' measures
    have laid : sceneLaid.Reached := .step (.extent _) sceneTyped_reached
    have later := (Resolution.extent_keeps Later.lays.defined ir).of_ok ran
    exact ((Gen.extent_sound (Gen.ok_of_run' resolves) laid ran).1 e).mp (here.grown later.grows)
  refine ⟨resolved, sceneTyped_reached, measured, only, placed, parts, es, each, ?_⟩
  cases each with
  | cons shapes each =>
  cases each with
  | cons corner each =>
  cases each with
  | cons bit each =>
  cases each
  obtain rfl := part (.array (.ofName "Shape") [3]) ⟨60, 4⟩ shapes
    (by decide +kernel) (by decide +kernel)
  obtain rfl := part (.tuple [.primitive .bool, .named "Pair" [.primitive .i64] none]) ⟨32, 8⟩ corner
    (by decide +kernel) (by decide +kernel)
  obtain rfl := part (.primitive .bool) ⟨1, 1⟩ bit (by decide +kernel) (by decide +kernel)
  decide

end Backend
