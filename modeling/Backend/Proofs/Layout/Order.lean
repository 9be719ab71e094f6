import Mathlib.Order.WellFounded
import Backend.Proofs.Layout.Laid
import Backend.Proofs.Resolution.Requests

/-!
The order of type definitions. A type is defined behind all that it holds by value, and only once.
Main statement: `Session.Asked.embedding_wellFounded`, no type holds itself by value, in every
session that is asked about types.
-/

namespace Backend

open Gen (Moves Keeps)
open Session (Later Course)

def TypeDef.key : TypeDef → DeclKind × String
  | .struct name _ => (.struct, name)
  | .enum name _ => (.enum, name)

namespace Layouts

def definition? (L : Layouts) : DeclKind × String → Option TypeDef
  | (.struct, name) => (L.structs.find? name).map StructLayout.definition
  | (.enum, name) => (L.enums.find? name).map EnumLayout.definition

/-- A slot of a struct or a payload of an enum holds another struct or enum by value. -/
inductive Embeds (L : Layouts) : DeclKind × String → DeclKind × String → Prop where
  | slot {name : String} {layout : StructLayout} {ty : IrType} {part : DeclKind × String}
    (found : L.structs.find? name = some layout) (member : ty ∈ layout.types)
    (embedded : part ∈ ty.embedded) : Embeds L (.struct, name) part
  | payload {name : String} {layout : EnumLayout} {v : VariantLayout} {ty : IrType}
    {part : DeclKind × String} (found : L.enums.find? name = some layout)
    (variant : v ∈ layout.variants.values) (member : ty ∈ v.payload)
    (embedded : part ∈ ty.embedded) : Embeds L (.enum, name) part

/-- The lines define what is laid out, each type once and behind what it holds. -/
structure Ordered (L : Layouts) (defs : List TypeDef) : Prop where
  once : (defs.map TypeDef.key).Nodup
  defined : ∀ {p d}, L.definition? p = some d ↔ d ∈ defs ∧ d.key = p
  earlier : ∀ {before d after part}, defs = before ++ d :: after → L.Embeds d.key part →
    part ∈ before.map TypeDef.key

theorem contains_eq_isSome (L : Layouts) (p : DeclKind × String) :
    L.contains p.1 p.2 = (L.definition? p).isSome := by
  obtain ⟨kind, name⟩ := p
  cases kind <;> simp [contains, definition?, Table.contains]

theorem Embeds.definition? {L : Layouts} {owner part : DeclKind × String}
    (h : L.Embeds owner part) : ∃ d, L.definition? owner = some d := by
  cases h with
  | slot found => exact ⟨_, Option.map_eq_some_iff.mpr ⟨_, found, rfl⟩⟩
  | payload found => exact ⟨_, Option.map_eq_some_iff.mpr ⟨_, found, rfl⟩⟩

namespace Ordered

variable {L : Layouts} {defs : List TypeDef}

theorem contains_iff (h : L.Ordered defs) {p : DeclKind × String} :
    L.contains p.1 p.2 = true ↔ p ∈ defs.map TypeDef.key := by
  rw [contains_eq_isSome, Option.isSome_iff_exists, List.mem_map]
  exact exists_congr fun d => h.defined

theorem lines (h : L.Ordered defs) {owner part : DeclKind × String} (embeds : L.Embeds owner part) :
    ∃ before e between d after, defs = before ++ e :: between ++ d :: after ∧
      L.definition? owner = some d ∧ L.definition? part = some e := by
  obtain ⟨d, found⟩ := embeds.definition?
  obtain ⟨listed, rfl⟩ := h.defined.mp found
  obtain ⟨earlier, after, rfl⟩ := List.append_of_mem listed
  obtain ⟨e, member, rfl⟩ := List.mem_map.mp (h.earlier rfl embeds)
  obtain ⟨before, between, rfl⟩ := List.append_of_mem member
  refine ⟨before, e, between, d, after, rfl, found, h.defined.mpr ⟨?_, rfl⟩⟩
  simp

theorem embedded_contains (h : L.Ordered defs) {owner part : DeclKind × String}
    (embeds : L.Embeds owner part) : L.contains part.1 part.2 = true := by
  obtain ⟨_, e, _, _, _, -, -, found⟩ := h.lines embeds
  rw [contains_eq_isSome, found]
  rfl

theorem idxOf_lt (h : L.Ordered defs) {owner part : DeclKind × String}
    (embeds : L.Embeds owner part) :
    (defs.map TypeDef.key).idxOf part < (defs.map TypeDef.key).idxOf owner := by
  obtain ⟨d, found⟩ := embeds.definition?
  obtain ⟨listed, rfl⟩ := h.defined.mp found
  obtain ⟨before, after, rfl⟩ := List.append_of_mem listed
  have member := h.earlier rfl embeds
  have once := h.once
  rw [List.map_append, List.map_cons] at once ⊢
  have notBefore : d.key ∉ before.map TypeDef.key := fun also =>
    (List.nodup_append.mp once).2.2 _ also _ List.mem_cons_self rfl
  rw [List.idxOf_append_of_mem member, List.idxOf_append_of_notMem notBefore,
    List.idxOf_cons_self, Nat.add_zero]
  exact List.idxOf_lt_length_iff.mpr member

theorem wellFounded (h : L.Ordered defs) : WellFounded fun part owner => L.Embeds owner part :=
  Subrelation.wf (fun embeds => h.idxOf_lt embeds)
    (InvImage.wf (defs.map TypeDef.key).idxOf Nat.lt_wfRel.wf)

theorem push (h : L.Ordered defs) {L' : Layouts} {d : TypeDef}
    (absent : L.definition? d.key = none)
    (definition : ∀ p, L'.definition? p = if d.key = p then some d else L.definition? p)
    (others : ∀ {owner part}, d.key ≠ owner → L'.Embeds owner part → L.Embeds owner part)
    (own : ∀ {part}, L'.Embeds d.key part → L.contains part.1 part.2 = true) :
    L'.Ordered (defs ++ [d]) := by
  have new : d.key ∉ defs.map TypeDef.key := by
    rw [← h.contains_iff, contains_eq_isSome, absent]
    exact Bool.false_ne_true
  refine ⟨?_, fun {p e} => ?_, fun {before e after part} split embeds => ?_⟩
  · rw [List.map_append, List.map_singleton]
    exact List.nodup_append.mpr ⟨h.once, List.pairwise_singleton _ _, by
      rintro k member _ single rfl
      exact new (List.mem_singleton.mp single ▸ member)⟩
  · rw [definition, List.mem_append, List.mem_singleton]
    by_cases same : d.key = p
    · subst same
      rw [if_pos rfl, Option.some.injEq]
      refine ⟨fun eq => ⟨.inr eq.symm, congrArg _ eq.symm⟩, ?_⟩
      rintro ⟨old | rfl, key⟩
      · exact (new (List.mem_map.mpr ⟨e, old, key⟩)).elim
      · rfl
    · rw [if_neg same, h.defined]
      refine ⟨fun ⟨old, key⟩ => ⟨.inl old, key⟩, ?_⟩
      rintro ⟨old | rfl, key⟩
      · exact ⟨old, key⟩
      · exact (same key).elim
  · rcases List.eq_nil_or_concat after with rfl | ⟨after, last, rfl⟩
    · obtain ⟨rfl, single⟩ := List.append_inj' split rfl
      obtain rfl := List.singleton_inj.mp single
      exact h.contains_iff.mp (own embeds)
    · rw [List.concat_eq_append, ← List.cons_append, ← List.append_assoc] at split
      obtain ⟨rfl, -⟩ := List.append_inj' split rfl
      refine h.earlier rfl (others (fun same => new ?_) embeds)
      rw [same]
      simp

end Ordered

end Layouts

/-! ### Sessions -/

def Session.KeepsOrder (s s' : Session) : Prop :=
  s.layouts.Ordered s.output.typeDefs → s'.layouts.Ordered s'.output.typeDefs

namespace Session.KeepsOrder

instance : IsPreorder Session KeepsOrder where
  refl _ := id
  trans _ _ _ h h' ordered := h' (h ordered)

theorem of_same {s s' : Session} (structs : s'.layouts.structs = s.layouts.structs)
    (enums : s'.layouts.enums = s.layouts.enums)
    (typeDefs : s'.output.typeDefs = s.output.typeDefs) : s.KeepsOrder s' := by
  intro h
  rw [typeDefs]
  have embedsBefore {owner part : DeclKind × String} (embeds : s'.layouts.Embeds owner part) :
      s.layouts.Embeds owner part := by
    cases embeds with
    | slot found member embedded => exact .slot (structs ▸ found) member embedded
    | payload found variant member embedded =>
      exact .payload (enums ▸ found) variant member embedded
  refine ⟨h.once, fun {p d} => ?_, fun split embeds => h.earlier split (embedsBefore embeds)⟩
  rw [← h.defined]
  obtain ⟨kind, name⟩ := p
  cases kind <;> simp only [Layouts.definition?, structs, enums]

theorem tell (call : DebugCall) : Moves KeepsOrder (Gen.tell call) :=
  .tell (fun _ _ => of_same rfl rfl rfl) call

theorem addForward (s : Session) (name : String) :
    s.KeepsOrder { s with output := s.output.addForward name } := by
  refine of_same rfl rfl ?_
  show (s.output.addForward name).typeDefs = _
  unfold Output.addForward
  split <;> rfl

theorem addStruct {s : Session} {layout : StructLayout}
    (absent : s.layouts.structs.find? layout.name = none)
    (laid : s.layouts.Ordered s.output.typeDefs →
      ∀ p ∈ allEmbedded layout.types, s.layouts.contains p.1 p.2 = true) :
    s.KeepsOrder (s.withStruct layout) := by
  intro h
  refine h.push ?_ (fun p => ?_) (fun {owner part} other embeds => ?_) fun {part} embeds => ?_
  · show (s.layouts.structs.find? layout.name).map _ = none
    rw [absent, Option.map_none]
  · obtain ⟨kind, name⟩ := p
    cases kind with
    | struct =>
      by_cases same : layout.name = name <;>
        simp [Layouts.definition?, withStruct, StructLayout.definition, TypeDef.key, same]
    | enum => simp [Layouts.definition?, withStruct, StructLayout.definition, TypeDef.key]
  · cases embeds with
    | @slot name _ _ _ found member embedded =>
      have different : layout.name ≠ name := fun same => other (same ▸ rfl)
      rw [withStruct, Table.find?_insert, if_neg different] at found
      exact .slot found member embedded
    | payload found variant member embedded => exact .payload found variant member embedded
  · generalize owned : layout.definition.key = owner at embeds
    cases embeds with
    | slot found member embedded =>
      obtain rfl := (Prod.mk.inj owned).2
      rw [withStruct, Table.find?_insert, if_pos rfl] at found
      obtain rfl := Option.some.inj found
      exact laid h part (mem_allEmbedded.mpr ⟨_, member, embedded⟩)
    | payload => cases owned

theorem addEnum {s : Session} {layout : EnumLayout}
    (absent : s.layouts.enums.find? layout.name = none)
    (laid : ∀ v ∈ layout.variants.values, ∀ p ∈ allEmbedded v.payload,
      s.layouts.contains p.1 p.2 = true) :
    s.KeepsOrder (s.withEnum layout) := by
  intro h
  refine h.push ?_ (fun p => ?_) (fun {owner part} other embeds => ?_) fun {part} embeds => ?_
  · show (s.layouts.enums.find? layout.name).map _ = none
    rw [absent, Option.map_none]
  · obtain ⟨kind, name⟩ := p
    cases kind with
    | struct => simp [Layouts.definition?, withEnum, EnumLayout.definition, TypeDef.key]
    | enum =>
      by_cases same : layout.name = name <;>
        simp [Layouts.definition?, withEnum, EnumLayout.definition, TypeDef.key, same]
  · cases embeds with
    | slot found member embedded => exact .slot found member embedded
    | @payload name _ _ _ _ found variant member embedded =>
      have different : layout.name ≠ name := fun same => other (same ▸ rfl)
      rw [withEnum, Table.find?_insert, if_neg different] at found
      exact .payload found variant member embedded
  · generalize owned : layout.definition.key = owner at embeds
    cases embeds with
    | slot => cases owned
    | payload found variant member embedded =>
      obtain rfl := (Prod.mk.inj owned).2
      rw [withEnum, Table.find?_insert, if_pos rfl] at found
      obtain rfl := Option.some.inj found
      exact laid _ variant part (mem_allEmbedded.mpr ⟨_, member, embedded⟩)

open Resolution in
theorem lays : Session.Lays (.always KeepsOrder) where
  forward := addForward
  request := fun _ => .of_ok (Gen.requestBody_run ..) (of_same rfl rfl rfl)
  nest := fun h ordered => h ordered
  nestHalts := fun h ordered => h ordered
  mark := fun _ h ordered => h ordered
  markHalts := fun _ h ordered => h ordered
  slots := fun {_ _ _ s₁ name _ _} _ _ _ h =>
    have cached (slots : List String) : s₁.KeepsOrder (s₁.withSlots name slots) := of_same rfl rfl rfl
    trans_of KeepsOrder h (cached _)
  struct := by
    intro levels budget s s₁ name decl fields level absent _ _ run h
    obtain ⟨-, same, -, s₂, s₃, ran, layouts⟩ :=
      whileDefining_ok ((Later.level levels budget).structFields name decl) run
    refine level.finishes
      ((describeStruct_keeps level.define tell (fun _ _ _ => of_same rfl rfl rfl) _ _ _).from
        (trans_of KeepsOrder h (addStruct (same.trans absent) fun ordered => ?_)))
      fun _ _ h h' ordered => of_same rfl rfl rfl (h' (h ordered))
    rw [layouts] at ordered ⊢
    refine structFields_laid (defineWithin_delivers levels budget) ran fun found p member => ?_
    obtain ⟨ty, isSlot, embedded⟩ := mem_allEmbedded.mp member
    exact ordered.embedded_contains (.slot found isSlot embedded)
  enum := by
    intro levels budget s s₁ name decl variants dataSize _ absent _ _ run h
    obtain ⟨-, -, same, s₂, s₃, ran, layouts⟩ :=
      whileDefining_ok ((Later.level levels budget).variantLayouts decl.variants) run
    refine trans_of KeepsOrder h (addEnum (same.trans absent) ?_)
    rw [layouts]
    exact variantLayouts_laid (defineWithin_delivers levels budget) ran fun _ none => nomatch none
  make := fun _ _ _ h ordered => h ordered
  makeHalts := fun _ h ordered => h ordered
  begin := fun _ => of_same rfl rfl rfl

end Session.KeepsOrder

theorem Session.Asked.ordered {s : Session} (h : s.Asked) :
    s.layouts.Ordered s.output.typeDefs := by
  obtain ⟨options, collector, keeps⟩ :=
    Session.Asked.induct KeepsOrder.lays (fun _ _ => .of_same rfl rfl rfl) h
  refine keeps ⟨List.nodup_nil, fun {p d} => ⟨fun found => ?_, fun none => nomatch none.1⟩, ?_⟩
  · obtain ⟨kind, name⟩ := p
    cases kind <;> cases found
  · intro before d after part split
    cases before <;> cases split

/-- In every session that is asked about types, whatever a type holds by value is laid out and
defined by an earlier line, no type is defined twice, and so none holds itself. -/
theorem Session.Asked.embedding_wellFounded {s : Session} (h : s.Asked) :
    (s.output.typeDefs.map TypeDef.key).Nodup ∧
      (∀ owner part, s.layouts.Embeds owner part →
        ∃ before e between d after,
          s.output.typeDefs = before ++ e :: between ++ d :: after ∧
          s.layouts.definition? owner = some d ∧ d.key = owner ∧
          s.layouts.definition? part = some e ∧ e.key = part) ∧
      (WellFounded fun part owner => s.layouts.Embeds owner part) ∧
      ∀ p, ¬ Relation.TransGen s.layouts.Embeds p p := by
  have ordered := h.ordered
  refine ⟨ordered.once, fun owner part embeds => ?_, ordered.wellFounded, fun p cycle => ?_⟩
  · obtain ⟨before, e, between, d, after, lines, isOwner, isPart⟩ := ordered.lines embeds
    exact ⟨before, e, between, d, after, lines, isOwner, (ordered.defined.mp isOwner).2, isPart,
      (ordered.defined.mp isPart).2⟩
  · exact ordered.wellFounded.transGen.irrefl.irrefl p (Relation.transGen_swap.mpr cycle)

/-- A struct that holds its parent twice and an enum with a payload, and one that holds itself. -/
def nestedDecls : List Decl :=
  [.struct
    { name := "Outer"
      parent := some (.ofName "Inner")
      fields :=
        [⟨"items", .array (.ofName "Inner") [2]⟩,
         ⟨"pick", .tuple [.primitive .i8, .ofName "Choice"]⟩] },
   .enum { name := "Choice", variants := [{ name := "Some", payload := some (.tuple [.ofName "Inner"]) }] },
   .struct { name := "Inner", fields := [⟨"x", .primitive .i32⟩] },
   .struct { name := "Loop", fields := [⟨"pick", .ofName "Choice"⟩, ⟨"self", .ofName "Loop"⟩] }]

def nestedSession : Session :=
  (Gen.structLayout "Outer").after
    ((Gen.structLayout "Loop").after (nestedDecls.foldl Session.register (.ofOptions {})))

theorem Session.Asked.embedding_wellFounded_nested :
    nestedSession.Asked ∧
      nestedSession.output.typeDefs.map TypeDef.key =
        [(.struct, "Inner"), (.enum, "Choice"), (.struct, "Outer")] ∧
      ∀ p, ¬ Relation.TransGen nestedSession.layouts.Embeds p p := by
  have asked : nestedSession.Asked :=
    .step (.structLayout _) (.step (.structLayout _)
      (.register _ (.register _ (.register _ (.register _ (.start _ _))))))
  exact ⟨asked, by decide +kernel, asked.embedding_wellFounded.2.2.2⟩

end Backend
