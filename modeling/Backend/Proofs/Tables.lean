import Backend.Proofs.Dispatch
import Backend.Proofs.Layout.Inherit

/-!
Dispatch tables are complete. A struct gets its table right after its layout, and as long as nobody
listens to descriptions no failure between the two is passed over. Main statement:
`Session.Smooth.tables`, a struct with slots that is laid out has one table, with an entry for each
of its slots.
-/

namespace Backend

open Gen (Keeps KeepsFrom)
open Session (Onward Later)

namespace Session

open Resolution

variable {D : Declarations} {s s' : Session} {name : String}

/-- The number of dispatch tables of a struct. -/
def tablesOf (s : Session) (name : String) : Nat :=
  s.output.dispatchTables.countP fun t => t.owner = name

/-- The number of dispatch tables that a struct should have. -/
def tablesDue (s : Session) (name : String) : Nat :=
  if s.layouts.structs.contains name = true ∧ s.layouts.dispatch.find? name ≠ some [] then 1 else 0

/-- No struct declares a field with the name of the dispatch pointer. -/
def Undispatched (s : Session) : Prop :=
  ∀ name d, s.decls.structs.find? name = some d → dispatchField ∉ d.fields.map Field.name

/-- A struct has these slots, and if it has none then it has no dispatch pointer either. -/
structure HasSlots (s : Session) (layout : StructLayout) (name : String) (slots : List String) :
    Prop where
  cached : s.layouts.dispatch.find? name = some slots
  pointer : slots = [] → s.Undispatched → dispatchField ∉ layout.fields.map Prod.fst

/-- Nobody listens, and a struct that is laid out has found its slots. -/
structure Tidy (s : Session) : Prop where
  quiet : s.activeCollector? = none
  slotted : ∀ name layout, s.layouts.structs.find? name = some layout →
    ∃ slots, s.HasSlots layout name slots

theorem HasSlots.later {layout : StructLayout} {slots : List String}
    (h : s.HasSlots layout name slots) (settles : s.decls.Settles s'.decls)
    (keeps : s.KeepsSlots s') : s'.HasSlots layout name slots where
  cached := keeps _ _ h.cached
  pointer empty free := h.pointer empty fun n d found => free n d (settles.struct found)

theorem Tidy.later (tidy : s.Tidy) (settles : s.decls.Settles s'.decls)
    (layouts : s'.layouts = s.layouts) (quiet : s'.activeCollector? = s.activeCollector?) :
    s'.Tidy := by
  refine ⟨quiet.trans tidy.quiet, fun name layout laid => ?_⟩
  obtain ⟨slots, has⟩ := tidy.slotted name layout (layouts ▸ laid)
  exact ⟨slots, has.later settles fun _ _ => layouts ▸ id⟩

/-- No more and no fewer tables are added than become due. -/
def Balanced (s s' : Session) : Prop :=
  ∀ name, s'.tablesOf name + s.tablesDue name = s.tablesOf name + s'.tablesDue name

theorem Balanced.trans {s'' : Session} (h : s.Balanced s') (h' : s'.Balanced s'') :
    s.Balanced s'' := by
  intro name
  have first := h name
  have second := h' name
  omega

/-- Success leaves the session tidy and balanced, as long as names do not clash. -/
structure Tabling (D : Declarations) (s s' : Session) : Prop where
  upholds : Upholds D Coherent KeepsSlots s s'
  quiet : s.activeCollector? = none → s'.activeCollector? = none
  tables : s'.Separate D → s.RestsOn D → s.Coherent → s.Tidy → s'.Tidy ∧ s.Balanced s'

def tabling (D : Declarations) : Session.Course := ⟨Tabling D, fun _ _ _ => True⟩

namespace Tabling

theorem trans {s'' : Session} (h : Tabling D s s') (h' : Tabling D s' s'') : Tabling D s s'' where
  upholds := have := Coherent.upheld.isPreorder (D := D)
    trans_of (Upholds D Coherent KeepsSlots) h.upholds h'.upholds
  quiet := h'.quiet ∘ h.quiet
  tables separate rests coherent tidy := by
    have separate' := h'.upholds.onward.separate separate
    have rests' := (h.upholds.onward.settles separate' rests).1
    have coherent' := (h.upholds.kept separate' rests coherent).1
    obtain ⟨tidy', balanced⟩ := h.tables separate' rests coherent tidy
    obtain ⟨tidy'', balanced'⟩ := h'.tables separate rests' coherent' tidy'
    exact ⟨tidy'', balanced.trans balanced'⟩

theorem still (onward : Onward D s s') (layouts : s'.layouts = s.layouts)
    (tables : s'.output.dispatchTables = s.output.dispatchTables)
    (quiet : s'.activeCollector? = s.activeCollector?) : Tabling D s s' where
  upholds := Coherent.upheld.onward onward layouts tables
  quiet := quiet.trans
  tables separate rests _ tidy := by
    refine ⟨tidy.later (onward.settles separate rests).2 layouts quiet, fun name => ?_⟩
    rw [tablesOf, tablesOf, tablesDue, tablesDue, layouts, tables]

theorem of_same (same : s.SameTypes s') (quiet : s'.activeCollector? = s.activeCollector?) :
    Tabling D s s' :=
  still (.of_same same.decls same.instances) same.layouts same.dispatchTables quiet

instance : (tabling D).Lawful where
  refl _ := of_same ⟨rfl, rfl, rfl, rfl⟩ rfl
  trans := trans
  stop _ _ := trivial
  after _ _ := trivial

theorem around {s₀ s₀' : Session} (h : Tabling D s₀ s₀') (before : s.SameTypes s₀)
    (quiet : s₀.activeCollector? = s.activeCollector?) (after : s₀'.SameTypes s')
    (quiet' : s'.activeCollector? = s₀'.activeCollector?) : Tabling D s s' :=
  ((of_same before quiet).trans h).trans (of_same after quiet')

end Tabling

theorem tablesDue_eq (tidy : s.Tidy) (structs : s'.layouts.structs = s.layouts.structs)
    (keeps : s.KeepsSlots s') (name : String) : s'.tablesDue name = s.tablesDue name := by
  unfold tablesDue
  rw [structs]
  by_cases laid : s.layouts.structs.contains name = true
  · obtain ⟨layout, found⟩ := Option.isSome_iff_exists.mp laid
    obtain ⟨slots, has⟩ := tidy.slotted name layout found
    rw [has.cached, keeps _ _ has.cached]
  · rw [if_neg fun h => laid h.1, if_neg fun h => laid h.1]

/-- More slots are found. -/
theorem Tidy.moreSlots (tidy : s.Tidy) (keeps : s.KeepsSlots s') (decls : s'.decls = s.decls)
    (structs : s'.layouts.structs = s.layouts.structs)
    (tables : s'.output.dispatchTables = s.output.dispatchTables)
    (quiet : s'.activeCollector? = s.activeCollector?) : s'.Tidy ∧ s.Balanced s' := by
  refine ⟨⟨quiet.trans tidy.quiet, fun name layout laid => ?_⟩, fun name => ?_⟩
  · obtain ⟨slots, has⟩ := tidy.slotted name layout (structs ▸ laid)
    exact ⟨slots, has.later (decls ▸ .refl) keeps⟩
  · rw [tablesDue_eq tidy structs keeps, tablesOf, tablesOf, tables]

theorem Tabling.slots {levels n : Nat} {s₁ : Session} {decl : StructDecl}
    {inherited : List String} (absent : s.layouts.dispatch.find? name = none)
    (found : s.decls.structs.find? name = some decl)
    (run : inheritedSlots (resolveWithin levels) (dispatchLayoutWithin (resolveWithin levels) n)
      decl.parent s = .ok inherited s₁) (h : Tabling D s s₁) :
    Tabling D s (s₁.withSlots name (dispatchSlots inherited decl.methods)) where
  upholds := Coherent.upheld.lays.slots absent found run h.upholds
  quiet := h.quiet
  tables separate rests coherent tidy := by
    obtain ⟨tidy₁, balanced₁⟩ := h.tables separate rests coherent tidy
    have coherent₁ := (h.upholds.kept separate rests coherent).1
    have found₁ := (h.upholds.onward.settles separate rests).2.struct found
    have slotted := inheritedSlots_slotted run separate rests coherent₁ found₁
    have keeps := (coherent₁.withSlots slotted).2
    obtain ⟨tidy', balanced'⟩ := tidy₁.moreSlots keeps rfl rfl rfl rfl
    exact ⟨tidy', balanced₁.trans balanced'⟩

/-! ### Structs -/

theorem mem_names_of_slot {l : StructLayout} {field : String} (h : field ∈ l.slots.keys) :
    field ∈ l.fields.map Prod.fst := by
  have inserted {es : List (String × Nat)} {t : Table Nat}
      (h : field ∈ (es.foldl (fun t e => t.insert e.1 e.2) t).keys) :
      field ∈ t.keys ∨ field ∈ es.map Prod.fst := by
    induction es generalizing t with
    | nil => exact .inl h
    | cons e rest ih =>
      rcases ih h with known | later
      · rw [Table.keys_insert] at known
        split at known
        · exact .inl known
        · refine (List.mem_append.mp known).imp_right fun new => ?_
          rw [List.mem_singleton.mp new]
          exact List.mem_cons_self
      · exact .inr (List.mem_cons_of_mem _ later)
  rcases inserted h with none | listed
  · cases none
  · obtain ⟨_, entry, rfl⟩ := List.mem_map.mp listed
    obtain ⟨⟨f, i⟩, known, rfl⟩ := List.mem_map.mp entry
    exact List.mem_map_of_mem (List.fst_mem_of_mem_zipIdx known)

theorem mem_names_of_inherited {l : StructLayout} {field : String}
    (h : field ∈ l.inherited.map Prod.fst) : field ∈ l.fields.map Prod.fst := by
  obtain ⟨f, member, rfl⟩ := List.mem_map.mp h
  exact mem_names_of_slot (List.of_mem_zip (List.mem_filter.mp member).1).1

theorem mem_names_of_dispatchSlot? {l : StructLayout} (h : l.dispatchSlot?.isSome) :
    dispatchField ∈ l.fields.map Prod.fst := by
  obtain ⟨slot, found⟩ := Option.isSome_iff_exists.mp h
  exact mem_names_of_slot (List.mem_map.mpr ⟨_, Table.mem_of_lookup found, rfl⟩)

theorem eq_nil_of_dispatchSlots {inherited : List String} {methods : List FunctionDecl}
    (h : dispatchSlots inherited methods = []) : inherited = [] :=
  List.prefix_nil.mp (h ▸ dispatchSlots_extends inherited methods)

/-- A struct without slots inherits from one without slots. -/
theorem inheritedFields_slots {levels budget : Nat} {s₁ : Session} {decl : StructDecl}
    {inherited : List (String × IrType)} {field : String}
    (run : inheritedFields (resolveWithin levels) (definerAt levels budget) decl.parent s =
      .ok inherited s₁) (after : Onward D s₁ s') (grows : s₁.Later s') (separate : s'.Separate D)
    (rests : s.RestsOn D) (coherent : s'.Coherent) (found : s'.decls.structs.find? name = some decl)
    {slots : List String} (cached : s'.layouts.dispatch.find? name = some slots) (empty : slots = [])
    (above : field ∈ inherited.map Prod.fst) :
    ∃ parent base, s'.layouts.structs.find? parent = some base ∧
      s'.layouts.dispatch.find? parent = some [] ∧ field ∈ base.fields.map Prod.fst := by
  cases isParent : decl.parent with
  | none =>
    rw [isParent] at run
    obtain ⟨rfl, -⟩ := Gen.pure_ok run
    cases above
  | some ty =>
    rw [isParent] at run
    obtain ⟨parent, s₂, named, rest⟩ := Gen.bind_ok run
    obtain ⟨base, s₃, laid, done⟩ := Gen.bind_ok rest
    obtain ⟨rfl, rfl⟩ := Gen.pure_ok done
    have := Coherent.upheld.isPreorder (D := D)
    have level : Level (.always (Upholds D Coherent KeepsSlots)) levels budget :=
      Coherent.upheld.lays.level levels budget
    have naming : Upholds D Coherent KeepsSlots s s₂ :=
      (structName_keeps level.resolve ty {}).of_ok named
    have laying : Upholds D Coherent KeepsSlots s₂ s₁ :=
      (structLayout_keeps level.define parent).of_ok laid
    have onward : Onward D s₂ s' := trans_of _ laying.onward after
    have separate₂ := onward.separate separate
    have rests₂ := (naming.onward.settles separate₂ rests).1
    have stands := (structName_stands rests separate₂ named).settled
      (onward.settles separate rests₂).2
    refine ⟨parent, base, grows.grows.structs (structLayout_ok laid), ?_,
      mem_names_of_inherited above⟩
    cases coherent.slots _ _ cached with
    | root found' isRoot =>
      cases found.symm.trans found'
      cases isRoot.symm.trans isParent
    | child found' isParent' stands' cached' =>
      cases found.symm.trans found'
      cases isParent.symm.trans isParent'
      cases (stands.unique stands').2
      rw [cached', eq_nil_of_dispatchSlots empty]

/-- A struct has found its slots before it is laid out. The dispatch pointer is inherited, declared,
or there because of the slots. -/
theorem structFields_slots {levels budget : Nat} {decl : StructDecl}
    {fields : List (String × IrType)}
    (run : structFields (resolveWithin levels) (definerAt levels budget) name decl s = .ok fields s')
    (separate : s'.Separate D) (rests : s.RestsOn D) (coherent : s.Coherent)
    (found : s'.decls.structs.find? name = some decl) :
    ∃ slots, s'.layouts.dispatch.find? name = some slots ∧
      (slots = [] → dispatchField ∈ fields.map Prod.fst →
        dispatchField ∈ decl.fields.map Field.name ∨ ∃ parent base,
          s'.layouts.structs.find? parent = some base ∧
          s'.layouts.dispatch.find? parent = some [] ∧ dispatchField ∈ base.fields.map Prod.fst) := by
  obtain ⟨inherited, s₁, ran₁, rest₁⟩ := Gen.bind_ok run
  obtain ⟨slots, s₂, ran₂, rest₂⟩ := Gen.bind_ok rest₁
  obtain ⟨own, s₃, ran₃, done⟩ := Gen.bind_ok rest₂
  obtain ⟨rfl, rfl⟩ := Gen.pure_ok done
  have := Coherent.upheld.isPreorder (D := D)
  have level : Level (.always (Upholds D Coherent KeepsSlots)) levels budget :=
    Coherent.upheld.lays.level levels budget
  have first : Upholds D Coherent KeepsSlots s s₁ :=
    (inheritedFields_keeps level.resolve level.define _).of_ok ran₁
  have second : Upholds D Coherent KeepsSlots s₁ s₂ := (level.slots name).of_ok ran₂
  have third : Upholds D Coherent KeepsSlots s₂ s' := (level.ownFields name _).of_ok ran₃
  have before : Upholds D Coherent KeepsSlots s s₂ := trans_of _ first second
  have separate₂ := third.onward.separate separate
  obtain ⟨coherent₂, -⟩ := before.kept separate₂ rests coherent
  have rests₂ := (before.onward.settles separate₂ rests).1
  obtain ⟨coherent', keeps⟩ := third.kept separate rests₂ coherent₂
  have cached := keeps _ _ (dispatchLayout_ok ran₂)
  refine ⟨slots, cached, fun empty member => ?_⟩
  simp only [empty, List.isEmpty_nil, Bool.not_true, Bool.false_and, Bool.false_eq_true, if_false,
    List.append_nil, List.map_append, ownFields_names ran₃, List.mem_append] at member
  rcases member with (above | mine) | last
  · have later := Later.level levels budget
    have grows : s₁.Later s' :=
      ((later.slots name).of_ok ran₂).trans ((later.ownFields name _).of_ok ran₃)
    exact .inr (inheritedFields_slots ran₁ (trans_of _ second.onward third.onward) grows separate
      rests coherent' found cached empty above)
  · exact .inl mine
  · exact absurd (List.mem_singleton.mp last) (by decide)

theorem describeStruct_quiet {define : Definer} {fields : List (String × IrType)}
    {location : Location} (quiet : s.activeCollector? = none) :
    describeStruct define name fields location s = .ok () s := by
  rw [describeStruct, Gen.get_bind, quiet]
  rfl

/-- What finishing a struct adds: a table, if there are slots. -/
theorem finishStruct_ok {levels budget : Nat} (level : Level (tabling D) levels budget)
    {fields : List (String × IrType)} {location : Location} (quiet : s.activeCollector? = none)
    (run : finishStruct (resolveWithin levels) (definerAt levels budget) name fields location s =
      .ok () s') : ∃ slots s₁, Tabling D s s₁ ∧ s₁.layouts.dispatch.find? name = some slots ∧
      (slots = [] ∧ s' = s₁ ∨ slots ≠ [] ∧ ∃ s₂ entries, Tabling D s₁ s₂ ∧
        s' = { s₂ with output := s₂.output.addDispatchTable { owner := name, entries } }) := by
  obtain ⟨_, s₁, described, rest₁⟩ := Gen.bind_ok run
  cases (describeStruct_quiet quiet).symm.trans described
  obtain ⟨slots, s₂, asked, rest₂⟩ := Gen.bind_ok rest₁
  have first : Tabling D s s₂ := (level.slots name).goes asked
  refine ⟨slots, s₂, first, dispatchLayout_ok asked, ?_⟩
  split at rest₂
  case isTrue empty =>
    cases rest₂
    exact .inl ⟨List.isEmpty_iff.mp empty, rfl⟩
  case isFalse filled =>
    rw [emitDispatchTable_eq] at rest₂
    obtain ⟨slots', s₃, asked', rest₃⟩ := Gen.bind_ok rest₂
    obtain ⟨entries, s₄, entered, added⟩ := Gen.bind_ok rest₃
    cases added
    have second : Tabling D s₂ s₃ := (level.slots name).goes asked'
    have third : Tabling D s₃ s₄ := (level.tableEntries name slots').goes entered
    exact .inr ⟨fun empty => filled (List.isEmpty_iff.mpr empty), s₄, entries,
      second.trans third, rfl⟩

theorem tablesOf_addDispatchTable (s : Session) (owner : String) (entries : List (IrType × String))
    (name : String) :
    tablesOf { s with output := s.output.addDispatchTable { owner, entries } } name =
      s.tablesOf name + if owner = name then 1 else 0 := by
  simp [tablesOf, Output.addDispatchTable, List.countP_append, List.countP_cons]

theorem tablesDue_withStruct {layout : StructLayout} {slots : List String}
    (absent : s.layouts.structs.find? layout.name = none)
    (cached : s.layouts.dispatch.find? layout.name = some slots) (n : String) :
    (s.withStruct layout).tablesDue n =
      s.tablesDue n + if layout.name = n ∧ slots ≠ [] then 1 else 0 := by
  unfold tablesDue Table.contains
  rw [Session.withStruct, Table.find?_insert]
  by_cases same : layout.name = n
  · subst same
    simp [absent, cached]
  · simp [same]

/-- A struct without slots asks for no table. -/
theorem Balanced.withStruct {layout : StructLayout}
    (absent : s.layouts.structs.find? layout.name = none)
    (cached : s.layouts.dispatch.find? layout.name = some [])
    (h : (s.withStruct layout).Balanced s') : s.Balanced s' := by
  intro n
  have here := h n
  have tables : (s.withStruct layout).tablesOf n = s.tablesOf n := rfl
  rw [tablesDue_withStruct absent cached, tables, if_neg fun h => h.2 rfl] at here
  omega

/-- A struct with slots asks for the table that is added. -/
theorem Balanced.withTable {layout : StructLayout} {slots : List String}
    (absent : s.layouts.structs.find? layout.name = none)
    (cached : s.layouts.dispatch.find? layout.name = some slots) (filled : slots ≠ [])
    (h : (s.withStruct layout).Balanced s') (entries : List (IrType × String)) :
    s.Balanced { s' with
      output := s'.output.addDispatchTable { owner := layout.name, entries } } := by
  intro n
  have here := h n
  have tables : (s.withStruct layout).tablesOf n = s.tablesOf n := rfl
  simp only [tablesDue_withStruct absent cached, tables, filled, ne_eq, not_false_eq_true,
    and_true] at here
  rw [tablesOf_addDispatchTable]
  change _ = _ + s'.tablesDue n
  omega

theorem Tidy.withStruct {layout : StructLayout} {slots : List String} (tidy : s.Tidy)
    (has : s.HasSlots layout layout.name slots) : (s.withStruct layout).Tidy where
  quiet := tidy.quiet
  slotted n l laid := by
    rw [Session.withStruct, Table.find?_insert] at laid
    split at laid
    case isTrue same =>
      subst same
      cases laid
      exact ⟨slots, has.later .refl fun _ _ => id⟩
    case isFalse =>
      obtain ⟨known, has⟩ := tidy.slotted n l laid
      exact ⟨known, has.later .refl fun _ _ => id⟩

theorem HasSlots.of_structFields {levels budget : Nat} {s₁ : Session} {decl : StructDecl}
    {layout : StructLayout} {context : String}
    (run : whileDefining name context
      (structFields (resolveWithin levels) (definerAt levels budget) name decl) s =
        .ok layout.fields s₁)
    (separate : s₁.Separate D) (rests : s.RestsOn D) (coherent : s.Coherent) (tidy : s₁.Tidy)
    (found : s₁.decls.structs.find? name = some decl) : ∃ slots, s₁.HasSlots layout name slots := by
  obtain ⟨-, s₂, ran, rfl⟩ := whileDefining_run run
  have restsMarked : RestsOn D { s with defining := name :: s.defining } :=
    ⟨rests.settles, rests.made, rests.derives⟩
  obtain ⟨coherentMarked, -⟩ : Coherent { s with defining := name :: s.defining } ∧
      s.KeepsSlots { s with defining := name :: s.defining } := coherent.of_same .refl rfl rfl
  obtain ⟨slots, cached, pointer⟩ := structFields_slots ran separate restsMarked coherentMarked found
  refine ⟨slots, cached, fun empty free member => ?_⟩
  rcases pointer empty member with mine | ⟨parent, base, laid, none, above⟩
  · exact free _ _ found mine
  · obtain ⟨known, has⟩ := tidy.slotted parent base laid
    have isEmpty : known = [] := Option.some.inj (has.cached.symm.trans none)
    exact has.pointer isEmpty free above

theorem Tabling.struct {levels budget : Nat} {s₁ : Session} {decl : StructDecl}
    {fields : List (String × IrType)} (level : Level (tabling D) levels budget)
    (absent : s.layouts.structs.find? name = none)
    (found : s.decls.structs.find? name = some decl) (plain : decl.isTemplate = false)
    (run : whileDefining name "struct contains itself by value"
      (structFields (resolveWithin levels) (definerAt levels budget) name decl) s = .ok fields s₁)
    (h : Tabling D s s₁) : KeepsFrom (tabling D) s
      (s₁.withStruct { name, fields, extent := s₁.layouts.aggregate (fields.map Prod.snd) })
      (finishStruct (resolveWithin levels) (definerAt levels budget) name fields decl.location) := by
  have := Coherent.upheld.isPreorder (D := D)
  have upholds := Coherent.upheld.lays.struct
    (Coherent.upheld.lays.level levels budget) absent found plain run h.upholds
  obtain ⟨-, same, -⟩ := whileDefining_ok ((Later.level levels budget).structFields name decl) run
  have absent₁ := same.trans absent
  generalize isLayout : ({ name, fields, extent := s₁.layouts.aggregate (fields.map Prod.snd) } :
    StructLayout) = layout at upholds ⊢
  obtain rfl : layout.name = name := isLayout ▸ rfl
  obtain rfl : layout.fields = fields := isLayout ▸ rfl
  rw [KeepsFrom] at upholds ⊢
  cases finished : finishStruct (resolveWithin levels) (definerAt levels budget) layout.name
      layout.fields decl.location (s₁.withStruct layout) with
  | error => exact trivial
  | ok _ s' =>
    rw [finished] at upholds
    have silent (quiet : s.activeCollector? = none) :
        (s₁.withStruct layout).activeCollector? = none := h.quiet quiet
    refine ⟨upholds, fun quiet => ?_, fun separate rests coherent tidy => ?_⟩
    · obtain ⟨slots, s₂, first, -, ⟨-, rfl⟩ | ⟨-, s₃, entries, second, rfl⟩⟩ :=
        finishStruct_ok level (silent quiet) finished
      · exact first.quiet (silent quiet)
      · exact second.quiet (first.quiet (silent quiet))
    · obtain ⟨slots, s₂, first, cached, ends⟩ := finishStruct_ok level (silent tidy.quiet) finished
      have separate₂ : s₂.Separate D := by
        rcases ends with ⟨-, rfl⟩ | ⟨-, s₃, entries, second, rfl⟩
        · exact separate
        · exact second.upholds.onward.separate separate
      have separate₁ : s₁.Separate D := first.upholds.onward.separate separate₂
      obtain ⟨tidy₁, balanced₁⟩ := h.tables separate₁ rests coherent tidy
      obtain ⟨coherent₁, -⟩ := h.upholds.kept separate₁ rests coherent
      have rests₁ := (h.upholds.onward.settles separate₁ rests).1
      -- the slots are those that were found for the fields
      have found₁ := (h.upholds.onward.settles separate₁ rests).2.struct found
      obtain ⟨slots', has⟩ := HasSlots.of_structFields run separate₁ rests coherent tidy₁ found₁
      obtain ⟨coherentAdded, -⟩ : (s₁.withStruct layout).Coherent ∧
          s₁.KeepsSlots (s₁.withStruct layout) := coherent₁.of_same .refl rfl rfl
      have restsAdded : (s₁.withStruct layout).RestsOn D :=
        ⟨rests₁.settles, rests₁.made, rests₁.derives⟩
      obtain ⟨coherent₂, keeps⟩ := first.upholds.kept separate₂ restsAdded coherentAdded
      obtain rfl : slots = slots' := Option.some.inj (cached.symm.trans (keeps _ _ has.cached))
      obtain ⟨tidy₂, balanced₂⟩ :=
        first.tables separate₂ restsAdded coherentAdded (tidy₁.withStruct has)
      rcases ends with ⟨rfl, rfl⟩ | ⟨filled, s₃, entries, second, rfl⟩
      · exact ⟨tidy₂, balanced₁.trans (.withStruct absent₁ has.cached balanced₂)⟩
      · have rests₂ := (first.upholds.onward.settles separate₂ restsAdded).1
        obtain ⟨tidy₃, balanced₃⟩ := second.tables separate rests₂ coherent₂ tidy₂
        exact ⟨tidy₃.later .refl rfl rfl, balanced₁.trans
          (.withTable absent₁ has.cached filled (balanced₂.trans balanced₃) entries)⟩

namespace Tabling

theorem lays : Session.Lays (tabling D) where
  forward _ _ := of_same ⟨rfl, rfl, rfl, by unfold Output.addForward; dsimp only; split <;> rfl⟩ rfl
  request _ :=
    have run := Gen.requestBody_run _ _ _ _
    .of_ok run (still ((Onward.request _ _ _).of_ok run) rfl rfl rfl)
  nest h := h.around ⟨rfl, rfl, rfl, rfl⟩ rfl ⟨rfl, rfl, rfl, rfl⟩ rfl
  nestHalts _ := trivial
  mark _ h := h.around ⟨rfl, rfl, rfl, rfl⟩ rfl ⟨rfl, rfl, rfl, rfl⟩ rfl
  markHalts _ _ := trivial
  slots := slots
  struct := struct
  enum _ _ _ _ _ h := h.trans {
    upholds := ⟨.of_same rfl rfl, fun _ _ coherent => coherent.of_same .refl rfl rfl⟩
    quiet := id
    tables := fun _ _ _ tidy => tidy.moreSlots (fun _ _ => id) rfl rfl rfl rfl }
  make makes _ _ h := ((still (.withInstance makes) rfl rfl rfl).trans h).trans
    (still (.completed _ _) rfl rfl rfl)
  makeHalts _ _ := trivial
  begin _ := trivial

theorem describeFunction (name : String) (ret : IrType) (location : Location) :
    Keeps (tabling D) (Gen.describeFunction name ret location) := by
  intro s
  have := Coherent.upheld.isPreorder (D := D)
  have upholds : Keeps (.always (Upholds D Coherent KeepsSlots))
      (Gen.describeFunction name ret location) := by
    refine Session.describeFunction_keeps Coherent.upheld.lays.replies.define ?_ name ret location
    exact fun call _ => .tell (fun s calls => Coherent.upheld.same
      (show s.SameTypes { s with debugCalls := calls } from ⟨rfl, rfl, rfl, rfl⟩)) call
  rw [KeepsFrom]
  cases run : Gen.describeFunction name ret location s with
  | error => exact trivial
  | ok a s' =>
    -- where somebody listens nothing is said about tables
    have quiet (quiet : s.activeCollector? = none) : s' = s := by
      rw [Gen.describeFunction, Gen.get_bind, quiet] at run
      cases run
      rfl
    refine ⟨upholds.of_ok run, fun silent => quiet silent ▸ silent, fun _ _ _ tidy => ?_⟩
    obtain rfl := quiet tidy.quiet
    exact ⟨tidy, fun _ => rfl⟩

theorem answers : Session.Answers (tabling D) where
  toReplies := lays.replies
  tell call _ := .tell (fun s calls => of_same
    (show s.SameTypes { s with debugCalls := calls } from ⟨rfl, rfl, rfl, rfl⟩) rfl) call
  internString text s := of_same ⟨rfl, rfl, rfl, by
    show (s.output.intern text).2.dispatchTables = _
    unfold Output.intern
    split <;> rfl⟩ rfl
  freshLambda _ := of_same ⟨rfl, rfl, rfl, rfl⟩ rfl
  environment _ _ _ := of_same ⟨rfl, rfl, rfl, rfl⟩ rfl
  describeFunction := describeFunction
  queueLambda _ _ _ _ s :=
    (still (.requested s _ _ _) rfl rfl rfl).trans (of_same ⟨rfl, rfl, rfl, rfl⟩ rfl)

end Tabling

/-! ### Sessions in which nothing fails -/

/-- Steps of a session over a module, all of which succeed, also inside a body. -/
inductive Succeeds (m : Module) (s : Session) : Session → Prop where
  | refl : Succeeds m s s
  | ask {α : Type} {x : Gen α} {a : α} {s' s'' : Session} (request : x.Request)
    (run : x s' = .ok a s'') (h : Succeeds m s s') : Succeeds m s s''
  | emit {α : Type} {b : Bool} {os : List Operand} {x : Emit α} {a : α} {f f' : Frame}
    {s' s'' : Session} (acts : Emit.Acts b os x) (run : x f s' = .ok (a, f') s'')
    (h : Succeeds m s s') : Succeeds m s s''
  | register {s' : Session} (h : Succeeds m s s') : Succeeds m s (s'.registerAll m)
  | request {s' : Session} (base : String) (args : List TypeRef) (name : String)
    (h : Succeeds m s s') :
    Succeeds m s { s' with instances := (InstanceTable.request s'.instances base args name).2 }
  | begin {s' : Session} (base : String) (args : List TypeRef) (name : String)
    (h : Succeeds m s s') :
    Succeeds m s { s' with instances := (InstanceTable.begin s'.instances base args name).2 }
  | complete {s' : Session} (name : String) (h : Succeeds m s s') :
    Succeeds m s { s' with instances := InstanceTable.complete s'.instances name }
  | note {s' s'' : Session} (same : s'.SameTypes s'')
    (quiet : s''.activeCollector? = s'.activeCollector?) (h : Succeeds m s s') : Succeeds m s s''

/-- A session over a module in which nothing has failed and nobody listens to descriptions. -/
def Smooth (m : Module) (s : Session) : Prop :=
  ∃ options, Succeeds m (registerAll m (.ofOptions options none)) s

variable {m : Module}

theorem Succeeds.trans {s'' : Session} (h : s.Succeeds m s') (h' : s'.Succeeds m s'') :
    s.Succeeds m s'' := by
  induction h' with
  | refl => exact h
  | ask request run _ ih => exact .ask request run ih
  | emit acts run _ ih => exact .emit acts run ih
  | register _ ih => exact .register ih
  | request base args name _ ih => exact .request base args name ih
  | begin base args name _ ih => exact .begin base args name ih
  | complete name _ ih => exact .complete name ih
  | note same quiet _ ih => exact .note same quiet ih

theorem Succeeds.proceeds (h : s.Succeeds m s') : s.Proceeds m s' := by
  induction h with
  | refl => exact .refl
  | ask request run _ ih => exact Gen.after_of_ok run ▸ .ask request ih
  | emit acts run _ ih =>
    exact ih.trans (((acts.runs Proceeds.emits.answers.closes).keeps _).of_ok run)
  | register _ ih => exact .register ih
  | request base args name _ ih => exact .request base args name ih
  | begin base args name _ ih => exact .begin base args name ih
  | complete name _ ih => exact .complete name ih
  | note same _ _ ih => exact .note same ih

theorem Succeeds.tabling (h : s.Succeeds m s') : Tabling m.declarations s s' := by
  induction h with
  | refl => exact .of_same ⟨rfl, rfl, rfl, rfl⟩ rfl
  | ask request run _ ih => exact ih.trans ((Tabling.lays.requested request).goes run)
  | emit acts run _ ih =>
    exact ih.trans (((acts.runs Tabling.answers.closes).keeps _).goes run)
  | register _ ih =>
    exact ih.trans (.still (.registerAll m _) (by rw [registerAll_eq]) (by rw [registerAll_eq])
      (by rw [registerAll_eq]; rfl))
  | request base args name _ ih => exact ih.trans (.still (.requested _ base args name) rfl rfl rfl)
  | begin base args name _ ih => exact ih.trans (.still (.begun _ base args name) rfl rfl rfl)
  | complete name _ ih => exact ih.trans (.still (.completed _ name) rfl rfl rfl)
  | note same quiet _ ih => exact ih.trans (.of_same same quiet)

namespace Smooth

theorem isOver (h : s.Smooth m) : s.Over m := by
  obtain ⟨options, steps⟩ := h
  exact ⟨options, none, steps.proceeds⟩

theorem succeeds (h : s.Smooth m) (steps : s.Succeeds m s') : s'.Smooth m := by
  obtain ⟨options, before⟩ := h
  exact ⟨options, before.trans steps⟩

/-- What is laid out stays, and so do the slots. -/
theorem keeps (h : s.Smooth m) (later : s.Succeeds m s') (separate : s'.Separate m.declarations) :
    s.KeepsStructs s' ∧ s.KeepsSlots s' := by
  have structs := later.proceeds.upholds AllBuilt.upheld
  have slots := later.proceeds.upholds Coherent.upheld
  have separate₀ := structs.onward.separate separate
  have rests := h.isOver.restsOn separate₀
  exact ⟨(structs.kept separate rests (h.isOver.allBuilt separate₀)).2,
    (slots.kept separate rests (h.isOver.coherent separate₀)).2⟩

/-- The session is tidy, and all tables that are due are there. -/
theorem complete (h : s.Smooth m) (separate : s.Separate m.declarations) :
    s.Tidy ∧ ∀ name, s.tablesOf name = s.tablesDue name := by
  obtain ⟨options, steps⟩ := h
  have start : registerAll m (.ofOptions options none) =
      { (.ofOptions options none : Session) with decls := m.decls.foldl Declarations.add {} } :=
    registerAll_eq m _
  have tidy : (registerAll m (.ofOptions options none)).Tidy := by
    rw [start]
    refine ⟨?_, fun name layout laid => ?_⟩
    · show (if options.debugInfo then none else none) = none
      exact ite_self _
    · cases laid
  have coherent : (registerAll m (.ofOptions options none)).Coherent := by
    rw [start]
    refine ⟨fun n slots cached => ?_, List.forall_mem_nil _⟩
    cases cached
  obtain ⟨tidy', balanced⟩ :=
    steps.tabling.tables separate (restsOn_start m options none) coherent tidy
  refine ⟨tidy', fun name => ?_⟩
  have none : (registerAll m (.ofOptions options none)).tablesOf name = 0 ∧
      (registerAll m (.ofOptions options none)).tablesDue name = 0 := by
    rw [start]
    exact ⟨rfl, rfl⟩
  have here := balanced name
  omega

/-- A struct with a dispatch pointer has one table, with an entry for each of its slots. -/
theorem tables (h : s.Smooth m) (separate : s.Separate m.declarations) (free : s.Undispatched)
    {layout : StructLayout} (laid : s.layouts.structs.find? name = some layout)
    (pointer : layout.dispatchSlot?.isSome) {slots : List String}
    (cached : s.layouts.dispatch.find? name = some slots) :
    ∃ table, s.output.dispatchTables.filter (fun t => t.owner = name) = [table] ∧
      table.entries.length = slots.length := by
  obtain ⟨tidy, complete⟩ := h.complete separate
  obtain ⟨slots', has⟩ := tidy.slotted name layout laid
  cases cached.symm.trans has.cached
  have filled : slots ≠ [] := fun empty =>
    has.pointer empty free (mem_names_of_dispatchSlot? pointer)
  have due : s.tablesDue name = 1 :=
    if_pos ⟨Option.isSome_iff_exists.mpr ⟨layout, laid⟩, by simpa [cached] using filled⟩
  have count := complete name
  rw [due, tablesOf, List.countP_eq_length_filter] at count
  obtain ⟨table, only⟩ := List.length_eq_one_iff.mp count
  obtain ⟨member, isOwner⟩ := List.mem_filter.mp (only ▸ List.mem_singleton.mpr rfl :
    table ∈ s.output.dispatchTables.filter fun t => t.owner = name)
  obtain ⟨slots', cached', entries⟩ := (h.isOver.coherent separate).tables table member
  obtain rfl := of_decide_eq_true isOwner
  cases cached.symm.trans cached'
  exact ⟨table, only, entries.length_eq.symm⟩

end Smooth

end Session

end Backend
