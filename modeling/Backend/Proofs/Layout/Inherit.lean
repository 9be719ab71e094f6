import Backend.Proofs.Layout.Laid
import Backend.Proofs.Session.Upheld
import Mathlib.Logic.Relation

/-!
Derived structs. The slots of a struct are what it takes over from its parent, the dispatch pointer
if there is none yet, its own fields and the liveness bit. Main statement:
`Session.Over.starts_with_ancestor`, a struct starts with all slots of an ancestor but the last,
unless some struct between them, or above, declares a name of its own ancestors again.
-/

namespace Backend

open Gen (Moves Keeps)
open Session (Later Course Onward)

namespace Declarations

variable (D : Declarations)

/-- A field that a struct declares or has from an ancestor. -/
inductive HasField : String → String → Prop where
  | own {name field : String} {d : StructDecl} (found : D.structs.find? name = some d)
    (member : field ∈ d.fields.map Field.name) : HasField name field
  | inherited {child parent field : String} (h : D.Parent child parent)
    (has : HasField parent field) : HasField child field

def Redeclares (name : String) : Prop :=
  ∃ d parent field, D.structs.find? name = some d ∧ field ∈ d.fields.map Field.name ∧
    D.Parent name parent ∧ D.HasField parent field

end Declarations

def StructDecl.HasPlainFields (d : StructDecl) : Prop :=
  (d.fields.map Field.name).Nodup ∧ dispatchField ∉ d.fields.map Field.name ∧
    livenessField ∉ d.fields.map Field.name

def StructDecl.Extends (d : StructDecl) (inherited fields : List (String × IrType)) : Prop :=
  ∃ dispatch own, fields = inherited ++ dispatch ++ own ++ [(livenessField, .i1)] ∧
    own.map Prod.fst = d.fields.map Field.name ∧
    (dispatch = [] ∨ dispatch = [(dispatchField, .bytePtr)] ∧ ∀ f ∈ inherited, f.1 ≠ dispatchField)

/-- How the layout of a struct came about. -/
inductive Session.Built (s : Session) : String → StructLayout → Prop where
  | root {name : String} {d : StructDecl} {layout : StructLayout}
    (found : s.decls.structs.find? name = some d) (isRoot : d.parent = none)
    (extends' : d.Extends [] layout.fields) : Built s name layout
  | child {name parent : String} {d : StructDecl} {ty : TypeRef} {layout base : StructLayout}
    (found : s.decls.structs.find? name = some d) (isParent : d.parent = some ty)
    (stands : s.decls.Stands ty .struct parent)
    (laid : s.layouts.structs.find? parent = some base) (built : Built s parent base)
    (extends' : d.Extends base.inherited layout.fields) : Built s name layout

def Session.AllBuilt (s : Session) : Prop :=
  ∀ name layout, s.layouts.structs.find? name = some layout → s.Built name layout

namespace Session

theorem Built.later {s s' : Session} {name : String} {layout : StructLayout}
    (h : s.Built name layout) (settles : s.decls.Settles s'.decls)
    (grows : ∀ {n l}, s.layouts.structs.find? n = some l → s'.layouts.structs.find? n = some l) :
    s'.Built name layout := by
  induction h with
  | root found isRoot extends' => exact .root (settles.struct found) isRoot extends'
  | child found isParent stands laid _ extends' ih =>
    exact .child (settles.struct found) isParent (stands.settled settles) (grows laid) ih extends'

def KeepsStructs (s s' : Session) : Prop :=
  ∀ n l, s.layouts.structs.find? n = some l → s'.layouts.structs.find? n = some l

end Session

namespace Resolution

variable {D : Declarations} {s s' : Session} {levels budget : Nat}

theorem ownFields_names {resolve : Resolver} {define : Definer} {owner : String}
    {declared : List Field} {fields : List (String × IrType)}
    (run : declared.mapM (ownField resolve define owner) s = .ok fields s') :
    fields.map Prod.fst = declared.map Field.name := by
  induction declared generalizing s fields with
  | nil =>
    obtain ⟨rfl, -⟩ := Gen.pure_ok run
    rfl
  | cons d rest ih =>
    rw [List.mapM_cons] at run
    obtain ⟨field, s₁, ran, ran₁⟩ := Gen.bind_ok run
    obtain ⟨others, s₂, ran₂, done⟩ := Gen.bind_ok ran₁
    obtain ⟨rfl, rfl⟩ := Gen.pure_ok done
    obtain ⟨ty, s₃, -, rest₃⟩ := Gen.bind_ok ran
    obtain ⟨_, s₄, -, named⟩ := Gen.bind_ok rest₃
    obtain ⟨rfl, -⟩ := Gen.pure_ok named
    rw [List.map_cons, List.map_cons, ih ran₂]

theorem structFields_built {name : String} {decl : StructDecl} {fields : List (String × IrType)}
    (run : structFields (resolveWithin levels) (definerAt levels budget) name decl s =
      .ok fields s')
    (separate : s'.Separate D) (rests : s.RestsOn D) (built : s'.AllBuilt)
    (found : s'.decls.structs.find? name = some decl) {layout : StructLayout}
    (isLayout : layout.fields = fields) : s'.Built name layout := by
  obtain ⟨inherited, s₁, ran₁, rest₁⟩ := Gen.bind_ok run
  obtain ⟨slots, s₂, ran₂, rest₂⟩ := Gen.bind_ok rest₁
  obtain ⟨own, s₃, ran₃, done⟩ := Gen.bind_ok rest₂
  obtain ⟨rfl, rfl⟩ := Gen.pure_ok done
  have extends' : decl.Extends inherited layout.fields := by
    refine ⟨_, own, isLayout, ownFields_names ran₃, ?_⟩
    split
    case isTrue dispatched =>
      simp only [Bool.and_eq_true, List.all_eq_true, decide_eq_true_eq] at dispatched
      exact .inr ⟨rfl, dispatched.2⟩
    case isFalse => exact .inl rfl
  cases isParent : decl.parent with
  | none =>
    rw [isParent] at ran₁
    obtain ⟨rfl, -⟩ := Gen.pure_ok ran₁
    exact .root found isParent extends'
  | some ty =>
    rw [isParent] at ran₁
    obtain ⟨parent, s₄, named, rest₄⟩ := Gen.bind_ok ran₁
    obtain ⟨base, s₅, laid, done⟩ := Gen.bind_ok rest₄
    obtain ⟨rfl, rfl⟩ := Gen.pure_ok done
    -- from where the parent is known nothing more changes for it
    have lays : Session.Lays (.always (Onward D)) := Onward.lays
    have resolves := lays.resolveWithin levels
    have defines := lays.defineWithin resolves budget
    have onward₄ : Onward D s₄ s' := by
      refine trans_of _ (onward (structLayout_keeps defines parent) laid) ?_
      refine trans_of _ (onward (lays.dispatchLayout resolves name) ran₂) ?_
      exact onward (Keeps.mapM fun f _ => ownField_keeps resolves defines name f) ran₃
    have separate₄ := onward₄.separate separate
    have rests₄ := ((onward (structName_keeps resolves ty {}) named).settles separate₄ rests).1
    have stands := (structName_stands rests separate₄ named).settled
      (onward₄.settles separate rests₄).2
    have level := Later.level levels budget
    have later : s₁.Later s' :=
      ((level.slots name).of_ok ran₂).trans ((level.ownFields name _).of_ok ran₃)
    have found' := later.grows.structs (structLayout_ok laid)
    exact .child found isParent stands found' (built _ _ found') extends'

end Resolution

namespace Session

open Resolution

variable {D : Declarations} {m : Module} {s : Session}

theorem AllBuilt.withStruct {layout : StructLayout} (all : s.AllBuilt)
    (absent : s.layouts.structs.find? layout.name = none) (built : s.Built layout.name layout) :
    (s.withStruct layout).AllBuilt ∧ s.KeepsStructs (s.withStruct layout) := by
  have keeps : s.KeepsStructs (s.withStruct layout) := by
    intro n l found
    rw [Session.withStruct, Table.find?_insert, if_neg, found]
    rintro rfl
    cases absent.symm.trans found
  refine ⟨fun name l found => ?_, keeps⟩
  by_cases same : layout.name = name
  · subst same
    rw [Session.withStruct, Table.find?_insert, if_pos rfl] at found
    cases found
    exact built.later .refl (keeps _ _)
  · rw [Session.withStruct, Table.find?_insert, if_neg same] at found
    exact (all name l found).later .refl (keeps _ _)

theorem AllBuilt.of_structs {s' : Session} (all : s.AllBuilt)
    (settles : s.decls.Settles s'.decls) (structs : s'.layouts.structs = s.layouts.structs) :
    s'.AllBuilt ∧ s.KeepsStructs s' :=
  ⟨fun name layout found =>
    (all name layout (structs ▸ found)).later settles fun found => structs ▸ found,
    fun _ _ found => structs ▸ found⟩

theorem AllBuilt.upheld : Upheld D AllBuilt KeepsStructs where
  refl _ _ _ := id
  trans h h' n l found := h' n l (h n l found)
  still settles layouts _ all := all.of_structs settles (congrArg _ layouts)
  slots _ _ _ _ _ all := all.of_structs .refl rfl
  table _ _ _ _ all _ := all.of_structs .refl rfl
  struct := by
    intro levels budget s s₁ name decl fields absent found run onwards separate rests all extent
    obtain ⟨-, same, -⟩ :=
      whileDefining_ok ((Later.level levels budget).structFields name decl) run
    refine all.withStruct (same.trans absent) ?_
    obtain ⟨-, s₂, ran, rfl⟩ := whileDefining_run run
    have declared := (onwards.settles separate rests).2.struct found
    have rests' : RestsOn D { s with defining := name :: s.defining } :=
      ⟨rests.settles, rests.made, rests.derives⟩
    have all₂ : s₂.AllBuilt := fun n l found => (all n l found).later .refl id
    refine Built.later (s := s₂) ?_ .refl id
    exact structFields_built ran separate rests' all₂ declared rfl
  enum _ all := all.of_structs .refl rfl

theorem Over.allBuilt (h : s.Over m) (separate : s.Separate m.declarations) : s.AllBuilt := by
  refine h.upheld AllBuilt.upheld separate fun layouts _ name layout found => ?_
  rw [layouts] at found
  cases found

end Session

/-! ### Names of slots -/

theorem Table.keys_foldl_insert_new {α : Type} {es : List (String × α)} {t : Table α}
    (nodup : (t.keys ++ es.map Prod.fst).Nodup) :
    (es.foldl (fun t e => t.insert e.1 e.2) t).keys = t.keys ++ es.map Prod.fst := by
  induction es generalizing t with
  | nil => simp
  | cons e rest ih =>
    have new : e.1 ∉ t.keys := fun known =>
      (List.nodup_append.mp nodup).2.2 _ known _ List.mem_cons_self rfl
    have keys : (t.insert e.1 e.2).keys = t.keys ++ [e.1] := by rw [keys_insert, if_neg new]
    have split : t.keys ++ (e :: rest).map Prod.fst =
        (t.insert e.1 e.2).keys ++ rest.map Prod.fst := by simp [keys]
    rw [List.foldl_cons, ih (split ▸ nodup), split]

namespace StructLayout

variable {l : StructLayout}

theorem keys_slots (nodup : (l.fields.map Prod.fst).Nodup) :
    l.slots.keys = l.fields.map Prod.fst := by
  have names : (l.fields.zipIdx.map fun e => (e.1.1, e.2)).map Prod.fst =
      l.fields.map Prod.fst := by
    calc
      _ = (l.fields.zipIdx.map Prod.fst).map Prod.fst := by rw [List.map_map, List.map_map]; rfl
      _ = l.fields.map Prod.fst := by rw [List.zipIdx_map_fst]
  rw [slots, Table.ofList, Table.keys_foldl_insert_new]
  · exact names
  · exact names.symm ▸ nodup

theorem inherited_eq {before : List (String × IrType)}
    (fields : l.fields = before ++ [(livenessField, .i1)])
    (nodup : (l.fields.map Prod.fst).Nodup) : l.inherited = before := by
  have zipped : (l.fields.map Prod.fst).zip (l.fields.map Prod.snd) = l.fields := by
    rw [List.zip_map', List.map_id'']
    exact fun _ => rfl
  rw [inherited, keys_slots nodup, types, zipped, fields, List.filter_append]
  have unlike (f : String × IrType) (member : f ∈ before) : f.1 ≠ livenessField := by
    rw [fields, List.map_append] at nodup
    exact (List.nodup_append.mp nodup).2.2 _ (List.mem_map_of_mem member) _ (List.mem_singleton.mpr rfl)
  rw [List.filter_eq_self.mpr fun f member => by simpa using unlike f member]
  exact List.append_nil before

end StructLayout

namespace StructDecl.Extends

variable {d : StructDecl} {inherited fields : List (String × IrType)}

theorem mem_names (h : d.Extends inherited fields) {field : String}
    (member : field ∈ fields.map Prod.fst) :
    field ∈ inherited.map Prod.fst ∨ field = dispatchField ∨ field ∈ d.fields.map Field.name ∨
      field = livenessField := by
  obtain ⟨dispatch, own, rfl, names, slot⟩ := h
  simp only [List.map_append, names, List.mem_append] at member
  rcases member with ((above | slotted) | mine) | last
  · exact .inl above
  · rcases slot with rfl | ⟨rfl, -⟩
    · cases slotted
    · exact .inr (.inl (List.mem_singleton.mp slotted))
  · exact .inr (.inr (.inl mine))
  · exact .inr (.inr (.inr (List.mem_singleton.mp last)))

theorem nodup (h : d.Extends inherited fields) (plain : d.HasPlainFields)
    (above : (inherited.map Prod.fst).Nodup) (unlike : livenessField ∉ inherited.map Prod.fst)
    (distinct : ∀ field ∈ d.fields.map Field.name, field ∉ inherited.map Prod.fst) :
    (fields.map Prod.fst).Nodup := by
  obtain ⟨dispatch, own, rfl, names, slot⟩ := h
  obtain ⟨once, noDispatch, noLiveness⟩ := plain
  have slots : (inherited.map Prod.fst ++ dispatch.map Prod.fst).Nodup ∧
      ∀ field ∈ dispatch.map Prod.fst, field = dispatchField := by
    rcases slot with rfl | ⟨rfl, free⟩
    · exact ⟨by simpa using above, List.forall_mem_nil _⟩
    · refine ⟨List.nodup_append.mpr ⟨above, List.pairwise_singleton _ _, ?_⟩, by simp⟩
      rintro field member _ single rfl
      obtain ⟨f, listed, rfl⟩ := List.mem_map.mp member
      exact free f listed (List.mem_singleton.mp single)
  have withOwn : (inherited.map Prod.fst ++ dispatch.map Prod.fst ++ d.fields.map Field.name).Nodup := by
    refine List.nodup_append.mpr ⟨slots.1, once, ?_⟩
    rintro field member _ mine rfl
    rcases List.mem_append.mp member with member | member
    · exact distinct field mine member
    · exact noDispatch (slots.2 field member ▸ mine)
  simp only [List.map_append, names]
  refine List.nodup_append.mpr ⟨withOwn, List.pairwise_singleton _ _, ?_⟩
  rintro field member _ last rfl
  obtain rfl : field = livenessField := List.mem_singleton.mp last
  rcases List.mem_append.mp member with member | mine
  · rcases List.mem_append.mp member with member | member
    · exact unlike member
    · exact absurd (slots.2 _ member) (by decide)
  · exact noLiveness mine

end StructDecl.Extends

namespace Session.Built

variable {s : Session} {name : String} {layout : StructLayout}

theorem fields_eq (h : s.Built name layout) :
    ∃ before, layout.fields = before ++ [(livenessField, .i1)] := by
  cases h with
  | root _ _ extends' =>
    obtain ⟨dispatch, own, fields, -⟩ := extends'
    exact ⟨_, fields⟩
  | child _ _ _ _ _ extends' =>
    obtain ⟨dispatch, own, fields, -⟩ := extends'
    exact ⟨_, fields⟩

theorem names (h : s.Built name layout)
    (plain : ∀ {n d}, s.decls.structs.find? n = some d → d.HasPlainFields)
    (distinct : ∀ {n}, Relation.ReflTransGen s.decls.Parent name n → ¬ s.decls.Redeclares n) :
    (layout.fields.map Prod.fst).Nodup ∧
      ∀ field ∈ layout.fields.map Prod.fst,
        field = dispatchField ∨ field = livenessField ∨ s.decls.HasField name field := by
  induction h with
  | root found isRoot extends' =>
    refine ⟨extends'.nodup (plain found) List.nodup_nil List.not_mem_nil
      fun _ _ => List.not_mem_nil, fun field member => ?_⟩
    rcases extends'.mem_names member with none | slot | mine | last
    · cases none
    · exact .inl slot
    · exact .inr (.inr (.own found mine))
    · exact .inr (.inl last)
  | @child name parent d ty layout base found isParent stands laid built extends' ih =>
    have above : s.decls.Parent name parent := ⟨d, ty, found, isParent, stands⟩
    obtain ⟨once, known⟩ := ih fun chain => distinct (.head above chain)
    obtain ⟨before, fields⟩ := built.fields_eq
    have inherited := StructLayout.inherited_eq fields once
    rw [inherited] at extends'
    rw [fields, List.map_append] at once known
    have unlike : livenessField ∉ before.map Prod.fst := fun member =>
      (List.nodup_append.mp once).2.2 _ member _ (List.mem_singleton.mpr rfl) rfl
    refine ⟨extends'.nodup (plain found) (List.nodup_append.mp once).1 unlike
      fun field mine member => ?_, fun field member => ?_⟩
    · rcases known field (List.mem_append_left _ member) with rfl | rfl | has
      · exact (plain found).2.1 mine
      · exact (plain found).2.2 mine
      · exact distinct .refl ⟨d, parent, field, found, mine, above, has⟩
    · rcases extends'.mem_names member with member | slot | mine | last
      · exact (known field (List.mem_append_left _ member)).imp_right
          (Or.imp_right (.inherited above))
      · exact .inl slot
      · exact .inr (.inr (.own found mine))
      · exact .inr (.inl last)

theorem extends_parent (h : s.Built name layout)
    (plain : ∀ {n d}, s.decls.structs.find? n = some d → d.HasPlainFields)
    (distinct : ∀ {n}, Relation.TransGen s.decls.Parent name n → ¬ s.decls.Redeclares n)
    {parent : String} (above : s.decls.Parent name parent) :
    ∃ base, s.layouts.structs.find? parent = some base ∧ s.Built parent base ∧
      base.fields.dropLast <+: layout.fields.dropLast := by
  cases h with
  | root found isRoot =>
    obtain ⟨d, ty, found', isParent, -⟩ := above
    cases found.symm.trans found'
    cases isRoot.symm.trans isParent
  | @child _ parent' d ty _ base found isParent stands laid built extends' =>
    obtain rfl := above.unique ⟨d, ty, found, isParent, stands⟩
    refine ⟨base, laid, built, ?_⟩
    obtain ⟨once, -⟩ := built.names plain fun chain => distinct (.head' above chain)
    obtain ⟨before, fields⟩ := built.fields_eq
    obtain ⟨dispatch, own, fields', -⟩ := extends'
    rw [fields', StructLayout.inherited_eq fields once, fields, List.dropLast_concat,
      List.dropLast_concat, List.append_assoc]
    exact List.prefix_append _ _

theorem extends_ancestor (h : s.Built name layout)
    (plain : ∀ {n d}, s.decls.structs.find? n = some d → d.HasPlainFields) {ancestor : String}
    (above : Relation.TransGen s.decls.Parent name ancestor)
    (distinct : ∀ {n}, Relation.TransGen s.decls.Parent name n → ¬ s.decls.Redeclares n) :
    ∃ base, s.layouts.structs.find? ancestor = some base ∧
      base.fields.dropLast <+: layout.fields.dropLast := by
  induction above using Relation.TransGen.head_induction_on generalizing layout with
  | single parent =>
    obtain ⟨base, laid, -, starts⟩ := h.extends_parent plain distinct parent
    exact ⟨base, laid, starts⟩
  | head parent _ ih =>
    obtain ⟨middle, -, built, starts⟩ := h.extends_parent plain distinct parent
    obtain ⟨base, laid, starts'⟩ := ih built fun chain => distinct (.head parent chain)
    exact ⟨base, laid, starts'.trans starts⟩

end Session.Built

/-! ### Modules -/

theorem Declarations.mem_of_template?_foldl_add {decls : List Decl} {D : Declarations} {n : String}
    {d : StructDecl} (h : (decls.foldl add D).template? .struct n = some (.struct d)) :
    (.struct d ∈ decls ∧ d.name = n) ∨ D.template? .struct n = some (.struct d) := by
  induction decls generalizing D with
  | nil => exact .inr h
  | cons e rest ih =>
    rcases ih h with ⟨member, name⟩ | found
    · exact .inl ⟨List.mem_cons_of_mem e member, name⟩
    · cases e with
      | struct s =>
        by_cases same : s.name = n
        · simp only [add, template?, Table.find?_insert, if_pos same, Option.map_some,
            Option.some.injEq, Template.struct.injEq] at found
          subst found
          exact .inl ⟨List.mem_cons_self, same⟩
        · simp only [add, template?, Table.find?_insert, if_neg same] at found
          exact .inr found
      | _ => exact .inr found

/-- In each struct of the module the own fields have names of their own. -/
def Module.HasPlainFields (m : Module) : Prop := ∀ d, .struct d ∈ m.decls → d.HasPlainFields

theorem Declarations.Derives.hasPlainFields {m : Module} (plain : m.HasPlainFields) {t : Template}
    (h : m.declarations.Derives t) {d : StructDecl} (isStruct : t = .struct d) :
    d.HasPlainFields := by
  induction h generalizing d with
  | @declared kind n t found =>
    subst isStruct
    obtain rfl : .struct = kind := Declarations.kind_of_template? found
    rcases mem_of_template?_foldl_add found with ⟨member, -⟩ | none
    · exact plain d member
    · cases none
  | @concrete t σ n h ih =>
    cases t with
    | enum e => cases isStruct
    | struct d' =>
      obtain rfl := Template.struct.inj isStruct
      have names : ((σ.applyStruct d' n).fields.map Field.name) = d'.fields.map Field.name :=
        List.map_map.trans rfl
      rw [StructDecl.HasPlainFields, names]
      exact ih rfl

/-- A struct starts with all slots of an ancestor but the last one, if no struct above it declares
a field of its own ancestors again. -/
theorem Session.Over.starts_with_ancestor {m : Module} {s : Session} (isOver : s.Over m)
    (separate : s.Separate m.declarations) (plain : m.HasPlainFields) {name ancestor : String}
    (above : Relation.TransGen s.decls.Parent name ancestor)
    (distinct : ∀ n, Relation.TransGen s.decls.Parent name n → ¬ s.decls.Redeclares n)
    {layout base : StructLayout} (laid : s.layouts.structs.find? name = some layout)
    (laidBase : s.layouts.structs.find? ancestor = some base) :
    base.types.dropLast <+: layout.types.dropLast ∧
      ∀ slot < base.fieldCount, ∃ ty, base.type? slot = some ty ∧ layout.type? slot = some ty := by
  have rests := isOver.restsOn separate
  have named {n : String} {d : StructDecl} (found : s.decls.structs.find? n = some d) :
      d.HasPlainFields :=
    (rests.derives (Declarations.template?_struct.mpr found)).hasPlainFields plain rfl
  have built := isOver.allBuilt separate name layout laid
  obtain ⟨base', laid', starts⟩ := built.extends_ancestor named above (distinct _)
  obtain rfl := Option.some.inj (laidBase.symm.trans laid')
  have types : base.types.dropLast <+: layout.types.dropLast := by
    rw [StructLayout.types, StructLayout.types, ← List.map_dropLast, ← List.map_dropLast]
    exact starts.map Prod.snd
  refine ⟨types, fun slot inside => ?_⟩
  have short : slot < base.types.dropLast.length := by
    rw [List.length_dropLast, StructLayout.types, List.length_map]
    exact inside
  refine ⟨base.types.dropLast[slot], ?_, ?_⟩
  · exact List.prefix_iff_getElem?.mp (List.dropLast_prefix base.types) slot short
  · exact List.prefix_iff_getElem?.mp (types.trans (List.dropLast_prefix layout.types)) slot short

def shadowingModule : Module where
  name := "main"
  decls :=
    [.struct { name := "Base", fields := [⟨"id", .primitive .u16⟩] },
     .struct { name := "Mid", parent := some (.ofName "Base"), fields := [⟨"size", .primitive .i64⟩] },
     .struct { name := "Leaf", parent := some (.ofName "Mid"), fields := [⟨"id", .primitive .i8⟩] }]

def shadowingSession : Session :=
  (Gen.structLayout "Leaf").after (Session.registerAll shadowingModule (.ofOptions {}))

theorem Session.Over.starts_with_ancestor_shadowing :
    ∃ layout base, shadowingSession.Over shadowingModule ∧
      shadowingSession.Separate shadowingModule.declarations ∧ shadowingModule.HasPlainFields ∧
      Relation.TransGen shadowingSession.decls.Parent "Leaf" "Base" ∧
      (∀ n, Relation.TransGen shadowingSession.decls.Parent "Leaf" n →
        ¬ shadowingSession.decls.Redeclares n) ∧
      shadowingSession.layouts.structs.find? "Leaf" = some layout ∧
      shadowingSession.layouts.structs.find? "Base" = some base ∧
      base.types.dropLast <+: layout.types.dropLast := by
  have isOver : shadowingSession.Over shadowingModule :=
    ⟨{}, none, .ask (.structLayout "Leaf") .refl⟩
  have separate : shadowingSession.Separate shadowingModule.declarations :=
    separate_of_keys (by decide +kernel)
  have plain : shadowingModule.HasPlainFields := by
    simp [Module.HasPlainFields, shadowingModule, StructDecl.HasPlainFields]
    decide
  have settles := (isOver.restsOn separate).settles
  have leaf : shadowingSession.decls.Parent "Leaf" "Mid" :=
    .settled (.ofName rfl rfl rfl rfl) settles
  have mid : shadowingSession.decls.Parent "Mid" "Base" :=
    .settled (.ofName rfl rfl rfl rfl) settles
  have base : ∀ n, ¬ shadowingSession.decls.Parent "Base" n := by
    rintro n ⟨d, ty, found, isParent, -⟩
    cases found.symm.trans (settles.struct (D := shadowingModule.declarations) rfl)
    cases isParent
  have above : Relation.TransGen shadowingSession.decls.Parent "Leaf" "Base" := .tail (.single leaf) mid
  have distinct : ∀ n, Relation.TransGen shadowingSession.decls.Parent "Leaf" n →
      ¬ shadowingSession.decls.Redeclares n := by
    intro n chain
    have ends : n = "Mid" ∨ n = "Base" := by
      induction chain with
      | single h => exact .inl (h.unique leaf)
      | tail _ h ih =>
        rcases ih with rfl | rfl
        · exact .inr (h.unique mid)
        · exact (base _ h).elim
    rintro ⟨d, parent, field, found, member, isParent, has⟩
    rcases ends with rfl | rfl
    · cases found.symm.trans (settles.struct (D := shadowingModule.declarations) rfl)
      obtain rfl : field = "size" := List.mem_singleton.mp member
      obtain rfl := isParent.unique mid
      cases has with
      | own found member =>
        cases found.symm.trans (settles.struct (D := shadowingModule.declarations) rfl)
        exact absurd member (by decide)
      | inherited h => exact base _ h
    · exact base _ isParent
  obtain ⟨layout, laid⟩ := Table.contains_iff.mp
    (show shadowingSession.layouts.structs.contains "Leaf" = true by decide +kernel)
  obtain ⟨base, laidBase⟩ := Table.contains_iff.mp
    (show shadowingSession.layouts.structs.contains "Base" = true by decide +kernel)
  exact ⟨layout, base, isOver, separate, plain, above, distinct, laid, laidBase,
    (isOver.starts_with_ancestor separate plain above distinct laid laidBase).1⟩

/-- A field that is declared again in the middle: the bottom starts with less than its parent. -/
def redeclaringModule : Module where
  name := "main"
  decls :=
    [.struct { name := "A", fields := [⟨"x", .primitive .i32⟩] },
     .struct { name := "B", parent := some (.ofName "A"), fields := [⟨"x", .primitive .i64⟩] },
     .struct { name := "C", parent := some (.ofName "B"), fields := [⟨"y", .primitive .i8⟩] }]

def redeclaringSession : Session :=
  (Gen.structLayout "C").after (Session.registerAll redeclaringModule (.ofOptions {}))

theorem Session.Over.not_starts_with_parent :
    ∃ layout base, redeclaringSession.Over redeclaringModule ∧
      redeclaringSession.Separate redeclaringModule.declarations ∧
      redeclaringModule.HasPlainFields ∧ redeclaringSession.decls.Parent "C" "B" ∧
      redeclaringSession.layouts.structs.find? "C" = some layout ∧
      redeclaringSession.layouts.structs.find? "B" = some base ∧
      ¬ base.types.dropLast <+: layout.types := by
  have isOver : redeclaringSession.Over redeclaringModule :=
    ⟨{}, none, .ask (.structLayout "C") .refl⟩
  have separate : redeclaringSession.Separate redeclaringModule.declarations :=
    separate_of_keys (by decide +kernel)
  have plain : redeclaringModule.HasPlainFields := by
    simp [Module.HasPlainFields, redeclaringModule, StructDecl.HasPlainFields]
    decide
  have parent : redeclaringSession.decls.Parent "C" "B" :=
    .settled (.ofName rfl rfl rfl rfl) (isOver.restsOn separate).settles
  have bottom : (redeclaringSession.layouts.structs.find? "C").map StructLayout.types =
      some [.int 32, .int 8, .int 1] := by decide +kernel
  have middle : (redeclaringSession.layouts.structs.find? "B").map StructLayout.types =
      some [.int 32, .int 64, .int 1] := by decide +kernel
  obtain ⟨layout, laid, types⟩ := Option.map_eq_some_iff.mp bottom
  obtain ⟨base, laidBase, typesBase⟩ := Option.map_eq_some_iff.mp middle
  refine ⟨layout, base, isOver, separate, plain, parent, laid, laidBase, ?_⟩
  rw [types, typesBase]
  decide

end Backend
