import Backend.Proofs.Resolution.Settled
import Backend.Proofs.Session.Reached

/-!
Sessions over one module. Its declarations are registered, and then types are asked about and
bodies are emitted, for as long as no others are registered. Every session on the way of a
generation is of this kind, also inside a body.
-/

namespace Backend

open Gen (Keeps Moves)

namespace Session

/-- The sessions agree on all that types depend on. -/
structure SameTypes (s s' : Session) : Prop where
  decls : s'.decls = s.decls
  layouts : s'.layouts = s.layouts
  instances : s'.instances = s.instances
  dispatchTables : s'.output.dispatchTables = s.output.dispatchTables

def registerAll (m : Module) (s : Session) : Session := m.decls.foldl Session.register s

/-- Steps of a session over a module. -/
inductive Proceeds (m : Module) (s : Session) : Session → Prop where
  | refl : Proceeds m s s
  | ask {α : Type} {x : Gen α} {s' : Session} (request : x.Request) (h : Proceeds m s s') :
    Proceeds m s (x.after s')
  | register {s' : Session} (h : Proceeds m s s') : Proceeds m s (s'.registerAll m)
  | request {s' : Session} (base : String) (args : List TypeRef) (name : String)
    (h : Proceeds m s s') :
    Proceeds m s { s' with instances := (InstanceTable.request s'.instances base args name).2 }
  | begin {s' : Session} (base : String) (args : List TypeRef) (name : String)
    (h : Proceeds m s s') :
    Proceeds m s { s' with instances := (InstanceTable.begin s'.instances base args name).2 }
  | complete {s' : Session} (name : String) (h : Proceeds m s s') :
    Proceeds m s { s' with instances := InstanceTable.complete s'.instances name }
  | note {s' s'' : Session} (same : s'.SameTypes s'') (h : Proceeds m s s') : Proceeds m s s''

def Over (m : Module) (s : Session) : Prop :=
  ∃ options collector, Proceeds m (registerAll m (.ofOptions options collector)) s

namespace Proceeds

variable {m : Module} {s s' s'' : Session}

theorem trans (h : Proceeds m s s') (h' : Proceeds m s' s'') : Proceeds m s s'' := by
  induction h' with
  | refl => exact h
  | ask request _ ih => exact .ask request ih
  | register _ ih => exact .register ih
  | request base args name _ ih => exact .request base args name ih
  | begin base args name _ ih => exact .begin base args name ih
  | complete name _ ih => exact .complete name ih
  | note same _ ih => exact .note same ih

instance : IsPreorder Session (Proceeds m) where
  refl _ := .refl
  trans _ _ _ := trans

theorem of_same (decls : s'.decls = s.decls) (layouts : s'.layouts = s.layouts)
    (instances : s'.instances = s.instances)
    (dispatchTables : s'.output.dispatchTables = s.output.dispatchTables) : Proceeds m s s' :=
  .note ⟨decls, layouts, instances, dispatchTables⟩ .refl

theorem moves {α : Type} {x : Gen α} (request : x.Request) : Moves (Proceeds m) x :=
  .of_after fun _ => .ask request .refl

theorem tell (call : DebugCall) : Moves (Proceeds m) (Gen.tell call) :=
  .tell (fun _ _ => of_same rfl rfl rfl rfl) call

theorem internString (text : String) : Moves (Proceeds m) (Gen.internString text) := by
  intro s
  refine of_same rfl rfl rfl ?_
  show (s.output.intern text).2.dispatchTables = _
  unfold Output.intern
  split <;> rfl

theorem activate {s s' : Session} {symbol : String} (_ : s.active = none)
    (steps : Proceeds m { s with active := some symbol } s') :
    Proceeds m s { s' with active := none } :=
  have begun : Proceeds m s { s with active := some symbol } := of_same rfl rfl rfl rfl
  (begun.trans steps).trans (of_same rfl rfl rfl rfl)

theorem emits : Session.Emits (.always (Proceeds m)) where
  resolve := fun ty σ => moves (.resolve ty σ)
  define := fun kind name => moves (.define kind name)
  dispatchLayout := fun name => moves (.dispatchLayout name)
  instantiateFunction := fun name typeArgs σ => moves (.instantiateFunction name typeArgs σ)
  instantiateMethod := fun owner m typeArgs σ => moves (.instantiateMethod owner m typeArgs σ)
  tell := fun call _ => tell call
  internString := internString
  freshLambda := fun _ => of_same rfl rfl rfl rfl
  environment := fun _ _ _ => of_same rfl rfl rfl rfl
  queueLambda := fun symbol _ _ s =>
    have requested : Proceeds m s
        { s with instances := (InstanceTable.request s.instances "lambda" [] symbol).2 } :=
      .request "lambda" [] symbol .refl
    requested.trans (of_same rfl rfl rfl rfl)
  instantiate := fun kind base args σ => moves (.instantiate kind base args σ)
  queueMethods := fun owner methods σ => moves (.queueMethods owner methods σ)
  beginInstance := fun base args name _ => .begin base args name .refl
  completeInstance := fun name _ => .complete name .refl
  activate := activate
  activateHalts := activate
  dequeue := fun _ _ => of_same rfl rfl rfl rfl
  own := fun _ _ _ => of_same rfl rfl rfl rfl
  declare := fun _ _ => of_same rfl rfl rfl rfl
  addFunction := fun _ _ _ _ => of_same rfl rfl rfl rfl

end Proceeds

theorem Over.proceeds {m : Module} {s s' : Session} (h : s.Over m) (steps : s.Proceeds m s') :
    s'.Over m := by
  obtain ⟨options, collector, before⟩ := h
  exact ⟨options, collector, before.trans steps⟩

end Session

/-! ### Declarations that are registered again -/

namespace Table

variable {α : Type} {es : List (String × α)} {t t' : Table α}

theorem find?_eq_none_of_not_mem {key : String} (absent : key ∉ t.keys) : t.find? key = none := by
  cases found : t.find? key with
  | none => rfl
  | some v => exact (absent (List.mem_map.mpr ⟨(key, v), mem_of_lookup found, rfl⟩)).elim

theorem ext_of_find? (nodup : t.keys.Nodup) (keys : t'.keys = t.keys)
    (same : ∀ k, t'.find? k = t.find? k) : t' = t := by
  obtain ⟨entries⟩ := t
  obtain ⟨entries'⟩ := t'
  induction entries generalizing entries' with
  | nil => exact congrArg Table.mk (List.map_eq_nil_iff.mp keys)
  | cons e rest ih =>
    cases entries' with
    | nil => cases keys
    | cons e' rest' =>
      obtain ⟨sameKey, sameKeys⟩ := List.cons.inj keys
      obtain ⟨fresh, nodup⟩ := List.nodup_cons.mp nodup
      have value := same e.1
      simp only [find?, lookup, sameKey, if_true, Option.some.injEq] at value
      have others (k : String) : find? ⟨rest'⟩ k = find? ⟨rest⟩ k := by
        by_cases here : e.1 = k
        · subst here
          have fresh' : e.1 ∉ Table.keys ⟨rest'⟩ := fun member => fresh (sameKeys ▸ member)
          rw [find?_eq_none_of_not_mem fresh, find?_eq_none_of_not_mem fresh']
        · simpa only [find?, lookup, sameKey, here, if_false] using same k
      have tail := ih nodup rest' sameKeys others
      rw [Prod.ext sameKey value, show rest' = rest from congrArg entries tail]

theorem nodup_keys_foldl_insert (h : t.keys.Nodup) :
    (es.foldl (fun t e => t.insert e.1 e.2) t).keys.Nodup := by
  induction es generalizing t with
  | nil => exact h
  | cons e rest ih =>
    refine ih ?_
    rw [keys_insert]
    split
    · exact h
    case isFalse new =>
      exact List.nodup_append.mpr ⟨h, List.pairwise_singleton _ _, by
        rintro k member _ single rfl
        exact new (List.mem_singleton.mp single ▸ member)⟩

theorem keys_foldl_insert_known (known : ∀ e ∈ es, e.1 ∈ t.keys) :
    (es.foldl (fun t e => t.insert e.1 e.2) t).keys = t.keys := by
  induction es generalizing t with
  | nil => rfl
  | cons e rest ih =>
    have same : (t.insert e.1 e.2).keys = t.keys := by
      rw [keys_insert, if_pos (known e List.mem_cons_self)]
    rw [List.foldl_cons, ih fun e' member => ?_, same]
    rw [same]
    exact known e' (List.mem_cons_of_mem e member)

theorem mem_keys_ofList {e : String × α} (member : e ∈ es) : e.1 ∈ (ofList es).keys := by
  cases found : (ofList es).find? e.1 with
  | none => exact (not_mem_of_find?_ofList found (List.mem_map_of_mem member)).elim
  | some v => exact List.mem_map.mpr ⟨(e.1, v), mem_of_lookup found, rfl⟩

theorem foldl_insert_ofList : es.foldl (fun t e => t.insert e.1 e.2) (ofList es) = ofList es := by
  refine ext_of_find? (nodup_keys_foldl_insert List.nodup_nil)
    (keys_foldl_insert_known fun e member => mem_keys_ofList member) fun k => ?_
  rw [find?_foldl_insert]
  cases (ofList es).find? k <;> rfl

end Table

def Module.declarations (m : Module) : Declarations := m.decls.foldl Declarations.add {}

namespace Declarations

variable {D : Declarations} {decls : List Decl}

theorem template?_add (d : Decl) (kind : DeclKind) (n : String) :
    (D.add d).template? kind n = (({} : Declarations).add d |>.template? kind n).or
      (D.template? kind n) := by
  cases d <;> cases kind <;> simp only [add, template?, Table.find?_insert, Table.find?_empty,
    Option.map_none, Option.none_or]
  all_goals split <;> simp

theorem template?_foldl_add (kind : DeclKind) (n : String) :
    (decls.foldl add D).template? kind n =
      ((decls.foldl add {}).template? kind n).or (D.template? kind n) := by
  induction decls generalizing D with
  | nil => cases kind <;> simp [template?]
  | cons d rest ih =>
    rw [List.foldl_cons, List.foldl_cons, ih, ih (D := ({} : Declarations).add d),
      template?_add, Option.or_assoc]

def aliasEntries (decls : List Decl) : List (String × AliasDecl) :=
  decls.filterMap fun
    | .typeAlias a => some (a.name, a)
    | _ => none

theorem aliases_foldl_add :
    (decls.foldl add D).aliases =
      (aliasEntries decls).foldl (fun t e => t.insert e.1 e.2) D.aliases := by
  induction decls generalizing D with
  | nil => rfl
  | cons d rest ih =>
    rw [List.foldl_cons, ih]
    cases d <;> rfl

end Declarations

namespace Session

theorem registerAll_eq (m : Module) (s : Session) :
    s.registerAll m = { s with decls := m.decls.foldl Declarations.add s.decls } := by
  unfold registerAll
  generalize m.decls = decls
  induction decls generalizing s with
  | nil => rfl
  | cons d rest ih => rw [List.foldl_cons, ih]; rfl

theorem Onward.registerAll (m : Module) (s : Session) :
    Onward m.declarations s (s.registerAll m) := by
  rw [registerAll_eq]
  refine ⟨id, id, fun _ rests => ?_⟩
  have aliases : (m.decls.foldl Declarations.add s.decls).aliases = s.decls.aliases := by
    have own : m.declarations.aliases = Table.ofList (Declarations.aliasEntries m.decls) :=
      Declarations.aliases_foldl_add
    rw [Declarations.aliases_foldl_add, rests.settles.aliases, own, Table.foldl_insert_ofList]
  have same (kind : DeclKind) (n : String) :
      (m.decls.foldl Declarations.add s.decls).template? kind n = s.decls.template? kind n := by
    rw [Declarations.template?_foldl_add]
    cases found : (m.decls.foldl Declarations.add {}).template? kind n with
    | none => rfl
    | some t => exact (rests.settles.template? found).symm
  have settles : s.decls.Settles (m.decls.foldl Declarations.add s.decls) :=
    ⟨aliases, fun _ kind => same kind _⟩
  refine ⟨⟨rests.settles.trans settles, fun known => rests.made ?_,
    fun found => rests.derives ((same _ _).symm.trans found)⟩, settles⟩
  rcases Declarations.declares_iff.mp known with ⟨kind, t, found⟩ | ⟨a, found⟩
  · exact Declarations.declares_of_template? ((same kind _).symm.trans found)
  · exact Declarations.declares_iff.mpr (.inr ⟨a, aliases ▸ found⟩)

theorem Proceeds.onward {m : Module} {s s' : Session} (h : s.Proceeds m s') :
    Onward m.declarations s s' := by
  induction h with
  | refl => exact refl_of _ _
  | ask request _ ih =>
    exact trans_of _ ih ((Onward.lays.requested request).after _)
  | register _ ih => exact trans_of _ ih (.registerAll m _)
  | request base args name _ ih =>
    exact trans_of _ ih (.requested _ base args name)
  | begin base args name _ ih => exact trans_of _ ih (.begun _ base args name)
  | complete name _ ih => exact trans_of _ ih (.completed _ name)
  | note same _ ih => exact trans_of _ ih (.of_same same.decls same.instances)

theorem restsOn_start (m : Module) (options : Options) (collector : Option Collector) :
    RestsOn m.declarations (registerAll m (.ofOptions options collector)) := by
  rw [registerAll_eq]
  exact ⟨.refl, .inl, .declared⟩

theorem Over.restsOn {m : Module} {s : Session} (h : s.Over m)
    (separate : s.Separate m.declarations) : s.RestsOn m.declarations := by
  obtain ⟨options, collector, steps⟩ := h
  exact (steps.onward.settles separate (restsOn_start m options collector)).1

end Session

end Backend
