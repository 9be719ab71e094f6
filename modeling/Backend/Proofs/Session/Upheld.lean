import Backend.Proofs.Session.Over

/-!
Properties of what is laid out, in sessions over one module. Such a property depends on what names
mean, on the layouts and on the dispatch tables, and it may rely on names not clashing. If finding
slots, emitting tables and laying out types keep it, then it holds in every session over the module.
-/

namespace Backend

open Gen (Moves Keeps)

namespace Session

open Resolution

variable {D : Declarations} {Inv : Session → Prop} {Grows : Session → Session → Prop}

/-- The session goes on and the property is kept, as long as names do not clash. -/
structure Upholds (D : Declarations) (Inv : Session → Prop) (Grows : Session → Session → Prop)
    (s s' : Session) : Prop where
  onward : Onward D s s'
  kept : s'.Separate D → s.RestsOn D → Inv s → Inv s' ∧ Grows s s'

/-- A property that laying out types keeps, with a relation for what it grows by. -/
structure Upheld (D : Declarations) (Inv : Session → Prop) (Grows : Session → Session → Prop) :
    Prop where
  refl : ∀ s, Grows s s
  trans : ∀ {s₁ s₂ s₃}, Grows s₁ s₂ → Grows s₂ s₃ → Grows s₁ s₃
  still : ∀ {s s'}, s.decls.Settles s'.decls → s'.layouts = s.layouts →
    s'.output.dispatchTables = s.output.dispatchTables → Inv s → Inv s' ∧ Grows s s'
  slots : ∀ {levels n s s₁ name decl inherited}, s.decls.structs.find? name = some decl →
    inheritedSlots (resolveWithin levels) (dispatchLayoutWithin (resolveWithin levels) n)
      decl.parent s = .ok inherited s₁ →
    Onward D s s₁ → s₁.Separate D → s.RestsOn D → Inv s₁ →
    Inv (s₁.withSlots name (dispatchSlots inherited decl.methods)) ∧
      Grows s₁ (s₁.withSlots name (dispatchSlots inherited decl.methods))
  table : ∀ {levels s s₁ s₂ name slots entries},
    dispatchLayout (resolveWithin levels) name s = .ok slots s₁ →
    slots.mapM (tableEntry (resolveWithin levels) name) s₁ = .ok entries s₂ →
    s₂.Separate D → s₁.RestsOn D → Inv s₂ → Grows s₁ s₂ →
    Inv { s₂ with output := s₂.output.addDispatchTable { owner := name, entries } } ∧
      Grows s₂ { s₂ with output := s₂.output.addDispatchTable { owner := name, entries } }
  struct : ∀ {levels budget s s₁ name decl fields}, s.layouts.structs.find? name = none →
    s.decls.structs.find? name = some decl →
    whileDefining name "struct contains itself by value"
      (structFields (resolveWithin levels) (definerAt levels budget) name decl) s = .ok fields s₁ →
    Onward D s s₁ → s₁.Separate D → s.RestsOn D → Inv s₁ → ∀ extent,
    Inv (s₁.withStruct { name, fields, extent }) ∧ Grows s₁ (s₁.withStruct { name, fields, extent })
  enum : ∀ {s} layout, Inv s → Inv (s.withEnum layout) ∧ Grows s (s.withEnum layout)

namespace Upheld

variable (upheld : Upheld D Inv Grows) {s s' : Session}

include upheld

theorem isPreorder : IsPreorder Session (Upholds D Inv Grows) where
  refl s := ⟨refl_of _ s, fun _ _ inv => ⟨inv, upheld.refl s⟩⟩
  trans s s' s'' h h' := by
    refine ⟨trans_of _ h.onward h'.onward, fun separate rests inv => ?_⟩
    have separate' := h'.onward.separate separate
    obtain ⟨inv', grows⟩ := h.kept separate' rests inv
    obtain ⟨inv'', grows'⟩ := h'.kept separate (h.onward.settles separate' rests).1 inv'
    exact ⟨inv'', upheld.trans grows grows'⟩

theorem onward (onward : Onward D s s') (layouts : s'.layouts = s.layouts)
    (tables : s'.output.dispatchTables = s.output.dispatchTables) : Upholds D Inv Grows s s' where
  onward := onward
  kept separate rests := upheld.still (onward.settles separate rests).2 layouts tables

theorem same (same : s.SameTypes s') : Upholds D Inv Grows s s' :=
  upheld.onward (.of_same same.decls same.instances) same.layouts same.dispatchTables

theorem around {s₀ s₀' : Session} (h : Upholds D Inv Grows s₀ s₀') (before : s.SameTypes s₀)
    (after : s₀'.SameTypes s') : Upholds D Inv Grows s s' :=
  have := upheld.isPreorder
  trans_of (Upholds D Inv Grows) (trans_of _ (upheld.same before) h) (upheld.same after)

theorem andThen {s₁ : Session} (h : Upholds D Inv Grows s s₁) (decls : s'.decls = s₁.decls)
    (instances : s'.instances = s₁.instances)
    (kept : s₁.Separate D → s.RestsOn D → s₁.RestsOn D → Inv s → Inv s₁ →
      Inv s' ∧ Grows s₁ s') : Upholds D Inv Grows s s' where
  onward := h.onward.congr rfl rfl decls instances
  kept separate rests inv := by
    have separate₁ : s₁.Separate D := fun n known => separate n (instances ▸ known)
    obtain ⟨inv₁, grows₁⟩ := h.kept separate₁ rests inv
    obtain ⟨inv', grows'⟩ := kept separate₁ rests (h.onward.settles separate₁ rests).1 inv inv₁
    exact ⟨inv', upheld.trans grows₁ grows'⟩

theorem request (base : String) (args : List TypeRef) (body : Pending) :
    Keeps (.always (Upholds D Inv Grows)) (Gen.requestBody base args body) := fun s =>
  have run := Gen.requestBody_run base args body s
  .of_ok run (upheld.onward ((Onward.request base args body).of_ok run) rfl rfl)

theorem tabulate {levels : Nat} {s₁ s₂ : Session} {name : String} {slots : List String}
    {entries : List (IrType × String)}
    (run : dispatchLayout (resolveWithin levels) name s = .ok slots s₁)
    (ran : slots.mapM (tableEntry (resolveWithin levels) name) s₁ = .ok entries s₂)
    (h : Upholds D Inv Grows s s₁) (h' : Upholds D Inv Grows s₁ s₂) :
    Upholds D Inv Grows s
      { s₂ with output := s₂.output.addDispatchTable { owner := name, entries } } := by
  have := upheld.isPreorder
  have both : Upholds D Inv Grows s s₂ := trans_of (Upholds D Inv Grows) h h'
  refine upheld.andThen both rfl rfl fun separate rests _ inv inv₂ => ?_
  have separate₁ := h'.onward.separate separate
  have rests₁ := (h.onward.settles separate₁ rests).1
  have grows := (h'.kept separate rests₁ (h.kept separate₁ rests inv).1).2
  exact upheld.table run ran separate rests₁ inv₂ grows

theorem lays : Session.Lays (.always (Upholds D Inv Grows)) where
  forward := fun s name => upheld.same ⟨rfl, rfl, rfl, by
    unfold Output.addForward
    dsimp only
    split <;> rfl⟩
  request := fun _ => upheld.request _ _ _ _
  nest := fun h => upheld.around h ⟨rfl, rfl, rfl, rfl⟩ ⟨rfl, rfl, rfl, rfl⟩
  nestHalts := fun h => upheld.around h ⟨rfl, rfl, rfl, rfl⟩ ⟨rfl, rfl, rfl, rfl⟩
  mark := fun _ h => upheld.around h ⟨rfl, rfl, rfl, rfl⟩ ⟨rfl, rfl, rfl, rfl⟩
  markHalts := fun _ h => upheld.around h ⟨rfl, rfl, rfl, rfl⟩ ⟨rfl, rfl, rfl, rfl⟩
  slots := fun _ found run h => upheld.andThen h rfl rfl fun separate rests _ _ inv =>
    upheld.slots found run h.onward separate rests inv
  struct := fun level absent found _ run h => have := upheld.isPreorder
    level.finishes ((Resolution.describeStruct_keeps level.define
      (.tell fun _ _ => upheld.same ⟨rfl, rfl, rfl, rfl⟩)
      (fun _ _ _ => upheld.same ⟨rfl, rfl, rfl, rfl⟩) _ _ _).from
      (upheld.andThen h rfl rfl fun separate rests _ _ inv =>
        upheld.struct absent found run h.onward separate rests inv _)) upheld.tabulate
  enum := fun _ _ _ _ _ h => upheld.andThen h rfl rfl fun _ _ _ _ inv => upheld.enum _ inv
  make := fun makes _ _ h =>
    have := upheld.isPreorder
    trans_of (Upholds D Inv Grows)
      (trans_of (Upholds D Inv Grows) (upheld.onward (.withInstance makes) rfl rfl) h)
      (upheld.onward (.completed _ _) rfl rfl)
  makeHalts := fun makes h =>
    have := upheld.isPreorder
    trans_of (Upholds D Inv Grows) (upheld.onward (.withInstance makes) rfl rfl) h
  begin := fun _ => upheld.onward (.begun _ _ _ _) rfl rfl

end Upheld

variable {m : Module} {s s' : Session}

theorem Proceeds.upholds (upheld : Upheld m.declarations Inv Grows) (h : s.Proceeds m s') :
    Upholds m.declarations Inv Grows s s' := by
  have := upheld.isPreorder
  induction h with
  | refl => exact refl_of _ _
  | ask request _ ih =>
    exact trans_of _ ih ((upheld.lays.requested request).after _)
  | register _ ih =>
    exact trans_of _ ih (upheld.onward (.registerAll m _) (by rw [registerAll_eq])
      (by rw [registerAll_eq]))
  | request base args name _ ih =>
    exact trans_of _ ih (upheld.onward (.requested _ base args name) rfl rfl)
  | begin base args name _ ih =>
    exact trans_of _ ih (upheld.onward (.begun _ base args name) rfl rfl)
  | complete name _ ih => exact trans_of _ ih (upheld.onward (.completed _ name) rfl rfl)
  | note same _ ih => exact trans_of _ ih (upheld.same same)

theorem Over.upheld (upheld : Upheld m.declarations Inv Grows) (h : s.Over m)
    (separate : s.Separate m.declarations)
    (start : ∀ {s : Session}, s.layouts = {} → s.output.dispatchTables = {} → Inv s) : Inv s := by
  obtain ⟨options, collector, steps⟩ := h
  refine ((steps.upholds upheld).kept separate (restsOn_start m options collector) (start ?_ ?_)).1
  · rw [registerAll_eq]; rfl
  · rw [registerAll_eq]; rfl

end Session

end Backend
