import Backend.Proofs.Layout.Firm
import Backend.Proofs.Session.Reached

/-!
Structs as the collector is told of them. Main statement: `Session.Running.describes_layout`, in a
session that no fatal halt has ended and that has an active collector, exactly one call describes
each struct that is laid out, with the size of the struct and with its slots in their order, each at
its place. While a struct is being described, other types may be laid out and described; the members
are nevertheless measured as the struct was, because whatever it holds by value is laid out before.
-/

namespace Backend

open Gen (Keeps KeepsFrom GivesIn)
open Session (Later)

variable {α β : Type} {L L' : Layouts} {s s' : Session} {name : String}

/-! ### Steps that do not fail -/

/-- The step halts only fatally. -/
def Gen.Unfailing (x : Gen α) : Prop := ∀ s h s', x s = .error h s' → h.isFatal = true

theorem Gen.tell_inactive (inactive : s.activeCollector? = none) (call : DebugCall) :
    Gen.tell call s = .ok none s := by
  rw [Gen.tell, get_bind, inactive]
  rfl

theorem Gen.tell_active {c : Collector} (active : s.activeCollector? = some c) (call : DebugCall) :
    Gen.tell call s = .ok (some (c.reply s.debugCalls call))
      { s with debugCalls := s.debugCalls ++ [call] } := by
  rw [Gen.tell, get_bind, active]
  rfl

namespace Gen.Unfailing

theorem of_ok {x : Gen α} (run : ∀ s, ∃ a s', x s = .ok a s') : Unfailing x := by
  intro s h s' ran
  obtain ⟨a, s₁, ok⟩ := run s
  cases ok.symm.trans ran

theorem pure (a : α) : Unfailing (pure a : Gen α) := of_ok fun _ => ⟨_, _, rfl⟩

theorem word (n : Nat) : Unfailing (word n : Gen Nat) := by
  intro s h s' ran
  unfold Backend.word at ran
  split at ran <;> cases ran
  rfl

theorem bind {x : Gen α} {k : α → Gen β} (first : Unfailing x) (rest : ∀ a, Unfailing (k a)) :
    Unfailing (x >>= k) := by
  intro s h s' ran
  cases run : x s with
  | ok a s₁ =>
    rw [bind_of_ok run] at ran
    exact rest a _ _ _ ran
  | error e s₁ =>
    rw [bind_of_error run] at ran
    cases ran
    exact first _ _ _ run

theorem attempt (x : Gen α) : Unfailing (attempt x) := by
  intro s h s' ran
  rw [Gen.attempt, tryCatch_run] at ran
  split at ran
  · cases ran
  case h_2 e s₁ run => cases e <;> cases ran <;> rfl

theorem tell (call : DebugCall) : Unfailing (Gen.tell call) := by
  refine of_ok fun s => ?_
  cases active : s.activeCollector? with
  | none => exact ⟨_, _, tell_inactive active call⟩
  | some c => exact ⟨_, _, tell_active active call⟩

end Gen.Unfailing

namespace Resolution

variable (define : Definer)

theorem extentOrNone_unfailing (ty : IrType) : (extentOrNone define ty).Unfailing := by
  refine (Gen.Unfailing.attempt _).bind fun result => ?_
  cases result <;> exact .pure _

theorem bitSize_unfailing (ty : IrType) : (bitSize define ty).Unfailing :=
  (extentOrNone_unfailing define ty).bind fun _ => .word _

theorem describeType_unfailing (ty : IrType) : (describeType define ty).Unfailing := by
  have plain (ty : IrType) :
      (bitSize define ty >>= fun bits => Gen.tell (describePlain ty bits)).Unfailing :=
    (bitSize_unfailing define ty).bind fun _ => .tell _
  have named (ty : IrType) (name : String) :
      (describeType.describeNamed define ty name).Unfailing := by
    refine Gen.Unfailing.bind (.of_ok fun _ => ⟨_, _, rfl⟩) fun s => ?_
    split
    · exact .pure _
    · exact plain ty
  cases ty with
  | ptr inner => exact (describeType_unfailing inner).bind fun _ => .tell _
  | array length inner =>
    exact (bitSize_unfailing define _).bind fun _ =>
      (describeType_unfailing inner).bind fun _ => .tell _
  | struct name => exact named _ _
  | enum name => exact named _ _
  | _ => exact plain _

theorem describeMembers_unfailing (fields : List (String × IrType)) (offset align : Nat) :
    (describeMembers define fields offset align).Unfailing := by
  induction fields generalizing offset align with
  | nil => exact .pure _
  | cons field rest ih =>
    refine (extentOrNone_unfailing define _).bind fun _ => (Gen.Unfailing.word _).bind fun _ => ?_
    refine (describeType_unfailing define _).bind fun _ => (Gen.Unfailing.word _).bind fun _ => ?_
    refine (Gen.Unfailing.word _).bind fun _ => (Gen.Unfailing.word _).bind fun _ => ?_
    exact (ih _ _).bind fun _ => .pure _

theorem describeStruct_unfailing (name : String) (fields : List (String × IrType))
    (location : Location) : (describeStruct define name fields location).Unfailing := by
  refine Gen.Unfailing.bind (.of_ok fun _ => ⟨_, _, rfl⟩) fun _ => ?_
  split
  · refine (describeMembers_unfailing define _ _ _).bind fun _ => ?_
    refine (Gen.Unfailing.tell _).bind fun _ => (Gen.Unfailing.word _).bind fun _ => ?_
    refine (Gen.Unfailing.word _).bind fun _ => (Gen.Unfailing.tell _).bind fun _ => ?_
    exact .of_ok fun _ => ⟨_, _, rfl⟩
  · exact .pure _

end Resolution

/-! ### Descriptions -/

/-- The members are named as the fields and lie where the extents put them. -/
structure Members (fields : List (String × IrType)) (offset : Nat) (es : List Extent)
    (members : List DebugMember) : Prop where
  names : members.map DebugMember.name = fields.map Prod.fst
  offsets : members.map DebugMember.offset = (spans offset es).map fun p => 8 * p.start
  sizes : members.map DebugMember.size = es.map fun e => 8 * e.size

/-- The types have these extents. -/
def Layouts.Extents (L : Layouts) : List IrType → List Extent → Prop :=
  List.Forall₂ fun ty e => L.typeExtent ty = .ok e

/-- The call tells how the struct is laid out. -/
def StructLayout.DescribedBy (layout : StructLayout) (L : Layouts) (call : DebugCall) : Prop :=
  ∃ bits file line members es, call = .struct layout.name bits file line members ∧
    L.Extents layout.types es ∧ layout.extent = .ok (.together es) ∧
    bits = 8 * (Extent.together es).size ∧ Members layout.fields 0 es members

theorem Layouts.Extents.grown {types : List IrType} {es : List Extent} (h : L.Extents types es)
    (grows : L.Grows L') (held : ∀ p ∈ allEmbedded types, L.contains p.1 p.2 = true) :
    L'.Extents types es := by
  induction h with
  | nil => exact .nil
  | cons first later ih =>
    refine .cons ?_ (ih fun p member => held p (List.mem_append_right _ member))
    rw [grows.typeExtent_eq _ fun p member => held p (List.mem_append_left _ member)]
    exact first

theorem Gen.extent_laid (firm : s.layouts.Firm) {ty : IrType} {e : Extent}
    (h : s.layouts.typeExtent ty = .ok e) (sized : ty.isSized = true)
    (held : ∀ p ∈ ty.embedded, s.layouts.contains p.1 p.2 = true) :
    Gen.extent ty s = .ok e s := by
  have given : GivesIn s true (Gen.extent ty) (s.layouts.typeExtent ty) :=
    Resolution.extent_givesIn Resolution.define_givesIn firm sized held
  rw [h] at given
  exact given.run

theorem Layouts.Extents.asked {types : List IrType} {es : List Extent} (firm : s.layouts.Firm)
    (h : s.layouts.Extents types es) (sized : allSized types = true)
    (held : ∀ p ∈ allEmbedded types, s.layouts.contains p.1 p.2 = true) :
    List.Forall₂ (fun ty e => Gen.extent ty s = .ok e s) types es := by
  induction h with
  | nil => exact .nil
  | cons first later ih =>
    obtain ⟨sizedFirst, sizedLater⟩ := Bool.and_eq_true_iff.mp sized
    refine .cons ?_ (ih sizedLater fun p member => held p (List.mem_append_right _ member))
    refine Gen.extent_laid firm first sizedFirst fun p member => ?_
    exact held p (List.mem_append_left _ member)

theorem StructLayout.DescribedBy.grown {layout : StructLayout} {call : DebugCall}
    (h : layout.DescribedBy L call) (grows : L.Grows L')
    (held : ∀ p ∈ allEmbedded layout.types, L.contains p.1 p.2 = true) :
    layout.DescribedBy L' call := by
  obtain ⟨bits, file, line, members, es, same, extents, rest⟩ := h
  exact ⟨bits, file, line, members, es, same, extents.grown grows held, rest⟩

def structCalls (name : String) (calls : List DebugCall) : List DebugCall :=
  calls.filter fun call => call.struct? = some name

/-- Structs have a number once they are described, and are described once. -/
structure Told (L : Layouts) (types : Table Nat) (calls : List DebugCall) : Prop where
  firm : L.Firm
  laid : ∀ {name}, types.contains name = true → L.structs.contains name = true
  described : ∀ {name layout}, L.structs.find? name = some layout → types.contains name = true →
    ∃ call, structCalls name calls = [call] ∧ layout.DescribedBy L call
  untold : ∀ {name}, types.contains name = false → structCalls name calls = []

abbrev Session.Informed (s : Session) : Prop := Told s.layouts s.debugTypes s.debugCalls

namespace Told

variable {types : Table Nat} {calls : List DebugCall} (told : Told L types calls)

include told

theorem tell {call : DebugCall} (other : call.struct? = none) : Told L types (calls ++ [call]) := by
  have same (name : String) : structCalls name (calls ++ [call]) = structCalls name calls := by
    simp [structCalls, other]
  refine ⟨told.firm, told.laid, fun found numbered => ?_, fun numbered => ?_⟩
  · rw [same]
    exact told.described found numbered
  · rw [same]
    exact told.untold numbered

theorem withStruct {layout : StructLayout} (absent : L.structs.find? layout.name = none)
    (extent : layout.extent = L.aggregate layout.types) (sized : allSized layout.types = true)
    (held : ∀ p ∈ allEmbedded layout.types, L.contains p.1 p.2 = true) :
    Told { L with structs := L.structs.insert layout.name layout } types calls := by
  have grows := Layouts.Grows.insertStruct absent
  refine ⟨told.firm.withStruct absent extent sized held,
    fun {n} numbered => ?_, fun {n l} found numbered => ?_, told.untold⟩
  · have known : L.contains .struct n = true := told.laid numbered
    exact grows.contains known
  obtain ⟨old, known⟩ := Option.isSome_iff_exists.mp (told.laid numbered)
  obtain rfl := Option.some.inj ((grows.structs known).symm.trans found)
  obtain ⟨call, once, described⟩ := told.described known numbered
  exact ⟨call, once, described.grown grows (told.firm.held known)⟩

theorem withEnum {layout : EnumLayout} (absent : L.enums.find? layout.name = none)
    (extent : layout.extent = L.aggregate layout.types) :
    Told { L with enums := L.enums.insert layout.name layout } types calls := by
  have grows := Layouts.Grows.insertEnum absent
  refine ⟨told.firm.withEnum absent extent, told.laid, fun found numbered => ?_, told.untold⟩
  obtain ⟨call, once, described⟩ := told.described found numbered
  exact ⟨call, once, described.grown grows (told.firm.held found)⟩

/-- A struct that has no number is described, and gets one. -/
theorem describe {layout : StructLayout} {call : DebugCall} (new : types.contains name = false)
    (found : L.structs.find? name = some layout) (named : layout.name = name)
    (described : layout.DescribedBy L call) (id : Nat) :
    Told L (types.insert name id) (calls ++ [call]) := by
  have tells : call.struct? = some name := by
    obtain ⟨bits, file, line, members, es, rfl, -⟩ := described
    rw [← named]
    rfl
  have others {n : String} (other : name ≠ n) :
      structCalls n (calls ++ [call]) = structCalls n calls := by
    simp [structCalls, tells, other]
  refine ⟨told.firm, fun {n} numbered => ?_, fun {n l} known numbered => ?_, fun {n} numbered => ?_⟩
  · by_cases same : name = n
    · exact same ▸ Option.isSome_iff_exists.mpr ⟨layout, found⟩
    · exact told.laid (by simpa [Table.contains, same] using numbered)
  · by_cases same : name = n
    · subst same
      obtain rfl := Option.some.inj (found.symm.trans known)
      refine ⟨call, ?_, described⟩
      have before := told.untold new
      simp only [structCalls, List.filter_append] at before ⊢
      simp [before, tells]
    · rw [others same]
      exact told.described known (by simpa [Table.contains, same] using numbered)
  · have other : name ≠ n := by
      rintro rfl
      simp [Table.contains] at numbered
    rw [others other]
    exact told.untold (by simpa [Table.contains, other] using numbered)

end Told

namespace Session

/-- What may happen to a session whose structs are described. A struct that is new has been
described; one that is laid out already is not described any more, unless that is under way. -/
structure Tells (s s' : Session) : Prop where
  later : s.Later s'
  collector : s'.activeCollector? = s.activeCollector?
  told : s.Informed → s'.Informed
  numbered : s.activeCollector?.isSome = true → ∀ {name},
    s'.layouts.structs.contains name = true → (s'.debugTypes.contains name = true ↔
      (s.layouts.structs.contains name = true → s.debugTypes.contains name = true))

/-- What descriptions depend on. -/
def story (s : Session) : Layouts × List String × Option Collector × Table Nat × List DebugCall :=
  (s.layouts, s.defining, s.activeCollector?, s.debugTypes, s.debugCalls)

namespace Tells

variable {s₁ s₂ : Session}

theorem laid (h : s.Tells s') (laid : s.layouts.structs.contains name = true) :
    s'.layouts.structs.contains name = true :=
  have known : s.layouts.contains .struct name = true := laid
  h.later.grows.contains known

theorem of_same (same : s'.story = s.story) : s.Tells s' := by
  obtain ⟨layouts, defining, collector, types, calls⟩ : s'.layouts = s.layouts ∧
      s'.defining = s.defining ∧ s'.activeCollector? = s.activeCollector? ∧
      s'.debugTypes = s.debugTypes ∧ s'.debugCalls = s.debugCalls := by
    simpa [story] using same
  refine ⟨.of_same (by rw [layouts]) (by rw [layouts]) defining, collector, ?_, fun _ _ laid => ?_⟩
  · rw [Informed, Informed, layouts, types, calls]
    exact id
  · rw [layouts] at laid
    rw [types]
    exact ⟨fun numbered _ => numbered, fun numbered => numbered laid⟩

theorem numbered_if_laid (h : s.Tells s') (active : s.activeCollector?.isSome = true)
    (name : String) :
    (s'.layouts.structs.contains name = true → s'.debugTypes.contains name = true) ↔
      (s.layouts.structs.contains name = true → s.debugTypes.contains name = true) := by
  by_cases known : s'.layouts.structs.contains name = true
  · rw [← h.numbered active known]
    exact ⟨fun numbered => numbered known, fun numbered _ => numbered⟩
  · exact ⟨fun _ before => (known (h.laid before)).elim, fun _ after => (known after).elim⟩

instance : IsPreorder Session Tells where
  refl _ := of_same rfl
  trans s s₁ s₂ h h' := {
    later := h.later.trans h'.later
    collector := h'.collector.trans h.collector
    told := fun told => h'.told (h.told told)
    numbered := by
      intro active name laid
      rw [h'.numbered (h.collector ▸ active) laid]
      exact h.numbered_if_laid active name }

theorem around {s₀ s₀' : Session} (h : s₀.Tells s₀') (before : s.Tells s₀) (after : s₀'.Tells s') :
    s.Tells s' :=
  trans_of Tells (trans_of Tells before h) after

theorem unmarked (h : { s with defining := name :: s.defining }.Tells s') :
    s.Tells { s' with defining := s'.defining.erase name } :=
  ⟨h.later.unmarked, h.collector, h.told, h.numbered⟩

theorem withSlots (s : Session) (name : String) (slots : List String) :
    s.Tells (s.withSlots name slots) where
  later := .of_same rfl rfl rfl
  collector := rfl
  told := fun told => ⟨⟨told.firm.sized, told.firm.held, told.firm.extents⟩, told.laid,
    told.described, told.untold⟩
  numbered := fun _ _ laid => ⟨fun numbered _ => numbered, fun numbered => numbered laid⟩

end Tells

/-- Failures may be recovered from, and nothing is asked of fatal halts. -/
def telling : Course := ⟨Tells, fun fatal s s' => fatal = false → Tells s s'⟩

instance : telling.Lawful where
  refl := refl_of Tells
  trans := trans_of Tells
  stop _ s _ := refl_of Tells s
  after h h' failed := trans_of Tells h (h' failed)

instance : telling.Recovers := ⟨fun h => h rfl⟩

theorem telling.tell (call : DebugCall) (other : call.struct? = none) :
    Keeps telling (Gen.tell call) := by
  intro s
  cases active : s.activeCollector? with
  | none => exact .of_ok (Gen.tell_inactive active call) (refl_of Tells s)
  | some c =>
    refine .of_ok (Gen.tell_active active call) ⟨.of_same rfl rfl rfl, rfl, fun told => ?_, ?_⟩
    · exact told.tell other
    · exact fun _ _ laid => ⟨fun numbered _ => numbered, fun numbered => numbered laid⟩

end Session

/-! ### A struct is described -/

theorem Gen.word_fits {n m : Nat} (run : (word n : Gen Nat) s = .ok m s') :
    (word n : Except Halt Nat) = .ok n := by
  unfold word at run ⊢
  split at run
  case isTrue fits => rw [if_pos fits]; rfl
  case isFalse => cases run

namespace Resolution

variable {define : Definer} {fields : List (String × IrType)}

theorem extentOrNone_ok {ty : IrType} {e : Extent}
    (given : GivesIn s false (extent define ty) (L.typeExtent ty))
    (run : extentOrNone define ty s = .ok e s') : s' = s ∧ L.typeExtent ty = .ok e := by
  obtain ⟨result, s₁, tried, done⟩ := Gen.bind_ok run
  rw [Gen.attempt, Gen.tryCatch_run] at tried
  simp only [Functor.map, EStateM.map] at tried
  rw [GivesIn] at given
  cases asked : extent define ty s with
  | ok e' s₂ =>
    rw [asked] at given tried
    cases tried
    obtain ⟨rfl, rfl⟩ := Gen.pure_ok done
    exact given
  | error h s₂ =>
    rw [asked] at given tried
    cases h with
    | failed e' => cases given.1
    | overflow => cases tried
    | exhausted => cases tried

theorem describeMembers_ok (described : ∀ ty, Keeps Session.telling (describeType define ty))
    (asked : ∀ {s kind name}, s.layouts.contains kind name = true →
      GivesIn s false (define kind name) (.ok ()))
    (sized : allSized (fields.map Prod.snd) = true)
    (held : ∀ p ∈ allEmbedded (fields.map Prod.snd), L.contains p.1 p.2 = true)
    {offset align stop strictest : Nat} (positive : 1 ≤ align) {members : List DebugMember}
    (told : s.Informed) (grows : L.Grows s.layouts)
    (run : describeMembers define fields offset align s = .ok (members, stop, strictest) s') :
    ∃ es, L.Extents (fields.map Prod.snd) es ∧ Members fields offset es members ∧
      Extent.pack L.extent? (fields.map Prod.snd) offset align = .ok (stop, strictest) ∧
      stop = Extent.endFrom offset es ∧ strictest = max align (Extent.strictest es) := by
  induction fields generalizing offset align s members with
  | nil =>
    obtain ⟨same, rfl⟩ := Gen.pure_ok run
    cases same
    exact ⟨[], .nil, ⟨rfl, rfl, rfl⟩, rfl, rfl, (Nat.max_eq_left positive).symm⟩
  | cons field rest ih =>
    obtain ⟨name, ty⟩ := field
    obtain ⟨first, later⟩ := Bool.and_eq_true_iff.mp sized
    have heldFirst := fun p member => held p (List.mem_append_left _ member)
    obtain ⟨e, s₁, measured, run₁⟩ := Gen.bind_ok run
    have given := extent_givesIn asked told.firm first fun p member =>
      grows.contains (heldFirst p member)
    rw [grows.typeExtent_eq _ heldFirst] at given
    obtain ⟨rfl, extent⟩ := extentOrNone_ok given measured
    obtain ⟨start, s₂, started, run₂⟩ := Gen.bind_ok run₁
    obtain ⟨rfl, rfl⟩ := Gen.word_ok started
    obtain ⟨type, s₃, typed, run₃⟩ := Gen.bind_ok run₂
    have tells := (described ty).goes typed
    obtain ⟨bits, s₄, counted, run₄⟩ := Gen.bind_ok run₃
    obtain ⟨rfl, rfl⟩ := Gen.word_ok counted
    obtain ⟨size, s₅, sizes, run₅⟩ := Gen.bind_ok run₄
    obtain ⟨rfl, rfl⟩ := Gen.word_ok sizes
    obtain ⟨next, s₆, ended, run₆⟩ := Gen.bind_ok run₅
    obtain ⟨rfl, rfl⟩ := Gen.word_ok ended
    obtain ⟨⟨others, last⟩, s₇, ran, done⟩ := Gen.bind_ok run₆
    obtain ⟨same, rfl⟩ := Gen.pure_ok done
    cases same
    obtain ⟨es, extents, shown, packed, rfl, rfl⟩ := ih later
      (fun p member => held p (List.mem_append_right _ member))
      (Nat.le_trans positive (Nat.le_max_left align e.align)) (tells.told told)
      (grows.trans tells.later.grows) ran
    refine ⟨e :: es, .cons extent extents, ⟨?_, ?_, ?_⟩, ?_, rfl, max_strictest align e es⟩
    · rw [List.map_cons, shown.names]
      rfl
    · rw [List.map_cons, shown.offsets, spans, List.map_cons, Nat.mul_comm 8]
    · rw [List.map_cons, shown.sizes, List.map_cons, Nat.mul_comm 8]
    · have placed : (Extent.place offset e : Except Halt Nat) =
          .ok (alignTo offset e.align + e.size) := by
        rw [Extent.place, Gen.word_fits started]
        exact Gen.word_fits ended
      have sizedFirst : Extent.ofType L.extent? ty = .ok e := extent
      rw [List.map_cons, Extent.pack, sizedFirst]
      change (Extent.place offset e >>= fun next =>
        Extent.pack L.extent? (rest.map Prod.snd) next (max align e.align)) = _
      rw [placed]
      exact packed

theorem aggregate_ok {types : List IrType} {stop strictest size : Nat}
    (packed : Extent.pack L.extent? types 0 1 = .ok (stop, strictest))
    (rounded : (word (alignTo stop strictest) : Gen Nat) s = .ok size s') :
    L.aggregate types = .ok ⟨alignTo stop strictest, strictest⟩ := by
  rw [Layouts.aggregate, Extent.aggregate, Extent.ofType, packed]
  change (Extent.closing stop strictest : Except Halt Extent) = _
  rw [Extent.closing, Gen.word_fits rounded]
  rfl

/-- What is told of a struct, once its members are measured. -/
theorem describedBy {layout : StructLayout} {stop strictest size file line : Nat} {v v' : Session}
    {members : List DebugMember}
    (described : ∀ ty, Keeps Session.telling (describeType define ty))
    (asked : ∀ {s kind name}, s.layouts.contains kind name = true →
      GivesIn s false (define kind name) (.ok ()))
    (extent : layout.extent = L.aggregate layout.types) (sized : allSized layout.types = true)
    (held : ∀ p ∈ allEmbedded layout.types, L.contains p.1 p.2 = true)
    (told : s.Informed) (grows : L.Grows s.layouts)
    (measured : describeMembers define layout.fields 0 1 s = .ok (members, stop, strictest) s')
    (rounded : (word (alignTo stop strictest) : Gen Nat) v = .ok size v') (later : L.Grows L') :
    layout.DescribedBy L' (.struct layout.name (8 * alignTo stop strictest) file line members) := by
  obtain ⟨es, extents, shown, packed, rfl, rfl⟩ :=
    describeMembers_ok described asked sized held (Nat.le_refl 1) told grows measured
  rw [Nat.max_eq_right (Extent.one_le_strictest es)] at packed rounded ⊢
  exact ⟨_, file, line, members, es, rfl, extents.grown later held,
    extent.trans (aggregate_ok packed rounded), rfl, shown⟩

/-- The steps of a description that an active collector gets. -/
theorem describeStruct_active {location : Location} (active : s.activeCollector?.isSome = true)
    (run : describeStruct define name fields location s = .ok () s') :
    ∃ members stop strictest size file s₁ s₂ id s₃,
      describeMembers define fields 0 1 s = .ok (members, stop, strictest) s₁ ∧
      Gen.tell (.file location.file) s₁ = .ok file s₂ ∧
      (word (alignTo stop strictest) : Gen Nat) s₂ = .ok size s₂ ∧
      Gen.tell (.struct name (8 * alignTo stop strictest) (file.getD 0) location.line members) s₂ =
        .ok id s₃ ∧
      s' = { s₃ with debugTypes := s₃.debugTypes.insert name (id.getD 0) } := by
  obtain ⟨now, s₁, got, run₁⟩ := Gen.bind_ok run
  cases got
  rw [if_pos active] at run₁
  obtain ⟨⟨members, stop, strictest⟩, s₂, measured, run₂⟩ := Gen.bind_ok run₁
  obtain ⟨file, s₃, opened, run₃⟩ := Gen.bind_ok run₂
  obtain ⟨size, s₄, rounded, run₄⟩ := Gen.bind_ok run₃
  obtain ⟨rfl, rfl⟩ := Gen.word_ok rounded
  obtain ⟨bits, s₅, counted, run₅⟩ := Gen.bind_ok run₄
  obtain ⟨rfl, rfl⟩ := Gen.word_ok counted
  obtain ⟨id, s₆, told, numbered⟩ := Gen.bind_ok run₅
  rw [Nat.mul_comm] at told
  cases numbered
  exact ⟨members, stop, strictest, _, file, s₂, _, id, s₆, measured, opened, rounded, told, rfl⟩

end Resolution

namespace Session.Tells

open Resolution

variable {s₁ : Session} {fields : List (String × IrType)} {decl : StructDecl} {levels budget : Nat}

/-- What is known of a struct whose slots have been found. -/
theorem slots_firm {context : String}
    (run : whileDefining name context
      (structFields (resolveWithin levels) (definerAt levels budget) name decl) s = .ok fields s₁)
    (firm : s₁.layouts.Firm) : allSized (fields.map Prod.snd) = true ∧
      ∀ p ∈ allEmbedded (fields.map Prod.snd), s₁.layouts.contains p.1 p.2 = true := by
  have level := Later.level levels budget
  obtain ⟨-, -, -, _, s₃, inner, layouts⟩ := whileDefining_ok (level.structFields name decl) run
  rw [layouts] at firm ⊢
  constructor
  · refine allSized_iff.mpr (structFields_give sized_structural level inner fun found => ?_)
    exact allSized_iff.mp (firm.sized found)
  · exact structFields_laid (defineWithin_delivers levels budget) inner fun found => firm.held found

/-- A struct is added, other things happen, and then it is described and gets its number. -/
theorem numbering {layout : StructLayout} {call : DebugCall} {v : Session} (h : s.Tells s₁)
    (later : s.Later (s₁.withStruct layout))
    (absent : s₁.layouts.structs.find? layout.name = none)
    (active : s₁.activeCollector?.isSome = true) (tells : (s₁.withStruct layout).Tells v)
    (added : s₁.Informed → (s₁.withStruct layout).Informed)
    (described : s₁.Informed → layout.DescribedBy v.layouts call)
    (id : Nat) : s.Tells { v with
      debugCalls := v.debugCalls ++ [call], debugTypes := v.debugTypes.insert layout.name id } := by
  have found : (s₁.withStruct layout).layouts.structs.find? layout.name = some layout := by
    rw [withStruct, Table.find?_insert, if_pos rfl]
  have laid := Option.isSome_iff_exists.mpr ⟨layout, found⟩
  have missing : ¬ s₁.layouts.structs.contains layout.name = true := by
    rw [Table.contains, absent]
    exact Bool.false_ne_true
  refine ⟨later.trans (tells.later.trans (.of_same rfl rfl rfl)),
    tells.collector.trans h.collector, fun told => ?_, fun listens n now => ?_⟩
  · have told₁ := h.told told
    have new : v.debugTypes.contains layout.name = false := by
      refine Bool.eq_false_iff.mpr fun numbered => missing (told₁.laid ?_)
      exact (tells.numbered active (tells.laid laid)).mp numbered laid
    exact (tells.told (added told₁)).describe new (tells.later.grows.structs found) rfl
      (described told₁) id
  · by_cases same : layout.name = n
    · subst same
      exact ⟨fun _ before => (missing (h.laid before)).elim,
        fun _ => Table.contains_insert_self _ _ _⟩
    · have others : (v.debugTypes.insert layout.name id).contains n = v.debugTypes.contains n := by
        simp [Table.contains, same]
      have before : (s₁.withStruct layout).layouts.structs.contains n =
          s₁.layouts.structs.contains n := by
        simp [withStruct, Table.contains, same]
      rw [others, tells.numbered active now, before]
      exact h.numbered_if_laid listens n

theorem struct (level : Level telling levels budget) (absent : s.layouts.structs.find? name = none)
    (run : whileDefining name "struct contains itself by value"
      (structFields (resolveWithin levels) (definerAt levels budget) name decl) s = .ok fields s₁)
    (h : s.Tells s₁) : KeepsFrom telling s
      (s₁.withStruct { name, fields, extent := s₁.layouts.aggregate (fields.map Prod.snd) })
      (describeStruct (definerAt levels budget) name fields decl.location) := by
  have later := h.later.structAdded (Later.level levels budget) absent run
  obtain ⟨-, same, -⟩ :=
    whileDefining_ok ((Later.level levels budget).structFields name decl) run
  have absent₁ : s₁.layouts.structs.find? name = none := same.trans absent
  let layout : StructLayout :=
    { name, fields, extent := s₁.layouts.aggregate (fields.map Prod.snd) }
  have added (told : s₁.Informed) : (s₁.withStruct layout).Informed := by
    obtain ⟨sized, held⟩ := slots_firm run told.firm
    exact told.withStruct absent₁ rfl sized held
  change KeepsFrom telling s (s₁.withStruct layout) _
  rw [KeepsFrom]
  cases ran : describeStruct (definerAt levels budget) name fields decl.location
      (s₁.withStruct layout) with
  | error e s' =>
    have fatal := describeStruct_unfailing _ _ _ _ _ _ _ ran
    exact fun failed => by cases fatal.symm.trans failed
  | ok _ s' =>
    cases active : s₁.activeCollector? with
    | none =>
      have quiet : (s₁.withStruct layout).activeCollector? = none := active
      cases (describeStruct_quiet quiet).symm.trans ran
      refine ⟨later, h.collector, fun told => added (h.told told), fun listens => ?_⟩
      rw [← h.collector, active] at listens
      cases listens
    | some c =>
      have listens : (s₁.withStruct layout).activeCollector?.isSome = true :=
        Option.isSome_iff_exists.mpr ⟨c, active⟩
      obtain ⟨members, stop, strictest, size, file, s₂, v, id, s₃, measured, opened, rounded, told,
        rfl⟩ := describeStruct_active listens ran
      have membersTell : (s₁.withStruct layout).Tells s₂ :=
        (describeMembers_keeps level.define telling.tell _ _ _).goes measured
      have tells : (s₁.withStruct layout).Tells v :=
        trans_of Tells membersTell ((telling.tell _ rfl).goes opened)
      cases (Gen.tell_active (tells.collector.trans active) _).symm.trans told
      refine numbering h later absent₁ listens tells added (fun told => ?_) _
      obtain ⟨sized, held⟩ := slots_firm run told.firm
      have grows : s₁.layouts.Grows (s₁.withStruct layout).layouts := .insertStruct absent₁
      exact describedBy (describeType_keeps level.define telling.tell)
        (fun known => definerAt_givesIn known budget) rfl sized held (added told) grows measured
        rounded (grows.trans tells.later.grows)

end Session.Tells

/-! ### Every session -/

namespace Session

theorem telling.lays : Session.Lays telling where
  forward _ _ := .of_same rfl
  request _ := .of_ok (Gen.requestBody_run ..) (.of_same rfl)
  nest h := h.around (.of_same rfl) (.of_same rfl)
  nestHalts h failed := (h failed).around (.of_same rfl) (.of_same rfl)
  mark _ h := h.unmarked
  markHalts _ h failed := (h failed).unmarked
  slots _ _ _ h := trans_of Tells h (.withSlots _ _ _)
  struct level absent _ _ run h := level.finishes (Tells.struct level absent run h)
    fun _ _ h h' => h'.around h (.of_same rfl)
  enum := by
    intro levels budget s s₁ name decl variants dataSize _ absent found plain run h
    have level := Later.level levels budget
    obtain ⟨-, -, same, -⟩ := Resolution.whileDefining_ok (level.variantLayouts decl.variants) run
    exact ⟨Later.lays.enum level absent found plain run h.later, h.collector,
      fun told => (h.told told).withEnum (same.trans absent) rfl, h.numbered⟩
  make _ _ _ h := h.around (.of_same rfl) (.of_same rfl)
  makeHalts _ h failed := (h failed).around (.of_same rfl) (refl_of Tells _)
  begin _ failed := by cases failed

theorem telling.generates : Session.Generates telling where
  toReplies := lays.replies
  tell := telling.tell
  internString _ _ := .of_same rfl
  freshLambda _ := .of_same rfl
  environment _ _ _ := .of_same rfl
  queueLambda _ _ _ _ := .of_same rfl
  instantiate := lays.instantiated
  queueMethods := lays.queueMethods
  beginInstance _ _ _ _ := .of_same rfl
  completeInstance _ _ := .of_same rfl
  activate _ h := h.around (.of_same rfl) (.of_same rfl)
  activateHalts _ h failed := (h failed).around (.of_same rfl) (.of_same rfl)
  dequeue _ _ := .of_same rfl
  own _ _ _ := .of_same rfl
  declare _ _ := .of_same rfl
  addFunction _ _ _ _ := .of_same rfl
  register _ _ := .of_same rfl

/-- A session that has been asked for anything, where no operation has ended in a fatal halt. -/
inductive Running : Session → Prop where
  | start (options : Options) (collector : Option Collector) :
    Running (.ofOptions options collector)
  | register {s : Session} (d : Decl) (h : Running s) : Running (s.register d)
  | step {α : Type} {x : Gen α} {s : Session} (operation : x.Operation) (h : Running s)
    (survived : ∀ halt s', x s = .error halt s' → halt.isFatal = false) : Running (x.after s)

theorem Running.tells (h : s.Running) :
    ∃ options collector, Tells (.ofOptions options collector) s := by
  induction h with
  | start options collector => exact ⟨options, collector, refl_of Tells _⟩
  | register d _ ih =>
    obtain ⟨options, collector, tells⟩ := ih
    exact ⟨options, collector, trans_of Tells tells (telling.generates.register _ d)⟩
  | @step α x s operation _ survived ih =>
    obtain ⟨options, collector, tells⟩ := ih
    refine ⟨options, collector, trans_of Tells tells ?_⟩
    have kept := telling.generates.operation operation s
    rw [KeepsFrom] at kept
    cases run : x s with
    | ok a s' =>
      rw [run] at kept
      rw [Gen.after_of_ok run]
      exact kept
    | error halt s' =>
      rw [run] at kept
      rw [Gen.after_of_error run]
      exact kept (survived halt s' run)

theorem told_start (options : Options) (collector : Option Collector) :
    (ofOptions options collector).Informed := by
  refine ⟨⟨fun found => ?_, fun found => ?_, fun {kind name} laid => ?_⟩, fun numbered => ?_,
    fun found => ?_, fun _ => rfl⟩
  · cases found
  · cases found
  · cases kind <;> cases laid
  · cases numbered
  · cases found

/-- The collector has been told of the struct once: its size, and its slots in their order, each
where it lies among the others. Sizes are as the session gives them, and in bits. -/
def Describes (s : Session) (name : String) (layout : StructLayout) : Prop :=
  ∃ file line members es,
    structCalls name s.debugCalls =
      [.struct name (8 * (Extent.together es).size) file line members] ∧
    Gen.sizeOf (.struct name) s = .ok (Extent.together es).size s ∧
    List.Forall₂ (fun ty e => Gen.extent ty s = .ok e s) layout.types es ∧
    Members layout.fields 0 es members

/-- While a session runs and a collector listens, every struct that has been laid out has been
described, once and as it was laid out. -/
theorem Running.describes_layout (h : s.Running) (active : s.activeCollector?.isSome = true)
    {name : String} {layout : StructLayout} (laid : s.layouts.structs.find? name = some layout) :
    s.Describes name layout := by
  obtain ⟨options, collector, tells⟩ := h.tells
  have told := tells.told (told_start options collector)
  have known : s.layouts.contains .struct name = true := Option.isSome_iff_exists.mpr ⟨layout, laid⟩
  have listens := tells.collector ▸ active
  have numbered : s.debugTypes.contains name = true :=
    (tells.numbered listens known).mpr fun before => by cases before
  obtain ⟨call, once, bits, file, line, members, es, rfl, extents, whole, rfl, shown⟩ :=
    told.described laid numbered
  have named : layout.name = name := by
    have member := List.mem_singleton_self (DebugCall.struct layout.name
      (8 * (Extent.together es).size) file line members)
    rw [← once, structCalls, List.mem_filter] at member
    exact Option.some.inj (of_decide_eq_true member.2)
  have size : s.layouts.typeExtent (.struct name) = .ok (.together es) := by
    change s.layouts.extent? .struct name = _
    rw [Layouts.extent?, laid]
    exact whole
  have asked := Gen.extent_laid told.firm size rfl (List.forall_mem_singleton.mpr known)
  refine ⟨file, line, members, es, named ▸ once, ?_, ?_, shown⟩
  · rw [Gen.sizeOf, Gen.bind_of_ok asked]
    rfl
  · exact extents.asked told.firm (told.firm.sized laid) (told.firm.held laid)

end Session

/-! ### A node and its payload -/

def nodeSession : Session :=
  let payload : StructDecl := {
    name := "Payload", fields := [⟨"flag", .primitive .i8⟩, ⟨"count", .primitive .i64⟩] }
  let node : StructDecl := {
    name := "Node", methods := [{ name := "visit", returnType := .primitive .void }]
    fields := [⟨"kind", .primitive .i16⟩, ⟨"payload", .ofName "Payload"⟩,
      ⟨"next", .pointer (.ofName "Node") 1⟩] }
  let listener : Collector := { reply := fun calls _ => calls.length, metadata := fun _ => [] }
  ((Session.ofOptions { debugInfo := true } (some listener)).register (.struct payload)).register
    (.struct node)

def nodeLaid : Session := (Gen.structLayout "Node").after nodeSession

theorem nodeLaid_ok : ∃ layout, Gen.structLayout "Node" nodeSession = .ok layout nodeLaid := by
  have returns : ((Gen.structLayout "Node").run' nodeSession).isSome = true := by decide +kernel
  obtain ⟨layout, result⟩ := Option.isSome_iff_exists.mp returns
  exact ⟨layout, Gen.ok_of_run' result⟩

/-- The payload is described before the node that holds it, while the node is being laid out. -/
theorem Session.Running.describes_layout_node :
    nodeLaid.Running ∧ nodeLaid.activeCollector?.isSome = true ∧
      ∃ layout, nodeLaid.layouts.structs.find? "Node" = some layout ∧
        nodeLaid.Describes "Node" layout := by
  obtain ⟨layout, run⟩ := nodeLaid_ok
  have running : nodeLaid.Running := by
    refine .step (.structLayout "Node") (.register _ (.register _ (.start ..))) fun _ _ halted => ?_
    cases run.symm.trans halted
  have active : nodeLaid.activeCollector?.isSome = true := by decide +kernel
  have laid := Resolution.structLayout_ok run
  exact ⟨running, active, layout, laid, running.describes_layout active laid⟩

end Backend
