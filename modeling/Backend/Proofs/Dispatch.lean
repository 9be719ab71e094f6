import Backend.Proofs.Session.Upheld
import Mathlib.Data.List.Forall2
import Mathlib.Logic.Relation

/-!
Dispatched methods. A struct has the slots of its parent, in the same order, and then its own; its
table holds for each slot the nearest definition of the method. Main statement:
`Session.Over.dispatch_reaches_nearest`, a call through a slot of a struct finds in the table of
every descendant what this descendant defines or inherits from nearest.
-/

namespace Backend

open Gen (Keeps)
open Session (Onward)

namespace Declarations

variable {D D' : Declarations} {method name owner : String} {m : FunctionDecl}

/-- The definition of a method that is met first on the way up from a struct. -/
inductive Nearest (D : Declarations) (method : String) : String → String → FunctionDecl → Prop where
  | here {name : String} {d : StructDecl} {m : FunctionDecl}
    (found : D.structs.find? name = some d) (defines : d.method? method = some m) :
    Nearest D method name name m
  | above {name parent owner : String} {d : StructDecl} {m : FunctionDecl}
    (found : D.structs.find? name = some d) (lacks : d.method? method = none)
    (isParent : D.Parent name parent) (h : Nearest D method parent owner m) :
    Nearest D method name owner m

theorem Nearest.unique {owner' : String} {m' : FunctionDecl} (h : D.Nearest method name owner m)
    (h' : D.Nearest method name owner' m') : owner = owner' ∧ m = m' := by
  induction h with
  | here found defines =>
    cases h' with
    | here found' defines' =>
      cases found.symm.trans found'
      cases defines.symm.trans defines'
      exact ⟨rfl, rfl⟩
    | above found' lacks =>
      cases found.symm.trans found'
      cases defines.symm.trans lacks
  | above found lacks isParent _ ih =>
    cases h' with
    | here found' defines =>
      cases found.symm.trans found'
      cases lacks.symm.trans defines
    | above _ _ isParent' h' =>
      cases isParent.unique isParent'
      exact ih h'

theorem Nearest.found (h : D.Nearest method name owner m) :
    ∃ d, D.structs.find? owner = some d ∧ d.method? method = some m := by
  induction h with
  | here found defines => exact ⟨_, found, defines⟩
  | above _ _ _ _ ih => exact ih

theorem Nearest.declares (h : D.Nearest method name owner m) : D.declares owner = true := by
  obtain ⟨d, found, -⟩ := h.found
  exact declares_of_template? (template?_struct.mpr found)

theorem Nearest.settled (h : D.Nearest method name owner m) (settles : D.Settles D') :
    D'.Nearest method name owner m := by
  induction h with
  | here found defines => exact .here (settles.struct found) defines
  | above found lacks isParent _ ih =>
    exact .above (settles.struct found) lacks (isParent.settled settles) ih

/-- What stands in a dispatch table for a method: its type, in which the environment and the
receiver come first, and its symbol. -/
structure Enters (D : Declarations) (owner : String) (m : FunctionDecl) (entry : IrType × String) :
    Prop where
  symbol : entry.2 = D.aliases.methodName owner m.name m.paramTypes []
  type : ∃ ret params, entry.1 = .function ret (.bytePtr :: D.receiver owner m ++ params) false

theorem Enters.settled {entry : IrType × String} (h : D.Enters owner m entry)
    (settles : D.Settles D') (known : D.declares owner = true) : D'.Enters owner m entry where
  symbol := settles.aliases ▸ h.symbol
  type := settles.receiver known m ▸ h.type

end Declarations

/-! ### Slots -/

theorem dispatchSlots_extends (inherited : List String) (methods : List FunctionDecl) :
    inherited <+: dispatchSlots inherited methods := by
  unfold dispatchSlots
  generalize methods.filter FunctionDecl.isVirtual = ms
  induction ms generalizing inherited with
  | nil => exact List.prefix_refl inherited
  | cons m rest ih =>
    rw [List.foldl_cons]
    split
    · exact ih inherited
    · exact (List.prefix_append inherited [m.name]).trans (ih _)

theorem dispatchSlots_nodup {inherited : List String} (methods : List FunctionDecl)
    (h : inherited.Nodup) : (dispatchSlots inherited methods).Nodup := by
  unfold dispatchSlots
  generalize methods.filter FunctionDecl.isVirtual = ms
  induction ms generalizing inherited with
  | nil => exact h
  | cons m rest ih =>
    rw [List.foldl_cons]
    split
    · exact ih h
    case isFalse new =>
      refine ih (List.nodup_append.mpr ⟨h, List.pairwise_singleton _ _, ?_⟩)
      rintro name member _ single rfl
      exact new (List.mem_singleton.mp single ▸ member)

namespace Session

variable {s s' : Session} {name : String} {slots : List String}

/-- How the slots of a struct came about. -/
inductive Slotted (s : Session) : String → List String → Prop where
  | root {name : String} {d : StructDecl} (found : s.decls.structs.find? name = some d)
    (isRoot : d.parent = none) : Slotted s name (dispatchSlots [] d.methods)
  | child {name parent : String} {d : StructDecl} {ty : TypeRef} {inherited : List String}
    (found : s.decls.structs.find? name = some d) (isParent : d.parent = some ty)
    (stands : s.decls.Stands ty .struct parent)
    (cached : s.layouts.dispatch.find? parent = some inherited) (h : Slotted s parent inherited) :
    Slotted s name (dispatchSlots inherited d.methods)

def KeepsSlots (s s' : Session) : Prop :=
  ∀ n slots, s.layouts.dispatch.find? n = some slots → s'.layouts.dispatch.find? n = some slots

namespace Slotted

theorem later (h : s.Slotted name slots) (settles : s.decls.Settles s'.decls)
    (keeps : s.KeepsSlots s') : s'.Slotted name slots := by
  induction h with
  | root found isRoot => exact .root (settles.struct found) isRoot
  | child found isParent stands cached _ ih =>
    exact .child (settles.struct found) isParent (stands.settled settles) (keeps _ _ cached) ih

theorem unique {slots' : List String} (h : s.Slotted name slots) (h' : s.Slotted name slots') :
    slots = slots' := by
  induction h generalizing slots' with
  | root found isRoot =>
    cases h' with
    | root found' =>
      cases found.symm.trans found'
      rfl
    | child found' isParent =>
      cases found.symm.trans found'
      cases isRoot.symm.trans isParent
  | child found isParent stands cached _ ih =>
    cases h' with
    | root found' isRoot =>
      cases found.symm.trans found'
      cases isRoot.symm.trans isParent
    | child found' isParent' stands' cached' h' =>
      cases found.symm.trans found'
      cases isParent.symm.trans isParent'
      cases (stands.unique stands').2
      rw [ih h']

theorem nodup (h : s.Slotted name slots) : slots.Nodup := by
  induction h with
  | root => exact dispatchSlots_nodup _ List.nodup_nil
  | child _ _ _ _ _ ih => exact dispatchSlots_nodup _ ih

theorem extends_ancestor (h : s.Slotted name slots) {ancestor : String}
    (descends : Relation.ReflTransGen s.decls.Parent name ancestor) {first : List String}
    (known : s.Slotted ancestor first) : first <+: slots := by
  induction descends using Relation.ReflTransGen.head_induction_on generalizing slots with
  | refl => exact known.unique h ▸ List.prefix_refl first
  | head parent _ ih =>
    obtain ⟨d, ty, found, isParent, stands⟩ := parent
    cases h with
    | root found' isRoot =>
      cases found.symm.trans found'
      cases isRoot.symm.trans isParent
    | child found' isParent' stands' _ h =>
      cases found.symm.trans found'
      cases isParent.symm.trans isParent'
      cases (stands.unique stands').2
      exact (ih h).trans (dispatchSlots_extends _ _)

end Slotted

/-- The table has an entry for each slot, and it is the nearest definition of the method. -/
def Tabulated (s : Session) (t : DispatchTable) : Prop :=
  ∃ slots, s.layouts.dispatch.find? t.owner = some slots ∧
    List.Forall₂ (fun method entry => ∃ owner m, s.decls.Nearest method t.owner owner m ∧
      s.decls.Enters owner m entry) slots t.entries

theorem Tabulated.later {t : DispatchTable} (h : s.Tabulated t)
    (settles : s.decls.Settles s'.decls) (keeps : s.KeepsSlots s') : s'.Tabulated t := by
  obtain ⟨slots, cached, entries⟩ := h
  refine ⟨slots, keeps _ _ cached, entries.imp ?_⟩
  rintro method entry ⟨owner, m, nearest, enters⟩
  exact ⟨owner, m, nearest.settled settles, enters.settled settles nearest.declares⟩

/-- All slots and tables are as they should be. -/
structure Coherent (s : Session) : Prop where
  slots : ∀ n slots, s.layouts.dispatch.find? n = some slots → s.Slotted n slots
  tables : ∀ t ∈ s.output.dispatchTables, s.Tabulated t

theorem Coherent.of_same (h : s.Coherent) (settles : s.decls.Settles s'.decls)
    (dispatch : s'.layouts.dispatch = s.layouts.dispatch)
    (tables : s'.output.dispatchTables = s.output.dispatchTables) :
    s'.Coherent ∧ s.KeepsSlots s' := by
  have keeps : s.KeepsSlots s' := fun _ _ cached => dispatch ▸ cached
  refine ⟨⟨fun n slots cached => ?_, fun t member => ?_⟩, keeps⟩
  · exact (h.slots n slots (dispatch ▸ cached)).later settles keeps
  · exact (h.tables t (tables ▸ member)).later settles keeps

theorem Coherent.withSlots (h : s.Coherent) (slotted : s.Slotted name slots) :
    (s.withSlots name slots).Coherent ∧ s.KeepsSlots (s.withSlots name slots) := by
  have keeps : s.KeepsSlots (s.withSlots name slots) := by
    intro n known cached
    rw [Session.withSlots, Table.find?_insert]
    split
    case isTrue same =>
      subst same
      rw [slotted.unique (h.slots _ _ cached)]
    case isFalse => exact cached
  refine ⟨⟨fun n known cached => ?_, fun t member => (h.tables t member).later .refl keeps⟩, keeps⟩
  rw [Session.withSlots, Table.find?_insert] at cached
  split at cached
  case isTrue same =>
    subst same
    cases cached
    exact slotted.later .refl keeps
  case isFalse => exact (h.slots n known cached).later .refl keeps

end Session

/-! ### Runs -/

namespace Resolution

variable {D : Declarations} {s s' : Session} {levels : Nat} {name method : String}

theorem dispatchLayoutWithin_ok {resolve : Resolver} {n : Nat} {slots : List String}
    (run : dispatchLayoutWithin resolve n name s = .ok slots s') :
    s'.layouts.dispatch.find? name = some slots := by
  cases n with
  | zero => cases run
  | succ n =>
    obtain ⟨now, s₁, got, rest₁⟩ := Gen.bind_ok run
    cases got
    cases cached : s.layouts.dispatch.find? name with
    | some known =>
      rw [cached] at rest₁
      obtain ⟨rfl, rfl⟩ := Gen.pure_ok rest₁
      exact cached
    | none =>
      rw [cached] at rest₁
      obtain ⟨now, s₂, got, rest₂⟩ := Gen.bind_ok rest₁
      cases got
      obtain ⟨decl, s₃, -, rest₃⟩ := Gen.bind_ok rest₂
      obtain ⟨inherited, s₄, -, rest₄⟩ := Gen.bind_ok rest₃
      obtain ⟨_, s₅, added, done⟩ := Gen.bind_ok rest₄
      cases added
      obtain ⟨rfl, rfl⟩ := Gen.pure_ok done
      exact (Table.find?_insert _ _ _ _).trans (if_pos rfl)

theorem dispatchLayout_ok {resolve : Resolver} {slots : List String}
    (run : dispatchLayout resolve name s = .ok slots s') :
    s'.layouts.dispatch.find? name = some slots := by
  obtain ⟨budget, s₁, -, ran⟩ := Gen.bind_ok run
  exact dispatchLayoutWithin_ok ran

theorem inheritedSlots_slotted {n : Nat} {decl : StructDecl} {inherited : List String}
    (run : inheritedSlots (resolveWithin levels) (dispatchLayoutWithin (resolveWithin levels) n)
      decl.parent s = .ok inherited s')
    (separate : s'.Separate D) (rests : s.RestsOn D) (coherent : s'.Coherent)
    (found : s'.decls.structs.find? name = some decl) :
    s'.Slotted name (dispatchSlots inherited decl.methods) := by
  cases isParent : decl.parent with
  | none =>
    rw [isParent] at run
    obtain ⟨rfl, -⟩ := Gen.pure_ok run
    exact .root found isParent
  | some ty =>
    rw [isParent] at run
    obtain ⟨parent, s₁, named, ran⟩ := Gen.bind_ok run
    have lays : Session.Lays (.always (Onward D)) := Onward.lays
    have resolves := lays.resolveWithin levels
    have onward₁ : Onward D s₁ s' := onward (lays.dispatchLayoutWithin resolves n parent) ran
    have separate₁ := onward₁.separate separate
    have rests₁ := ((onward (structName_keeps resolves ty {}) named).settles separate₁ rests).1
    have stands := (structName_stands rests separate₁ named).settled
      (onward₁.settles separate rests₁).2
    have cached := dispatchLayoutWithin_ok ran
    exact .child found isParent stands cached (coherent.slots _ _ cached)

theorem findMethodWithin_iff {n : Nat} {found : Option (String × FunctionDecl)}
    (run : findMethodWithin (resolveWithin levels) method n name s = .ok found s')
    (separate : s'.Separate D) (rests : s.RestsOn D) (owner : String) (m : FunctionDecl) :
    found = some (owner, m) ↔ s'.decls.Nearest method name owner m := by
  induction n generalizing name s with
  | zero => cases run
  | succ n ih =>
    obtain ⟨now, s₁, got, rest₁⟩ := Gen.bind_ok run
    cases got
    obtain ⟨decl, s₂, looked, rest₂⟩ := Gen.bind_ok rest₁
    obtain ⟨known, rfl⟩ := Gen.orFail_ok looked
    have lays : Session.Lays (.always (Onward D)) := Onward.lays
    have resolves := lays.resolveWithin levels
    cases defined : decl.method? method with
    | some m' =>
      rw [defined] at rest₂
      obtain ⟨rfl, rfl⟩ := Gen.pure_ok rest₂
      have here := Declarations.Nearest.here known defined
      constructor
      · rintro ⟨⟩
        exact here
      · intro nearest
        obtain ⟨rfl, rfl⟩ := here.unique nearest
        rfl
    | none =>
      rw [defined] at rest₂
      cases isParent : decl.parent with
      | none =>
        rw [isParent] at rest₂
        obtain ⟨rfl, rfl⟩ := Gen.pure_ok rest₂
        refine iff_of_false nofun fun nearest => ?_
        cases nearest with
        | here known' defines =>
          cases known.symm.trans known'
          cases defined.symm.trans defines
        | above _ _ above =>
          obtain ⟨_, _, known', isParent', -⟩ := above
          cases known.symm.trans known'
          cases isParent.symm.trans isParent'
      | some ty =>
        rw [isParent] at rest₂
        obtain ⟨parent, s₃, named, ran⟩ := Gen.bind_ok rest₂
        have onward₂ := onward (D := D) (structName_keeps resolves ty {}) named
        have onward₃ := onward (D := D) (findMethodWithin_keeps resolves method n parent) ran
        have separate₃ := onward₃.separate separate
        obtain ⟨rests₃, settles₂⟩ := onward₂.settles separate₃ rests
        have settles₃ := (onward₃.settles separate rests₃).2
        have known' := (settles₂.trans settles₃).struct known
        have above : s'.decls.Parent name parent :=
          ⟨decl, ty, known', isParent, (structName_stands rests separate₃ named).settled settles₃⟩
        refine (ih ran rests₃).trans ⟨fun nearest => .above known' defined above nearest, ?_⟩
        intro nearest
        cases nearest with
        | here found' defines =>
          cases known'.symm.trans found'
          cases defined.symm.trans defines
        | above _ _ above' nearest =>
          cases above.unique above'
          exact nearest

theorem findMethod_iff {found : Option (String × FunctionDecl)}
    (run : findMethod (resolveWithin levels) name method s = .ok found s')
    (separate : s'.Separate D) (rests : s.RestsOn D) (owner : String) (m : FunctionDecl) :
    found = some (owner, m) ↔ s'.decls.Nearest method name owner m := by
  obtain ⟨budget, s₁, got, ran⟩ := Gen.bind_ok run
  cases got
  exact findMethodWithin_iff ran separate rests owner m

theorem methodType_receives {owner : String} {m : FunctionDecl} {ty : IrType}
    (run : methodType (resolveWithin levels) owner m {} s = .ok ty s')
    (separate : s'.Separate D) (rests : s.RestsOn D) (known : s.decls.declares owner = true) :
    ∃ ret params, ty = .function ret (.bytePtr :: s'.decls.receiver owner m ++ params) false := by
  obtain ⟨ret, s₁, returned, rest₁⟩ := Gen.bind_ok run
  obtain ⟨_, s₂, owned, rest₂⟩ := Gen.bind_ok rest₁
  cases owned
  obtain ⟨params, s₃, taken, done⟩ := Gen.bind_ok rest₂
  obtain ⟨rfl, rfl⟩ := Gen.pure_ok done
  have lays : Session.Lays (.always (Onward D)) := Onward.lays
  have resolves := lays.resolveWithin levels
  have onward₁ := onward (resolves _ _) returned
  have onward₂ : Onward D s₁ s' := onward (Keeps.mapM fun _ _ => resolves _ _) taken
  have separate₁ := onward₂.separate separate
  obtain ⟨rests₁, settles₁⟩ := onward₁.settles separate₁ rests
  have settles₂ := (onward₂.settles separate rests₁).2
  refine ⟨ret, params, ?_⟩
  rw [settles₂.receiver (settles₁.declares known) m]
  rfl

theorem tableEntry_nearest {entry : IrType × String}
    (run : tableEntry (resolveWithin levels) name method s = .ok entry s')
    (separate : s'.Separate D) (rests : s.RestsOn D) :
    ∃ owner m, s'.decls.Nearest method name owner m ∧ s'.decls.Enters owner m entry := by
  obtain ⟨found, s₁, looked, rest₁⟩ := Gen.bind_ok run
  obtain ⟨⟨owner, m⟩, s₂, defined, rest₂⟩ := Gen.bind_ok rest₁
  obtain ⟨rfl, rfl⟩ := Gen.orFail_ok defined
  obtain ⟨symbol, s₃, named, rest₃⟩ := Gen.bind_ok rest₂
  unfold Gen.methodSymbol at named
  obtain ⟨rfl, rfl⟩ := Gen.naming_ok named
  obtain ⟨ty, s₄, typed, done⟩ := Gen.bind_ok rest₃
  obtain ⟨rfl, rfl⟩ := Gen.pure_ok done
  have lays : Session.Lays (.always (Onward D)) := Onward.lays
  have resolves := lays.resolveWithin levels
  have onward₃ := onward (D := D) (methodType_keeps resolves owner m {}) typed
  have separate₃ := onward₃.separate separate
  have rests₃ := ((onward (findMethod_keeps resolves name method) looked).settles separate₃ rests).1
  have settles := (onward₃.settles separate rests₃).2
  have nearest := (findMethod_iff looked separate₃ rests owner m).mp rfl
  exact ⟨owner, m, nearest.settled settles, by rw [settles.aliases],
    methodType_receives typed separate rests₃ nearest.declares⟩

theorem entries_nearest {slots : List String} {entries : List (IrType × String)}
    (run : slots.mapM (tableEntry (resolveWithin levels) name) s = .ok entries s')
    (separate : s'.Separate D) (rests : s.RestsOn D) :
    List.Forall₂ (fun method entry => ∃ owner m, s'.decls.Nearest method name owner m ∧
      s'.decls.Enters owner m entry) slots entries := by
  induction slots generalizing s entries with
  | nil =>
    obtain ⟨rfl, -⟩ := Gen.pure_ok run
    exact .nil
  | cons method rest ih =>
    rw [List.mapM_cons] at run
    obtain ⟨entry, s₁, ran, rest₁⟩ := Gen.bind_ok run
    obtain ⟨others, s₂, ran₂, done⟩ := Gen.bind_ok rest₁
    obtain ⟨rfl, rfl⟩ := Gen.pure_ok done
    have lays : Session.Lays (.always (Onward D)) := Onward.lays
    have resolves := lays.resolveWithin levels
    have onward₂ : Onward D s₁ s' :=
      onward (Keeps.mapM fun method _ => tableEntry_keeps resolves name method) ran₂
    have separate₁ := onward₂.separate separate
    have rests₁ := ((onward (tableEntry_keeps resolves name method) ran).settles separate₁ rests).1
    have settles := (onward₂.settles separate rests₁).2
    obtain ⟨owner, m, nearest, enters⟩ := tableEntry_nearest ran separate₁ rests
    have enters' := enters.settled settles nearest.declares
    exact .cons ⟨owner, m, nearest.settled settles, enters'⟩ (ih ran₂ rests₁)

end Resolution

namespace Session

open Resolution

variable {D : Declarations} {m : Module} {s s' : Session}

theorem Coherent.upheld : Upheld D Coherent KeepsSlots where
  refl _ _ _ := id
  trans h h' n slots cached := h' n slots (h n slots cached)
  still settles layouts tables h := h.of_same settles (congrArg _ layouts) tables
  slots := by
    intro levels n s s₁ name decl inherited found run onwards separate rests coherent
    have found₁ := (onwards.settles separate rests).2.struct found
    exact coherent.withSlots (inheritedSlots_slotted run separate rests coherent found₁)
  table := by
    intro levels s s₁ s₂ name slots entries run ran separate rests coherent keeps
    refine ⟨⟨fun n slots cached => (coherent.slots n slots cached).later .refl fun _ _ => id,
      fun t member => ?_⟩, fun _ _ => id⟩
    rcases List.mem_append.mp member with known | new
    · exact (coherent.tables t known).later .refl fun _ _ => id
    · cases List.mem_singleton.mp new
      have entered := entries_nearest ran separate rests
      exact ⟨slots, keeps _ _ (dispatchLayout_ok run), entered⟩
  struct _ _ _ _ _ _ h _ := h.of_same .refl rfl rfl
  enum _ h := h.of_same .refl rfl rfl

theorem Over.coherent (h : s.Over m) (separate : s.Separate m.declarations) : s.Coherent := by
  refine h.upheld Coherent.upheld separate fun layouts tables => ⟨fun n slots cached => ?_, ?_⟩
  · rw [layouts] at cached
    cases cached
  · rw [tables]
    exact List.forall_mem_nil _

end Session

/-! ### Calls -/

namespace Emit

variable {f f' : Frame} {s s' : Session} {v : Value}

theorem emitValue_ok {ty : IrType} {i : Register → Instr}
    (run : emitValue ty i f s = .ok (v, f') s') :
    ∃ r, v = ⟨.reg r, ty⟩ ∧ s' = s ∧ gap f' = [] ∧ f'.location = f.location ∧
      f'.body.toList = f.body.toList ++ gap f ++ [.instr (i r) f.location] := by
  obtain ⟨f₁, ran, going, location, body⟩ := emitValue_appends ty i f s
  cases ran.symm.trans run
  exact ⟨_, rfl, rfl, going, location, body⟩

/-- Instructions that take an entry out of the dispatch table of a receiver. -/
def entryLoad (owner : String) (pointer : Operand) (field slot : Nat) (ty : IrType)
    (place table entries entry raw code : Register) : List Instr :=
  [.address place (.struct owner) pointer [⟨.int 0, .i32⟩, ⟨.int field, .i32⟩],
   .load table .bytePtr (.reg place),
   .cast entries .bitcast ⟨.reg table, .bytePtr⟩ (.ptr .bytePtr),
   .address entry .bytePtr (.reg entries) [⟨.int slot, .i32⟩],
   .load raw .bytePtr (.reg entry),
   .cast code .bitcast ⟨.reg raw, .bytePtr⟩ (.ptr ty)]

def callEntry (code : Operand) (m : FunctionDecl) (receiver : Value) (args : List Code) :
    Emit Value := do
  let (params, ret) ← Gen.resolveSignature m.paramTypes m.returnType {}
  let values ← arguments args params
  call ret code (noEnvironment :: receiver :: values)

/-- From the frame `f` on, the entry of a slot is taken from the table that the dispatch field of
the receiver points to, and called; `rest` is what happens behind the instructions for the entry. -/
def CallsSlot (owner : String) (layout : StructLayout) (pointer : Operand) (slot : Nat) (f : Frame)
    (rest : Operand → Frame → Prop) : Prop :=
  ∃ field ty place table entries entry raw code f₁,
    layout.dispatchSlot? = some field ∧
    f₁.body.toList = f.body.toList ++ gap f ++
      (entryLoad owner pointer field slot ty place table entries entry raw code).map
        (.instr · f.location) ∧
    rest (.reg code) f₁

theorem callDispatched_ok {owner : String} {pointer : Operand} {declOwner : String}
    {m : FunctionDecl} {receiver : Value} {args : List Code}
    (run : callDispatched owner pointer declOwner m receiver args f s = .ok (v, f') s') :
    ∃ layout slot ty s₁ s₂ s₃, Gen.structLayout owner s = .ok layout s₁ ∧
      Gen.dispatchSlot? owner m.name s₁ = .ok (some slot) s₂ ∧
      Gen.methodType declOwner m {} s₂ = .ok ty s₃ ∧
      CallsSlot owner layout pointer slot f fun code f₁ =>
        callEntry code m receiver args f₁ s₃ = .ok (v, f') s' := by
  obtain ⟨layout, f₁, s₁, laid, rest₁⟩ := bind_ok run
  obtain ⟨rfl, ran₁⟩ := lift_ok laid
  obtain ⟨field, f₂, s₂, pointed, rest₂⟩ := bind_ok rest₁
  obtain ⟨isSlot, rfl, rfl⟩ := orFail_ok pointed
  obtain ⟨found, f₃, s₃, asked, rest₃⟩ := bind_ok rest₂
  obtain ⟨rfl, ran₃⟩ := lift_ok asked
  obtain ⟨slot, f₄, s₄, known, rest₄⟩ := bind_ok rest₃
  obtain ⟨rfl, rfl, rfl⟩ := orFail_ok known
  obtain ⟨ty, f₅, s₅, typed, rest₅⟩ := bind_ok rest₄
  obtain ⟨rfl, ran₅⟩ := lift_ok typed
  refine ⟨layout, slot, ty, s₂, s₄, s₅, ran₁, ran₃, ran₅, ?_⟩
  -- six instructions, of which only the first can find a closed block
  obtain ⟨_, f₆, s₆, ran₆, rest₆⟩ := bind_ok rest₅
  obtain ⟨place, rfl, rfl, open₆, located₆, body₆⟩ := emitValue_ok ran₆
  obtain ⟨_, f₇, s₇, ran₇, rest₇⟩ := bind_ok rest₆
  obtain ⟨table, rfl, rfl, open₇, located₇, body₇⟩ := emitValue_ok ran₇
  obtain ⟨_, f₈, s₈, ran₈, rest₈⟩ := bind_ok rest₇
  obtain ⟨entries, rfl, rfl, open₈, located₈, body₈⟩ := emitValue_ok ran₈
  obtain ⟨_, f₉, s₉, ran₉, rest₉⟩ := bind_ok rest₈
  obtain ⟨entry, rfl, rfl, open₉, located₉, body₉⟩ := emitValue_ok ran₉
  obtain ⟨_, f₁₀, s₁₀, ran₁₀, rest₁₀⟩ := bind_ok rest₉
  obtain ⟨raw, rfl, rfl, open₁₀, located₁₀, body₁₀⟩ := emitValue_ok ran₁₀
  obtain ⟨_, f₁₁, s₁₁, ran₁₁, rest₁₁⟩ := bind_ok rest₁₀
  obtain ⟨code, rfl, rfl, -, -, body₁₁⟩ := emitValue_ok ran₁₁
  refine ⟨field, ty, place, table, entries, entry, raw, code, f₁₁, isSlot, ?_, rest₁₁⟩
  simp only [body₁₁, body₁₀, body₉, body₈, body₇, body₆, open₁₀, open₉, open₈, open₇, open₆,
    located₁₀, located₉, located₈, located₇, located₆, List.append_nil, List.append_assoc, entryLoad, List.map_cons, List.map_nil, List.cons_append,
    List.nil_append]

theorem callEntry_moves {R : Session → Session → Prop} [IsPreorder Session R]
    (answers : Session.Answers (.always R)) (code : Operand) (m : FunctionDecl) (receiver : Value)
    (args : List Expr) (f : Frame) : Gen.Moves R (callEntry code m receiver (exprCodes args) f) := by
  have called : Runs (.along (.always R)) (callEntry code m receiver (exprCodes args)) := by
    refine (answers.steps.ask (.resolveSignature _ _ _)).andThen fun sig => ?_
    have values : Yields true [] (arguments (exprCodes args) sig.1) fun vs => vs.map Value.operand :=
      arguments_yields (exprCodes_yield args) sig.1
    refine (values.runs answers.closes).andThen fun _ => Goes.ite ?_ (answers.steps.emitValue _ _)
    exact (answers.steps.emit _).andThen fun _ => .pure trivial
  exact called.keeps f

end Emit

theorem idxOf?_of_start {slots slots' : List String} {method : String} {slot : Nat}
    (h : slots <+: slots') (found : slots.idxOf? method = some slot) :
    slots'.idxOf? method = some slot := by
  obtain ⟨rest, rfl⟩ := h
  rw [List.idxOf?] at found ⊢
  rw [List.findIdx?_append, found]
  rfl

namespace Session

variable {m : Module} {s₀ s₁ s : Session}

theorem Over.dispatchedSlot (isOver : s₀.Over m) {f f' : Frame} {owner declOwner : String}
    {pointer : Operand} {method : FunctionDecl} {receiver v : Value} {args : List Expr}
    (run : Emit.callDispatched owner pointer declOwner method receiver (exprCodes args) f s₀ =
      .ok (v, f') s₁)
    (later : s₁.Proceeds m s) (separate : s.Separate m.declarations) :
    s.Over m ∧ ∃ slots slot, s.layouts.dispatch.find? owner = some slots ∧
      slots.idxOf? method.name = some slot ∧
      ∃ layout, (∃ s', Gen.structLayout owner s₀ = .ok layout s') ∧
      Emit.CallsSlot owner layout pointer slot f fun code f₁ => ∃ s',
        Emit.callEntry code method receiver (exprCodes args) f₁ s' = .ok (v, f') s₁ := by
  obtain ⟨layout, slot, ty, a, b, c, laid, asked, typed, field, _, r₁, r₂, r₃, r₄, r₅, code, f₁,
    isSlot, body, called⟩ := Emit.callDispatched_ok run
  obtain ⟨slots, b', slotted, done⟩ := Gen.bind_ok asked
  obtain ⟨position, rfl⟩ := Gen.pure_ok done
  have cached := Resolution.dispatchLayout_ok slotted
  -- the slots are known from here on, and whatever follows keeps them
  have before : s₀.Proceeds m b :=
    trans_of _ ((Proceeds.moves (.structLayout owner)).of_ok laid)
      ((Proceeds.moves (.dispatchSlot? owner method.name)).of_ok asked)
  have after : b.Proceeds m s :=
    trans_of _ (trans_of _ ((Proceeds.moves (.methodType declOwner method {})).of_ok typed)
      ((Emit.callEntry_moves Proceeds.emits.answers _ method receiver args f₁).of_ok called)) later
  have over_b := isOver.proceeds before
  have upholds := after.upholds Coherent.upheld
  have separate_b := upholds.onward.separate separate
  obtain ⟨-, keeps⟩ := upholds.kept separate (over_b.restsOn separate_b) (over_b.coherent separate_b)
  exact ⟨over_b.proceeds after, slots, slot, keeps _ _ cached, position.symm, layout, ⟨a, laid⟩,
    field, _, r₁, r₂, r₃, r₄, r₅, code, f₁, isSlot, body, c, called⟩

/-- A call through a slot of a struct reaches, in the table of each descendant, the definition of
the method that is nearest to the descendant. -/
theorem Over.dispatch_reaches_nearest (isOver : s₀.Over m) {f f' : Frame}
    {owner declOwner derived : String} {pointer : Operand} {method : FunctionDecl}
    {receiver v : Value} {args : List Expr}
    (run : Emit.callDispatched owner pointer declOwner method receiver (exprCodes args) f s₀ =
      .ok (v, f') s₁)
    (later : s₁.Proceeds m s) (separate : s.Separate m.declarations)
    (descends : Relation.ReflTransGen s.decls.Parent derived owner) :
    ∃ slots slot, Gen.dispatchLayout owner s = .ok slots s ∧ slots.Nodup ∧
      slots.idxOf? method.name = some slot ∧
      (∃ layout, (∃ s', Gen.structLayout owner s₀ = .ok layout s') ∧
        Emit.CallsSlot owner layout pointer slot f fun code f₁ => ∃ s',
          Emit.callEntry code method receiver (exprCodes args) f₁ s' = .ok (v, f') s₁) ∧
      (∀ slots' s', Gen.dispatchLayout derived s = .ok slots' s' → s'.Separate m.declarations →
        slots <+: slots' ∧ slots'.Nodup ∧ slots'.idxOf? method.name = some slot) ∧
      ∀ table ∈ s.output.dispatchTables, table.owner = derived →
        ∃ definer definition, s.decls.Nearest method.name derived definer definition ∧
          table.entries[slot]?.map Prod.snd =
            some (s.decls.aliases.methodName definer definition.name definition.paramTypes []) ∧
          ∀ found s', Gen.findMethod derived method.name s = .ok found s' →
            s'.Separate m.declarations → found = some (definer, definition) := by
  obtain ⟨isOver, slots, slot, cached, position, calls⟩ := isOver.dispatchedSlot run later separate
  have coherent := isOver.coherent separate
  have slotted := coherent.slots _ _ cached
  refine ⟨slots, slot, Resolution.dispatchLayout_cached cached, slotted.nodup, position, calls,
    fun slots' s' asked separate' => ?_, fun table member isOwner => ?_⟩
  · have next : s.Proceeds m s' := (Proceeds.moves (.dispatchLayout derived)).of_ok asked
    have upholds := next.upholds Coherent.upheld
    have rests := isOver.restsOn separate
    obtain ⟨coherent', keeps⟩ := upholds.kept separate' rests coherent
    have settles := (upholds.onward.settles separate' rests).2
    have slotted' := coherent'.slots _ _ (Resolution.dispatchLayout_ok asked)
    have descends' : Relation.ReflTransGen s'.decls.Parent derived owner :=
      descends.lift id fun _ _ parent => parent.settled settles
    have starts := slotted'.extends_ancestor descends' (slotted.later settles keeps)
    exact ⟨starts, slotted'.nodup, idxOf?_of_start starts position⟩
  · subst isOwner
    obtain ⟨slots', cached', entries⟩ := coherent.tables table member
    have starts := (coherent.slots _ _ cached').extends_ancestor descends slotted
    obtain ⟨inside, isMethod, -⟩ := List.idxOf?_eq_some_iff.mp (idxOf?_of_start starts position)
    obtain ⟨length, nearest⟩ := List.forall₂_iff_get.mp entries
    obtain ⟨definer, definition, defined, symbol, -⟩ := nearest slot inside (length ▸ inside)
    rw [List.get_eq_getElem, isMethod] at defined
    refine ⟨definer, definition, defined, ?_, fun found s' looked separate' => ?_⟩
    · rw [List.getElem?_eq_getElem (length ▸ inside), Option.map_some, ← symbol]
      rfl
    · have next : s.Proceeds m s' := (Proceeds.moves (.findMethod table.owner method.name)).of_ok looked
      have rests := isOver.restsOn separate
      have settles := (next.onward.settles separate' rests).2
      exact (Resolution.findMethod_iff looked separate' rests definer definition).mpr
        (defined.settled settles)

end Session

/-- A generic parent with two methods and a child that defines one of them again. -/
def dispatchModule : Module where
  name := "main"
  decls :=
    [.struct
      { name := "Shape", typeParams := ["T"], fields := [⟨"side", .ofName "T"⟩],
        methods := [{ name := "area", returnType := .ofName "T" },
          { name := "corners", returnType := .primitive .i32 }] },
     .struct
      { name := "Square", parent := some (.named "Shape" [.primitive .i32] none),
        methods := [{ name := "corners", returnType := .primitive .i32 }] }]

def dispatchStart : Session :=
  (Gen.structLayout "Square").after (Session.registerAll dispatchModule (.ofOptions {}))

/-- The lowering of a call of `corners` on something known as a shape. -/
def cornersCall : Emit Value :=
  let receiver : Operand := .reg (.named "shape")
  Emit.callDispatched "Shape_i32" receiver "Shape_i32"
    { name := "corners", returnType := .primitive .i32 }
    ⟨receiver, .ptr (.struct "Shape_i32")⟩ (exprCodes [])

theorem Session.Over.dispatch_reaches_nearest_override :
    ∃ v f' s, dispatchStart.Over dispatchModule ∧
      cornersCall { symbol := "main", subst := {} } dispatchStart = .ok (v, f') s ∧
      s.Separate dispatchModule.declarations ∧
      Relation.ReflTransGen s.decls.Parent "Square" "Shape_i32" ∧
      ∃ slots slot table definer definition, Gen.dispatchLayout "Shape_i32" s = .ok slots s ∧
        slots.idxOf? "corners" = some slot ∧
        table ∈ s.output.dispatchTables ∧ table.owner = "Square" ∧
        s.decls.Nearest "corners" "Square" definer definition ∧
        table.entries[slot]?.map Prod.snd =
          some (s.decls.aliases.methodName definer definition.name definition.paramTypes []) := by
  have isOver : dispatchStart.Over dispatchModule :=
    ⟨{}, none, .ask (.structLayout "Square") .refl⟩
  obtain ⟨⟨v, f'⟩, s, run, names, tabled⟩ := Gen.exists_reached
    (x := cornersCall { symbol := "main", subst := {} }) (s := dispatchStart)
    (P := fun s => (∀ n ∈ s.instances.keys, dispatchModule.declarations.declares n = false) ∧
      ∃ t ∈ s.output.dispatchTables, t.owner = "Square") (by decide +kernel)
  have separate : s.Separate dispatchModule.declarations := separate_of_keys names
  have called : Emit.Yields true [.reg (.named "shape")] cornersCall fun v => [v.operand] :=
    Emit.callDispatched_yields (exprCodes_yield []) _ _ _ (by simp) (by simp)
  have goes := called.runs (Proceeds.emits (m := dispatchModule)).answers.closes
  have stays : s.Over dispatchModule := isOver.proceeds ((goes.keeps _).of_ok run)
  have declared : dispatchModule.declarations.Parent "Square" "Shape_i32" := by
    refine ⟨_, _, rfl, rfl, ?_⟩
    have named : dispatchModule.declarations.instanceName .struct "Shape" [.primitive .i32] =
      "Shape_i32" := by decide +kernel
    exact named ▸ .made ⟨none, rfl, List.cons_ne_nil _ _, rfl⟩
  have descends := Relation.ReflTransGen.single (declared.settled (stays.restsOn separate).settles)
  obtain ⟨slots, slot, laid, -, position, -, -, tables⟩ :=
    isOver.dispatch_reaches_nearest run .refl separate descends
  obtain ⟨table, member, isOwner⟩ := tabled
  obtain ⟨definer, definition, nearest, entry, -⟩ := tables table member isOwner
  exact ⟨v, f', s, isOver, run, separate, descends, slots, slot, table, definer, definition, laid,
    position, member, isOwner, nearest, entry⟩

end Backend
