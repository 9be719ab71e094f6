import Backend.Proofs.Flow.Ssa
import Backend.Proofs.Tables

/-!
Struct literals as records. A literal is put together from zero by insertions. Main statement:
`Expr.structLiteral_builds`, whatever is emitted between the insertions, a field holds what was given
for it last, the dispatch pointer points to the table of the struct, the liveness bit is set, and all
else is zero. A comparison with null finds the bit set for a literal, and unset for a null.
-/

namespace Backend

variable {body body' : List Line} {slots slots' : Nat → Option Value} {f f' : Frame}
  {s s' : Session} {v current : Value} {name : String} {layout : StructLayout}

/-- What the slots of a value hold that is put together from zero by insertions; `none` is zero. -/
inductive Builds (body : List Line) : Operand → (Nat → Option Value) → Prop where
  | zero : Builds body .zero fun _ => none
  | insert {dst : Register} {base elem : Value} {position : Nat} {location : Option Nat}
    {slots : Nat → Option Value} (line : .instr (.insert dst base elem position) location ∈ body)
    (below : Builds body base.operand slots) :
    Builds body (.reg dst) (Function.update slots position (some elem))

/-- The bit that an operand stands for, if it is a constant, part of a record or a comparison. -/
inductive Stands (body : List Line) : Operand → Bool → Prop where
  | unset : Stands body (.int 0) false
  | set : Stands body (.int 1) true
  | bool (b : Bool) : Stands body (.bool b) b
  | blank {dst : Register} {record : Value} {slot : Nat} {location : Option Nat}
    {slots : Nat → Option Value} (line : .instr (.extract dst record slot) location ∈ body)
    (builds : Builds body record.operand slots) (holds : slots slot = none) :
    Stands body (.reg dst) false
  | filled {dst : Register} {record elem : Value} {slot : Nat} {location : Option Nat}
    {slots : Nat → Option Value} {b : Bool}
    (line : .instr (.extract dst record slot) location ∈ body)
    (builds : Builds body record.operand slots) (holds : slots slot = some elem)
    (bit : Stands body elem.operand b) : Stands body (.reg dst) b
  | equal {dst : Register} {left : Value} {right : Operand} {location : Option Nat} {a b : Bool}
    (line : .instr (.compare dst .eq left right) location ∈ body)
    (first : Stands body left.operand a) (second : Stands body right b) :
    Stands body (.reg dst) (a == b)
  | different {dst : Register} {left : Value} {right : Operand} {location : Option Nat} {a b : Bool}
    (line : .instr (.compare dst .ne left right) location ∈ body)
    (first : Stands body left.operand a) (second : Stands body right b) :
    Stands body (.reg dst) (a != b)

theorem Builds.mono {o : Operand} (h : Builds body o slots) (starts : body <+: body') :
    Builds body' o slots := by
  induction h with
  | zero => exact .zero
  | insert line _ ih => exact .insert (starts.subset line) ih

theorem eq_of_settings_nodup (once : (settings body).Nodup) {line line' : Line} {r : Register}
    (member : line ∈ body) (member' : line' ∈ body) (sets : line.dst? = some r)
    (sets' : line'.dst? = some r) : line = line' := by
  by_contra different
  have : Std.Symm fun l l' : Line => ∀ r, l.dst? = some r → ∀ r', l'.dst? = some r' → r ≠ r' :=
    ⟨fun _ _ h r hr r' hr' => (h r' hr' r hr).symm⟩
  exact (List.pairwise_filterMap.mp once).forall member member' different r sets r sets' rfl

/-- Where registers are set once, an operand stands for one thing only. -/
theorem Builds.unique {o : Operand} (once : (settings body).Nodup) (h : Builds body o slots)
    (h' : Builds body o slots') : slots = slots' := by
  induction h generalizing slots' with
  | zero => cases h'; rfl
  | insert line _ ih =>
    cases h' with
    | insert line' below' =>
      cases eq_of_settings_nodup once line line' rfl rfl
      rw [ih below']

theorem Stands.unique {o : Operand} {b b' : Bool} (once : (settings body).Nodup)
    (h : Stands body o b) (h' : Stands body o b') : b = b' := by
  induction h generalizing b' with
  | unset => cases h'; rfl
  | set => cases h'; rfl
  | bool => cases h'; rfl
  | blank line builds holds =>
    cases h' with
    | blank => rfl
    | filled line' builds' holds' =>
      cases eq_of_settings_nodup once line line' rfl rfl
      cases builds.unique once builds'
      cases holds.symm.trans holds'
    | equal line' => cases eq_of_settings_nodup once line line' rfl rfl
    | different line' => cases eq_of_settings_nodup once line line' rfl rfl
  | filled line builds holds _ ih =>
    cases h' with
    | blank line' builds' holds' =>
      cases eq_of_settings_nodup once line line' rfl rfl
      cases builds.unique once builds'
      cases holds.symm.trans holds'
    | filled line' builds' holds' bit' =>
      cases eq_of_settings_nodup once line line' rfl rfl
      cases builds.unique once builds'
      cases holds.symm.trans holds'
      exact ih bit'
    | equal line' => cases eq_of_settings_nodup once line line' rfl rfl
    | different line' => cases eq_of_settings_nodup once line line' rfl rfl
  | equal line _ _ ih₁ ih₂ =>
    cases h' with
    | equal line' first' second' =>
      cases eq_of_settings_nodup once line line' rfl rfl
      rw [ih₁ first', ih₂ second']
    | blank line' => cases eq_of_settings_nodup once line line' rfl rfl
    | filled line' => cases eq_of_settings_nodup once line line' rfl rfl
    | different line' => cases eq_of_settings_nodup once line line' rfl rfl
  | different line _ _ ih₁ ih₂ =>
    cases h' with
    | different line' first' second' =>
      cases eq_of_settings_nodup once line line' rfl rfl
      rw [ih₁ first', ih₂ second']
    | blank line' => cases eq_of_settings_nodup once line line' rfl rfl
    | filled line' => cases eq_of_settings_nodup once line line' rfl rfl
    | equal line' => cases eq_of_settings_nodup once line line' rfl rfl

/-- No register of a function is set twice. -/
theorem Session.Wrote.once {fn : FunctionDef} (h : s.Wrote fn) : (settings fn.body).Nodup := by
  cases h with
  | body run =>
    obtain ⟨-, wellFormed⟩ := Emit.functionDef_wellFormed run (Frame.blocks_start _ _)
    obtain ⟨p, describes, -, params⟩ := Emit.functionDef_describes run
    have definitions := (describes.ssa wellFormed.unique params).unique.of_map
    exact (List.nodup_append.mp definitions).2.1
  | runtime => exact List.nodup_singleton _

namespace Emit

/-! ### Insertions -/

theorem insertAt_builds {elem : Value} {position : Nat}
    (run : insertAt current elem position f s = .ok (v, f') s')
    (below : Builds f.body.toList current.operand slots) :
    Builds f'.body.toList v.operand (Function.update slots position (some elem)) ∧
      v.ty = current.ty ∧ s' = s := by
  obtain ⟨r, rfl, rfl, -, -, lines⟩ := emitValue_ok run
  have written : .instr (.insert r current elem position) f.location ∈ f'.body.toList := by
    rw [lines]
    exact List.mem_append_right _ (List.mem_singleton.mpr rfl)
  refine ⟨.insert written (below.mono ?_), rfl, rfl⟩
  rw [lines, List.append_assoc]
  exact List.prefix_append _ _

/-- The fields of a literal are given one after another. Each value is computed where the last one
has been put into the record, coerced to the type of its slot, and put there. -/
inductive Fills (layout : StructLayout) : List (String × Code) → List (Nat × Value) →
    Value → Frame → Session → Value → Frame → Session → Prop where
  | done {v : Value} {f : Frame} {s : Session} : Fills layout [] [] v f s v f s
  | field {name : String} {code : Code} {rest : List (String × Code)} {position : Nat}
    {ty : IrType} {elem current next v : Value} {given : List (Nat × Value)}
    {f f₁ f₂ f' : Frame} {s s₁ s₂ s' : Session}
    (ordinary : name ≠ dispatchField ∧ name ≠ livenessField)
    (slot : layout.slot? name = some position) (type : layout.type? position = some ty)
    (coerced : code.coerced ty f s = .ok (elem, f₁) s₁)
    (inserted : insertAt current elem position f₁ s₁ = .ok (next, f₂) s₂)
    (others : Fills layout rest given next f₂ s₂ v f' s') :
    Fills layout ((name, code) :: rest) ((position, elem) :: given) current f s v f' s'

/-- Slots that get values one after another. -/
def fill (slots : Nat → Option Value) (given : List (Nat × Value)) : Nat → Option Value :=
  given.foldl (fun slots g => Function.update slots g.1 (some g.2)) slots

theorem insertFields_fill {fields : List (String × Code)}
    (run : insertFields name layout fields current f s = .ok (v, f') s') :
    ∃ given, Fills layout fields given current f s v f' s' := by
  induction fields generalizing current f s with
  | nil =>
    obtain ⟨rfl, rfl, rfl⟩ := pure_ok run
    exact ⟨[], .done⟩
  | cons field rest ih =>
    obtain ⟨next, f₁, s₁, inserted, rest₁⟩ := bind_ok run
    obtain ⟨given, others⟩ := ih rest₁
    unfold insertField at inserted
    split at inserted
    · exact (fail_ok inserted).elim
    case isFalse own =>
      obtain ⟨position, f₂, s₂, found, rest₂⟩ := bind_ok inserted
      obtain ⟨slot, rfl, rfl⟩ := orFail_ok found
      obtain ⟨ty, f₃, s₃, typed, rest₃⟩ := bind_ok rest₂
      obtain ⟨type, rfl, rfl⟩ := orFail_ok typed
      obtain ⟨elem, f₄, s₄, coerced, put⟩ := bind_ok rest₃
      simp only [Bool.or_eq_true, decide_eq_true_eq, not_or] at own
      exact ⟨(position, elem) :: given, .field own slot type coerced put others⟩

theorem Fills.builds {fields : List (String × Code)} {given : List (Nat × Value)}
    (h : Fills layout fields given current f s v f' s')
    (yields : ∀ field ∈ fields, field.2.Yields)
    (below : Builds f.body.toList current.operand slots) :
    Builds f'.body.toList v.operand (fill slots given) ∧ v.ty = current.ty := by
  induction h generalizing slots with
  | done => exact ⟨below, rfl⟩
  | @field name code rest position ty elem current next v given f f₁ f₂ f' s s₁ s₂ s' _ _ _ coerced
      inserted _ ih =>
    obtain ⟨first, later⟩ := List.forall_mem_cons.mp yields
    have starts := (((first.coerced (b := true) ty).runs longer_closes).ok coerced).1
    obtain ⟨builds, same, -⟩ := insertAt_builds inserted (below.mono starts)
    obtain ⟨builds', same'⟩ := ih later builds
    exact ⟨builds', same'.trans same⟩

theorem fill_apply (slots : Nat → Option Value) (given : List (Nat × Value)) (i : Nat) :
    fill slots given i = (given.reverse.lookup i).or (slots i) := by
  induction given generalizing slots with
  | nil => rfl
  | cons g rest ih =>
    obtain ⟨position, elem⟩ := g
    rw [fill, List.foldl_cons, ← fill, ih, List.reverse_cons, List.lookup_append, Option.or_assoc]
    congr 1
    by_cases same : i = position
    · simp [same]
    · simp [List.lookup_cons, Function.update, same, beq_false_of_ne same]

/-- What a struct holds before its fields are given. -/
def blankSlots (name : String) (layout : StructLayout) (methods : List String) (i : Nat) :
    Option Value :=
  if layout.dispatchSlot? = some i then some ⟨.dispatch name methods.length, .bytePtr⟩ else none

theorem blankStruct_builds (run : blankStruct name layout f s = .ok (v, f') s') :
    ∃ methods, Builds f'.body.toList v.operand (blankSlots name layout methods) ∧
      v.ty = .struct name ∧
      (layout.dispatchSlot?.isSome → s'.layouts.dispatch.find? name = some methods) := by
  cases isSlot : layout.dispatchSlot? with
  | some slot =>
    simp only [blankStruct, isSlot] at run
    obtain ⟨methods, f₁, s₁, asked, inserted⟩ := bind_ok run
    obtain ⟨rfl, ran⟩ := lift_ok asked
    obtain ⟨builds, same, rfl⟩ := insertAt_builds inserted .zero
    refine ⟨methods, ?_, same, fun _ => Resolution.dispatchLayout_ok ran⟩
    convert builds using 1
    funext i
    simp [blankSlots, isSlot, Function.update_apply, eq_comm]
  | none =>
    simp only [blankStruct, isSlot] at run
    obtain ⟨rfl, rfl, rfl⟩ := pure_ok run
    refine ⟨[], ?_, rfl, nofun⟩
    convert Builds.zero using 1
    funext i
    simp [blankSlots, isSlot]

/-- What the slots of a literal hold, from the values of its fields in their order. -/
def literalSlots (name : String) (layout : StructLayout) (methods : List String)
    (given : List (Nat × Value)) (i : Nat) : Option Value :=
  if i = layout.livenessSlot then some ⟨.int 1, .i1⟩
  else (given.reverse.lookup i).or (blankSlots name layout methods i)

/-- The run of a literal: its type is resolved and laid out, the dispatch pointer is set, the fields
are given, and last the liveness bit is set. -/
def Assembles (ty : TypeRef) (name : String) (layout : StructLayout) (fields : List (String × Code))
    (given : List (Nat × Value)) (f : Frame) (s : Session) (v : Value) (f' : Frame) (s' : Session) :
    Prop :=
  ∃ s₀ s₁ start f₁ s₂ filled f₂ s₃, resolve ty f s = .ok (.struct name, f) s₀ ∧
    Gen.structLayout name s₀ = .ok layout s₁ ∧
    blankStruct name layout f s₁ = .ok (start, f₁) s₂ ∧
    Fills layout fields given start f₁ s₂ filled f₂ s₃ ∧
    insertAt filled ⟨.int 1, .i1⟩ layout.livenessSlot f₂ s₃ = .ok (v, f') s'

theorem structLiteral_assembles {info : ExprInfo} {inits : List FieldInit}
    (run : (Expr.structLiteral info inits).code.value f s = .ok (v, f') s') :
    ∃ name layout given, Assembles info.ty name layout (fieldCodes inits) given f s v f' s' := by
  obtain ⟨ir, f₁, s₁, resolved, rest₁⟩ := bind_ok run
  obtain rfl := resolve_still _ resolved
  split at rest₁
  case h_1 name =>
    obtain ⟨layout, f₂, s₂, asked, rest₂⟩ := bind_ok rest₁
    obtain ⟨rfl, laid⟩ := lift_ok asked
    obtain ⟨start, f₃, s₃, blank, rest₃⟩ := bind_ok rest₂
    obtain ⟨filled, f₄, s₄, inserted, last⟩ := bind_ok rest₃
    obtain ⟨given, fills⟩ := insertFields_fill inserted
    exact ⟨name, layout, given, s₁, s₂, start, f₃, s₃, filled, f₄, s₄, resolved, laid, blank, fills,
      last⟩
  · exact (fail_ok rest₁).elim

section

variable {m : Module} {t : Session} {fields : List (String × Code)} {given : List (Nat × Value)}

theorem Fills.succeeds (h : Fills layout fields given current f s v f' s')
    (yields : ∀ field ∈ fields, field.2.Yields) : s.Succeeds m s' := by
  induction h with
  | done => exact .refl
  | @field name code rest position ty elem current next v given f f₁ f₂ f' s s₁ s₂ s' _ _ _ coerced
      inserted _ ih =>
    obtain ⟨first, others⟩ := List.forall_mem_cons.mp yields
    have acts : Acts true [] (code.coerced ty) := .step (first.coerced ty)
    obtain ⟨_, -, rfl, -⟩ := emitValue_ok inserted
    exact .trans (.emit acts coerced .refl) (ih others)

/-- What a literal has been put together to, and what is still known of its struct later on. -/
theorem Assembles.record {ty : TypeRef} (h : Assembles ty name layout fields given f s v f' s')
    (yields : ∀ field ∈ fields, field.2.Yields) (smooth : s.Smooth m) (later : s'.Succeeds m t)
    (separate : t.Separate m.declarations) :
    v.ty = .struct name ∧ t.layouts.structs.find? name = some layout ∧
      ∃ methods, Builds f'.body.toList v.operand (literalSlots name layout methods given) ∧
        (layout.dispatchSlot?.isSome → t.layouts.dispatch.find? name = some methods) := by
  obtain ⟨s₀, s₁, start, f₁, s₂, filled, f₂, s₃, resolved, laid, blank, fills, last⟩ := h
  obtain ⟨methods, builds, isStruct, cached⟩ := blankStruct_builds blank
  obtain ⟨builds', same⟩ := fills.builds yields builds
  obtain ⟨done, same', rfl⟩ := insertAt_builds last builds'
  have asks : Acts true [] (resolve ty) := .step (.resolve ty)
  have blanks : Yields true [] (blankStruct name layout) fun v => [v.operand] :=
    blankStruct_yields name layout
  -- the layout is known once it has been asked for, the slots once the record is blank
  have smooth₁ : s₁.Smooth m :=
    smooth.succeeds (.ask (.structLayout name) laid (.emit asks resolved .refl))
  have toBlank : s₁.Succeeds m s₂ := .emit (.step blanks) blank .refl
  have toLast : s₂.Succeeds m t := (fills.succeeds yields).trans later
  refine ⟨same'.trans (same.trans isStruct),
    (smooth₁.keeps (toBlank.trans toLast) separate).1 _ _ (Resolution.structLayout_ok laid), methods,
    ?_, fun pointer => ((smooth₁.succeeds toBlank).keeps toLast separate).2 _ _ (cached pointer)⟩
  have slots : literalSlots name layout methods given = Function.update
      (fill (blankSlots name layout methods) given) layout.livenessSlot (some ⟨.int 1, .i1⟩) := by
    funext i
    rw [Function.update_apply, fill_apply, literalSlots]
  exact slots ▸ done

end

/-! ### Comparisons with null -/

/-- Wherever the value is compared with null afterwards, in a function with these lines, the bit
that is read is `live`; the session `t` is the last one. -/
def ComparesAs (m : Module) (body : List Line) (s t : Session) (name : String) (v : Value)
    (live : Bool) : Prop :=
  ∀ op g g' s₁ s₂ flag, s.Succeeds m s₁ → compareLiveness op name v g s₁ = .ok (flag, g') s₂ →
    s₂.Succeeds m t → g'.body.toList <+: body →
    ∃ bit position location, .instr (.extract bit v position) location ∈ body ∧
      (∀ b, Stands body (.reg bit) b ↔ b = live) ∧
      ∀ b, Stands body flag.operand b ↔ b = if op = .eq then !live else live

theorem comparesAs {m : Module} {t : Session} {live : Bool} (smooth : s.Smooth m)
    (separate : t.Separate m.declarations) (laid : t.layouts.structs.find? name = some layout)
    (once : (settings body).Nodup)
    (bit : ∀ dst location, .instr (.extract dst v layout.livenessSlot) location ∈ body →
      Stands body (.reg dst) live) : ComparesAs m body s t name v live := by
  intro op g g' s₁ s₂ flag before run later starts
  obtain ⟨layout', g₁, s₃, asked, rest₁⟩ := bind_ok run
  obtain ⟨rfl, ran⟩ := lift_ok asked
  obtain ⟨_, g₂, s₄, extracted, compared⟩ := bind_ok rest₁
  obtain ⟨r, rfl, rfl, -, -, lines⟩ := emitValue_ok extracted
  obtain ⟨r', rfl, rfl, -, -, lines'⟩ := emitValue_ok compared
  -- the layout is the one it was
  have smooth' := smooth.succeeds (before.trans (.ask (.structLayout name) ran .refl))
  obtain rfl : layout' = layout := Option.some.inj
    (((smooth'.keeps later separate).1 _ _ (Resolution.structLayout_ok ran)).symm.trans laid)
  have extract : .instr (.extract r v layout'.livenessSlot) g₁.location ∈ body := by
    refine starts.subset ?_
    rw [lines', lines]
    simp
  have compare : .instr (.compare r' (if op = .eq then .eq else .ne) ⟨.reg r, .i1⟩ (.bool false))
      g₂.location ∈ body := by
    refine starts.subset ?_
    rw [lines']
    simp
  have reads := bit r g₁.location extract
  refine ⟨r, _, _, extract, fun b => ⟨fun h => h.unique once reads, fun h => h ▸ reads⟩, ?_⟩
  have result : Stands body (.reg r') (if op = .eq then !live else live) := by
    split
    case isTrue isEq =>
      rw [if_pos isEq] at compare
      simpa using Stands.equal compare reads (.bool false)
    case isFalse other =>
      rw [if_neg other] at compare
      simpa using Stands.different compare reads (.bool false)
  exact fun b => ⟨fun h => h.unique once result, fun h => h ▸ result⟩

/-- A null that becomes a struct is zero. -/
theorem null_coerced {info : ExprInfo}
    (run : (Expr.literal info .null).code.coerced (.struct name) f s = .ok (v, f') s') :
    v = ⟨.zero, .struct name⟩ := by
  obtain ⟨null, f₁, s₁, ran, rest⟩ := bind_ok run
  have isNull : null.operand = .null ∧ ∃ inner, null.ty = .ptr inner := by
    obtain ⟨ir, f₂, s₂, -, ran⟩ := bind_ok ran
    split at ran
    · obtain ⟨rfl, -⟩ := pure_ok ran
      exact ⟨rfl, _, rfl⟩
    · obtain ⟨rfl, -⟩ := pure_ok ran
      exact ⟨rfl, _, rfl⟩
  obtain ⟨operand, ty⟩ := null
  obtain ⟨rfl, inner, rfl⟩ := isNull
  obtain ⟨rfl, -⟩ := pure_ok rest
  rfl

end Emit

open Emit

/-- In a session in which nothing has failed and nobody listens to descriptions, a struct literal
stands for one record in the function it is emitted in: the liveness bit is set, each field has its
last value, the dispatch pointer points to the table of the struct, and all else is zero. There is
one such table, with as many entries as the pointer says, if no struct declares the name of the
dispatch pointer. A comparison with null reads the bit as set for the literal, and as unset for a
null that has become such a struct. -/
theorem Expr.structLiteral_builds {m : Module} {info : ExprInfo} {inits : List FieldInit}
    {t w : Session} {fn : FunctionDef} (smooth : s.Smooth m)
    (run : (Expr.structLiteral info inits).code.value f s = .ok (v, f') s')
    (later : s'.Succeeds m t) (separate : t.Separate m.declarations) (written : w.Wrote fn)
    (starts : f'.body.toList <+: fn.body) :
    ∃ name layout methods given, v.ty = .struct name ∧
      t.layouts.structs.find? name = some layout ∧
      Assembles info.ty name layout (fieldCodes inits) given f s v f' s' ∧
      (∀ slots, Builds fn.body v.operand slots ↔
        slots = literalSlots name layout methods given) ∧
      (layout.dispatchSlot?.isSome → t.layouts.dispatch.find? name = some methods ∧
        (t.Undispatched → ∃ table,
          t.output.dispatchTables.filter (fun table => table.owner = name) = [table] ∧
            table.entries.length = methods.length)) ∧
      ComparesAs m fn.body s' t name v true ∧
      ∀ null g g' s₁ s₂ z, s'.Succeeds m s₁ →
        (Expr.literal null .null).code.coerced (.struct name) g s₁ = .ok (z, g') s₂ →
        ComparesAs m fn.body s₂ t name z false := by
  have once := written.once
  obtain ⟨name, layout, given, assembles⟩ := structLiteral_assembles run
  obtain ⟨isStruct, laid, methods, builds, cached⟩ :=
    assembles.record (fieldCodes_yield inits) smooth later separate
  have record := builds.mono starts
  have acts : Acts true [] (Expr.structLiteral info inits).code.value :=
    .step (Expr.structLiteral info inits).code_yields.value
  have smooth' := smooth.succeeds (.emit acts run .refl)
  refine ⟨name, layout, methods, given, isStruct, laid, assembles,
    fun other => ⟨fun builds => builds.unique once record, fun same => same ▸ record⟩,
    fun pointer => ⟨cached pointer, fun free =>
      (smooth'.succeeds later).tables separate free laid pointer (cached pointer)⟩,
    ?_, fun null g g' u₁ u₂ z before ran => ?_⟩
  · refine comparesAs smooth' separate laid once fun dst location line => ?_
    exact .filled line record (if_pos rfl) .set
  · obtain rfl := null_coerced ran
    have coerces : Acts true [] ((Expr.literal null .null).code.coerced (.struct name)) :=
      .step ((Expr.literal null .null).code_yields.coerced (.struct name))
    have smoothNull := smooth'.succeeds (.emit coerces ran before)
    exact comparesAs smoothNull separate laid once fun dst location line => .blank line .zero rfl

deriving instance DecidableEq for Instr

deriving instance DecidableEq for Terminator

deriving instance DecidableEq for Line

/-- A struct with a method and a field. -/
def literalModule : Module where
  name := "main"
  decls :=
    [.struct
      { name := "P", fields := [⟨"x", .primitive .i32⟩],
        methods := [{ name := "m", returnType := .primitive .i32 }] }]

def literalExpr : Expr :=
  .structLiteral { ty := .ofName "P" }
    [.mk "x" (.literal { ty := .primitive .i32 } (.int 1)),
     .mk "x" (.literal { ty := .primitive .i32 } (.int 2))]

def literalStart : Session := Session.registerAll literalModule (.ofOptions {})

def literalFrame : Frame := { symbol := "f", subst := {} }

/-- The dispatch pointer is set first, the field twice and the liveness bit last. -/
def literalLines : List Line :=
  [.instr (.insert (.temp 0) ⟨.zero, .struct "P"⟩ ⟨.dispatch "P" 1, .bytePtr⟩ 0) none,
   .instr (.insert (.temp 1) ⟨.reg (.temp 0), .struct "P"⟩ ⟨.int 1, .i32⟩ 1) none,
   .instr (.insert (.temp 2) ⟨.reg (.temp 1), .struct "P"⟩ ⟨.int 2, .i32⟩ 1) none,
   .instr (.insert (.temp 3) ⟨.reg (.temp 2), .struct "P"⟩ ⟨.int 1, .i1⟩ 2) none]

theorem literalLines_build : ∃ slots, Builds literalLines (.reg (.temp 3)) slots ∧
    slots 0 = some ⟨.dispatch "P" 1, .bytePtr⟩ ∧ slots 1 = some ⟨.int 2, .i32⟩ ∧
      slots 2 = some ⟨.int 1, .i1⟩ ∧ slots 3 = none := by
  have first : Builds literalLines (.reg (.temp 0)) _ := .insert (.head _) .zero
  have second : Builds literalLines (.reg (.temp 1)) _ := .insert (.tail _ (.head _)) first
  have third : Builds literalLines (.reg (.temp 2)) _ :=
    .insert (.tail _ (.tail _ (.head _))) second
  have last : Builds literalLines (.reg (.temp 3)) _ :=
    .insert (.tail _ (.tail _ (.tail _ (.head _)))) third
  exact ⟨_, last, rfl, rfl, rfl, rfl⟩

theorem Expr.structLiteral_builds_twice :
    ∃ v f s w fn, literalStart.Smooth literalModule ∧
      literalExpr.code.value literalFrame literalStart = .ok (v, f) s ∧
      Session.Separate literalModule.declarations s ∧ Session.Wrote w fn ∧
      f.body.toList <+: fn.body ∧
      (∃ slots, (∀ other, Builds fn.body v.operand other ↔ other = slots) ∧
        slots 0 = some ⟨.dispatch "P" 1, .bytePtr⟩ ∧ slots 1 = some ⟨.int 2, .i32⟩ ∧
        slots 2 = some ⟨.int 1, .i1⟩ ∧ slots 3 = none) ∧
      (∃ table, s.output.dispatchTables.filter (fun table => table.owner = "P") = [table] ∧
        table.entries.length = 1) ∧
      ComparesAs literalModule fn.body s s "P" v true := by
  have smooth : literalStart.Smooth literalModule := ⟨{}, .refl⟩
  have literal : ((literalExpr.code.value literalFrame).run' literalStart).map
      (fun a => (a.1, a.2.body.toList)) = some (⟨.reg (.temp 3), .struct "P"⟩, literalLines) := by
    decide +kernel
  have function : ((functionDef { symbol := "f", returnType := .ofName "P" }
      [.ret (some literalExpr) {}] literalFrame).run' literalStart).map
        (fun a => decide (literalLines <+: a.1.body)) = some true := by decide +kernel
  have reached : (literalExpr.code.value literalFrame).reaches literalStart (fun s =>
      (∀ n ∈ s.instances.keys, literalModule.declarations.declares n = false) ∧
        (∀ d ∈ s.decls.structs.values, dispatchField ∉ d.fields.map Field.name) ∧
        (s.layouts.structs.find? "P").map StructLayout.dispatchSlot? = some (some 0) ∧
        s.layouts.dispatch.find? "P" = some ["m"]) = true := by decide +kernel
  obtain ⟨⟨v, f⟩, ran, same⟩ := Option.map_eq_some_iff.mp literal
  obtain ⟨⟨fn, g⟩, ran', longer⟩ := Option.map_eq_some_iff.mp function
  obtain ⟨rfl, lines⟩ := Prod.mk.inj same
  have longer : literalLines <+: fn.body := of_decide_eq_true longer
  obtain ⟨_, s, run, names, plain, pointer, slotted⟩ := Gen.exists_reached reached
  cases (Gen.ok_of_run' ran).symm.trans run
  have written := Session.Wrote.body (Gen.ok_of_run' ran')
  have separate := Session.separate_of_keys names
  have starts : f.body.toList <+: fn.body := lines ▸ longer
  have free : Session.Undispatched _ := fun n d found =>
    plain d (List.mem_map.mpr ⟨(n, d), Table.mem_of_lookup found, rfl⟩)
  obtain ⟨name, layout, methods, given, isStruct, laid, -, builds, table, compares, -⟩ :=
    Expr.structLiteral_builds smooth run .refl separate written starts
  cases isStruct
  rw [laid] at pointer
  obtain ⟨cached, table⟩ := table (Option.isSome_iff_exists.mpr ⟨0, Option.some.inj pointer⟩)
  cases cached.symm.trans slotted
  obtain ⟨slots, record, holds⟩ := literalLines_build
  have same := (builds slots).mp (record.mono longer)
  exact ⟨_, f, _, _, fn, smooth, run, separate, written, starts,
    ⟨slots, fun other => same ▸ builds other, holds⟩, table free, compares⟩

end Backend
