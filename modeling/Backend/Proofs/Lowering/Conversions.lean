import Backend.Proofs.Session.Function

/-!
Conversions of one value at different places. A value is adapted to a type where it is the first
value of a variable, an argument, a result, the value of an assignment or the operand of a cast. At
each place the instruction depends on the target types and on two signs; `ConversionSite.signs` says
which ones. So the instruction is the same everywhere as long as its choice does not depend on a
sign that the places take from different types. `ConversionSite.adapt_eq_iff` says when that is.
-/

namespace Backend

/-- Where a value is adapted to a type. -/
inductive ConversionSite where
  | initial | argument | result | assignment | cast

namespace ConversionSite

/-- What counts as the sign of the source and of the target, when these are the signs of the
concrete types. Only a cast looks at both. -/
def signs (site : ConversionSite) (source target : Bool) : Bool × Bool :=
  match site with
  | .initial | .argument | .result => (source, source)
  | .assignment => (target, target)
  | .cast => (source, target)

/-- What happens to the value of an expression of type `source` where a value of type `target`, which
is `ir` on the machine, is needed. -/
def adapt (site : ConversionSite) (source target : TypeRef) (ir : IrType) (v : Value) : Emit Value :=
  match site with
  | .initial | .argument | .result => Emit.coerce v source ir
  | .assignment => Emit.coerce v target ir
  | .cast => do
    let sourceUnsigned := (← Emit.concrete source).isUnsigned
    let targetUnsigned := (← Emit.concrete target).isUnsigned
    Emit.convert v ir sourceUnsigned targetUnsigned

/-- The value of an expression, adapted to the type `ty`, which is `ir` on the machine. -/
def adapted (site : ConversionSite) (c : Code) (ty : TypeRef) (ir : IrType) : Emit Value := do
  site.adapt c.ty ty ir (← c.value)

end ConversionSite

/-! ### The choice of the instruction -/

namespace IrType

/-- The conversion depends on the sign of its source: an integer gets more bits, or it becomes a
floating number. A single bit is a truth value. -/
def readsSource : IrType → IrType → Bool
  | .int m, .int n => m < n && m ≠ 1
  | .int _, .float | .int _, .double => true
  | _, _ => false

def readsTarget (source target : IrType) : Bool := source.isFloat && target.isInt

end IrType

theorem IrType.reads_self (a : IrType) :
    a.readsSource a = false ∧ a.readsTarget a = false := by
  cases a <;> simp [readsSource, readsTarget, isFloat, isInt]

theorem conversion?_int_eq_iff {m n : Nat} (differ : m ≠ n) (source target source' target' : Bool) :
    conversion? (.int m) (.int n) source target = conversion? (.int m) (.int n) source' target' ↔
      ((IrType.int m).readsSource (.int n) = true → source = source') := by
  simp only [conversion?, IrType.readsSource, Bool.and_eq_true, decide_eq_true_eq]
  by_cases less : n < m
  · simp [less, Nat.not_lt.mpr (Nat.le_of_lt less)]
  · have more : m < n := by omega
    by_cases single : m = 1
    · simp [single]
    · cases source <;> cases source' <;> simp [less, more, single]

theorem conversion?_eq_iff {a b : IrType} (number : a.isNumber = true) (number' : b.isNumber = true)
    (differ : a ≠ b) (source target source' target' : Bool) :
    conversion? a b source target = conversion? a b source' target' ↔
      (a.readsSource b = true → source = source') ∧
        (a.readsTarget b = true → target = target') := by
  cases a with
  | int m =>
    cases b with
    | int n =>
      have differ : m ≠ n := fun same => differ (same ▸ rfl)
      rw [conversion?_int_eq_iff differ]
      simp [IrType.readsTarget, IrType.isFloat]
    | float | double =>
      cases source <;> cases source' <;>
        simp [conversion?, IrType.readsSource, IrType.readsTarget, IrType.isFloat]
    | _ => cases number'
  | float | double =>
    cases b with
    | int n =>
      cases target <;> cases target' <;>
        simp [conversion?, IrType.readsSource, IrType.readsTarget, IrType.isFloat, IrType.isInt]
    | float | double =>
      simp [conversion?, IrType.readsSource, IrType.readsTarget, IrType.isInt]
    | _ => cases number'
  | _ => cases number

theorem conversion?_number {a b : IrType} (number : a.isNumber = true) (number' : b.isNumber = true)
    (differ : a ≠ b) (source target : Bool) : ∃ op, conversion? a b source target = some op := by
  cases a with
  | int m =>
    cases b with
    | int n =>
      rw [conversion?]
      split
      · exact ⟨_, rfl⟩
      · split <;> exact ⟨_, rfl⟩
    | float | double => exact ⟨_, rfl⟩
    | _ => cases number'
  | float =>
    cases b with
    | int n => exact ⟨_, rfl⟩
    | double => exact ⟨_, rfl⟩
    | float => exact (differ rfl).elim
    | _ => cases number'
  | double =>
    cases b with
    | int n => exact ⟨_, rfl⟩
    | float => exact ⟨_, rfl⟩
    | double => exact (differ rfl).elim
    | _ => cases number'
  | _ => cases number

namespace Emit

variable {f : Frame} {s : Session} {v : Value} {ir : IrType}

theorem concrete_run {ty : TypeRef} (fits : (f.subst.apply ty).fits = true) (s : Session) :
    concrete ty f s = .ok (f.subst.apply ty, f) s := by
  change (Gen.substitute f.subst ty >>= fun t => pure (t, f) : Gen (TypeRef × Frame)) s = _
  rw [Gen.substitute, if_pos fits]
  rfl

theorem bind_of_ok {α β : Type} {x : Emit α} {k : α → Emit β} {f₁ : Frame} {s₁ : Session} {a : α}
    (first : x f s = .ok (a, f₁) s₁) : (x >>= k) f s = k a f₁ s₁ :=
  Gen.bind_of_ok first

theorem bind_congr {α β : Type} {x : Emit α} {k k' : α → Emit β}
    (rest : ∀ a f₁ s₁, x f s = .ok (a, f₁) s₁ → k a f₁ s₁ = k' a f₁ s₁) :
    (x >>= k) f s = (x >>= k') f s := by
  change (x f >>= fun r => k r.1 r.2) s = (x f >>= fun r => k' r.1 r.2) s
  cases run : x f s with
  | ok r s₁ => rw [Gen.bind_of_ok run, Gen.bind_of_ok run, rest _ _ _ run]
  | error h s₁ => exact (Gen.bind_of_error run).trans (Gen.bind_of_error run).symm

theorem resolve_frame {ty : TypeRef} {f₁ : Frame} {s₁ : Session}
    (run : resolve ty f s = .ok (ir, f₁) s₁) : f₁ = f := by
  obtain ⟨now, f₂, s₂, got, lifted⟩ := bind_ok run
  obtain ⟨rfl, rfl, -⟩ := get_ok got
  exact (lift_ok lifted).1

theorem convert_same (same : v.ty = ir) (source target : Bool) :
    convert v ir source target = pure v := by
  rw [convert, if_pos same]

theorem convert_other (differ : v.ty ≠ ir) {source target : Bool} {op : CastOp}
    (chosen : conversion? v.ty ir source target = some op) :
    convert v ir source target = emitValue ir fun dst => .cast dst op v ir := by
  rw [convert, if_neg differ]
  simp only [chosen]

theorem cast_inj {op op' : CastOp}
    (same : emitValue ir (fun dst => .cast dst op v ir) f s =
      emitValue ir (fun dst => .cast dst op' v ir) f s) : op = op' := by
  obtain ⟨f₁, run, -, -, body⟩ := emitValue_appends ir (fun dst => .cast dst op v ir) f s
  obtain ⟨f₂, run', -, -, body'⟩ := emitValue_appends ir (fun dst => .cast dst op' v ir) f s
  cases (run.symm.trans same).trans run'
  have last := List.append_cancel_left (body.symm.trans body')
  cases last
  rfl

theorem convert_eq_iff (number : v.ty.isNumber = true) (number' : ir.isNumber = true)
    (source target source' target' : Bool) :
    convert v ir source target f s = convert v ir source' target' f s ↔
      (v.ty.readsSource ir = true → source = source') ∧
        (v.ty.readsTarget ir = true → target = target') := by
  by_cases same : v.ty = ir
  · rw [convert_same same, convert_same same, same, ir.reads_self.1, ir.reads_self.2]
    simp
  · obtain ⟨op, chosen⟩ := conversion?_number number number' same source target
    obtain ⟨op', chosen'⟩ := conversion?_number number number' same source' target'
    rw [convert_other same chosen, convert_other same chosen',
      ← conversion?_eq_iff number number' same, chosen, chosen']
    exact ⟨fun ran => congrArg some (cast_inj ran), fun ops => by cases ops; rfl⟩

theorem coerce_number {source : TypeRef} (number : ir.isNumber = true)
    (fits : (f.subst.apply source).fits = true) :
    coerce v source ir f s = convert v ir (f.subst.apply source).isUnsigned
      (f.subst.apply source).isUnsigned f s := by
  have solid : ir.isVoid = false := by
    cases ir with
    | void => cases number
    | _ => rfl
  unfold coerce
  by_cases same : v.ty = ir
  · rw [convert_same same]
    simp [same]
  · simp only [same, solid, decide_false, Bool.or_false, Bool.false_eq_true, if_false]
    refine Eq.trans ?_ (bind_of_ok (k := fun ty => convert v ir ty.isUnsigned ty.isUnsigned)
      (concrete_run fits s))
    -- only pointers and structs have nulls
    generalize v.operand = operand
    cases ir with
    | int | float | double => cases operand <;> rfl
    | _ => cases number

end Emit

/-! ### Places -/

namespace ConversionSite

variable {f : Frame} {s : Session} {v : Value} {ir : IrType} {source target : TypeRef}

theorem adapt_run (site : ConversionSite) (number : ir.isNumber = true)
    (fits : (f.subst.apply source).fits = true) (fits' : (f.subst.apply target).fits = true) :
    site.adapt source target ir v f s =
      let signs := site.signs (f.subst.apply source).isUnsigned (f.subst.apply target).isUnsigned
      Emit.convert v ir signs.1 signs.2 f s := by
  cases site with
  | initial | argument | result => exact Emit.coerce_number number fits
  | assignment => exact Emit.coerce_number number fits'
  | cast =>
    rw [adapt, Emit.bind_of_ok (Emit.concrete_run fits s), Emit.bind_of_ok (Emit.concrete_run fits' s)]
    rfl

theorem adapt_eq_iff (i j : ConversionSite) (number : v.ty.isNumber = true)
    (number' : ir.isNumber = true)
    (fits : (f.subst.apply source).fits = true) (fits' : (f.subst.apply target).fits = true) :
    let signs (site : ConversionSite) :=
      site.signs (f.subst.apply source).isUnsigned (f.subst.apply target).isUnsigned
    i.adapt source target ir v f s = j.adapt source target ir v f s ↔
      (v.ty.readsSource ir = true → (signs i).1 = (signs j).1) ∧
        (v.ty.readsTarget ir = true → (signs i).2 = (signs j).2) := by
  rw [adapt_run i number' fits fits', adapt_run j number' fits fits']
  exact Emit.convert_eq_iff number number' _ _ _ _

end ConversionSite

theorem Expr.cast_adapted (e : Expr) {ty : TypeRef} {f : Frame}
    (fits : (f.subst.apply e.code.ty).fits = true) (fits' : (f.subst.apply ty).fits = true)
    (s : Session) :
    Emit.cast e.code ty f s = (do ConversionSite.cast.adapted e.code ty (← Emit.resolve ty)) f s := by
  unfold Emit.cast ConversionSite.adapted
  rw [Emit.bind_of_ok (Emit.concrete_run fits s), Emit.bind_of_ok (Emit.concrete_run fits' s)]
  refine Emit.bind_congr fun ir f₁ s₁ resolved => Emit.bind_congr fun v f₂ s₂ ran => ?_
  have same : f₂.subst = f.subst := by rw [e.subst_kept ran, Emit.resolve_frame resolved]
  rw [ConversionSite.adapt, Emit.bind_of_ok (Emit.concrete_run (same ▸ fits) s₂),
    Emit.bind_of_ok (Emit.concrete_run (same ▸ fits') s₂), same]

theorem Emit.ret_adapted (c : Code) (ty : TypeRef) {f : Frame}
    (solid : f.returnType.isVoid = false) :
    Emit.ret (some c) f = (do
      Emit.terminate (.ret (← ConversionSite.result.adapted c ty f.returnType))) f := by
  change (if f.returnType.isVoid then _ else _ : Emit Unit) f = _
  rw [if_neg (by rw [solid]; decide)]
  rfl

theorem Emit.assign_adapted (target c : Code) :
    Emit.assign target c = (do
      let p ← target.lvalue
      let w ← ConversionSite.assignment.adapted c target.ty p.ty
      Emit.store w p.address
      return w) := by
  simp only [Emit.assign, ConversionSite.adapted, ConversionSite.adapt, bind_assoc]

/-- As long as the operand has a value, two places do the same to it if and only if they agree on
the signs that are read. -/
theorem Expr.adapted_eq_iff (e : Expr) {ty : TypeRef} {f f₁ : Frame} {s s₁ : Session} {v : Value}
    {ir : IrType} (run : e.code.value f s = .ok (v, f₁) s₁) (number : v.ty.isNumber = true)
    (number' : ir.isNumber = true) (fits : (f.subst.apply e.code.ty).fits = true)
    (fits' : (f.subst.apply ty).fits = true) (i j : ConversionSite) :
    let signs (site : ConversionSite) :=
      site.signs (f.subst.apply e.code.ty).isUnsigned (f.subst.apply ty).isUnsigned
    i.adapted e.code ty ir f s = j.adapted e.code ty ir f s ↔
      (v.ty.readsSource ir = true → (signs i).1 = (signs j).1) ∧
        (v.ty.readsTarget ir = true → (signs i).2 = (signs j).2) := by
  rw [ConversionSite.adapted, ConversionSite.adapted, Emit.bind_of_ok run, Emit.bind_of_ok run,
    ← e.subst_kept run]
  rw [← e.subst_kept run] at fits fits'
  exact ConversionSite.adapt_eq_iff i j number number' fits fits'

/-- The first value of a variable, an argument, a result, an assignment and a cast are the places
where the value of `e` is adapted to the type `ty`. If both are numbers or truth values, two of these
places adapt it by the same instruction, or both by none, exactly if they take the signs that decide
about it to be the same: that of the source where an integer gets more bits or becomes a floating
number, that of the target where a floating number becomes an integer. -/
theorem Expr.conversions_agree_iff (e : Expr) (ty : TypeRef) :
    (∀ x, Emit.letVar x ty (some e.code) = do
      let ir ← Emit.resolve ty
      let slot ← Emit.alloca ir
      let w ← ConversionSite.initial.adapted e.code ty ir
      Emit.store w (.reg slot)
      Emit.bindLocal x { slot, ty, ir }) ∧
    (∀ args ir params, Emit.arguments (e.code :: args) (ir :: params) = do
      let w ← ConversionSite.argument.adapted e.code ty ir
      return w :: (← Emit.arguments args params)) ∧
    (∀ f : Frame, f.returnType.isVoid = false → Emit.ret (some e.code) f = (do
      Emit.terminate (.ret (← ConversionSite.result.adapted e.code ty f.returnType))) f) ∧
    (∀ target : Code, target.ty = ty → Emit.assign target e.code = do
      let p ← target.lvalue
      let w ← ConversionSite.assignment.adapted e.code ty p.ty
      Emit.store w p.address
      return w) ∧
    ∀ f : Frame, (f.subst.apply e.code.ty).fits = true → (f.subst.apply ty).fits = true →
      (∀ s, Emit.cast e.code ty f s =
        (do ConversionSite.cast.adapted e.code ty (← Emit.resolve ty)) f s) ∧
      ∀ {s v f₁ s₁ ir}, e.code.value f s = .ok (v, f₁) s₁ → v.ty.isNumber = true →
        ir.isNumber = true → ∀ i j : ConversionSite,
        let signs (site : ConversionSite) :=
          site.signs (f.subst.apply e.code.ty).isUnsigned (f.subst.apply ty).isUnsigned
        i.adapted e.code ty ir f s = j.adapted e.code ty ir f s ↔
          (v.ty.readsSource ir = true → (signs i).1 = (signs j).1) ∧
            (v.ty.readsTarget ir = true → (signs i).2 = (signs j).2) := by
  refine ⟨fun _ => rfl, fun _ _ _ => rfl, fun f solid => Emit.ret_adapted e.code ty solid,
    fun target same => ?_, fun f fits fits' => ⟨e.cast_adapted fits fits', ?_⟩⟩
  · subst same
    exact Emit.assign_adapted target e.code
  · intro s v f₁ s₁ ir run number number'
    exact e.adapted_eq_iff run number number' fits fits'

/-- A signed number gets more bits in the same way everywhere. -/
theorem Expr.conversions_agree_signed :
    let f : Frame := { symbol := "f", subst := {} }
    let e := Expr.ofInt 5
    ∀ i j : ConversionSite, i.adapted e.code .i64 .i64 f {} = j.adapted e.code .i64 .i64 f {} := by
  intro f e i j
  have run : e.code.value f {} = .ok (⟨.int 5, .i32⟩, f) {} := rfl
  obtain ⟨-, -, -, -, rest⟩ := e.conversions_agree_iff .i64
  refine ((rest f rfl rfl).2 run rfl rfl i j).mpr ⟨fun _ => ?_, fun reads => by cases reads⟩
  cases i <;> cases j <;> rfl

def FunctionDef.casts (f : FunctionDef) : List CastOp :=
  f.body.filterMap fun
    | .instr (.cast _ op _ _) _ => some op
    | _ => none

/-- A parameter that becomes the first value of `x`, is assigned to `x` and is cast to its type. -/
def convertingBody (source target : Primitive) : List Stmt :=
  let a : Expr := .var { ty := .primitive source } "a"
  [.letVar "x" (.primitive target) (some a) {},
   .expr (.assign { ty := .primitive target } (.var { ty := .primitive target } "x") a),
   .ret (some (.cast { ty := .primitive target } a)) {}]

def converting (source target : Primitive) : Gen Unit :=
  Gen.emitFunction
    { symbol := "f", params := [⟨"a", .primitive source⟩], returnType := .primitive target }
    (convertingBody source target) {}

/-- An unsigned number is extended by its sign when it is assigned, and only then; a floating number
becomes an unsigned one only by a cast. -/
theorem Expr.conversions_differ :
    (∃ s, converting .u32 .i64 {} = .ok () s ∧
      s.output.functions.map FunctionDef.casts = [[.zext, .sext, .zext]]) ∧
    ∃ s, converting .f64 .u32 {} = .ok () s ∧
      s.output.functions.map FunctionDef.casts = [[.fptosi, .fptoui, .fptoui]] := by
  have extended : (converting .u32 .i64).reaches {}
      (fun s => s.output.functions.map FunctionDef.casts = [[.zext, .sext, .zext]]) = true := by
    decide +kernel
  have truncated : (converting .f64 .u32).reaches {}
      (fun s => s.output.functions.map FunctionDef.casts = [[.fptosi, .fptoui, .fptoui]]) = true := by
    decide +kernel
  obtain ⟨_, s, run, casts⟩ := Gen.exists_reached extended
  obtain ⟨_, s', run', casts'⟩ := Gen.exists_reached truncated
  exact ⟨⟨s, run, casts⟩, s', run', casts'⟩

end Backend
