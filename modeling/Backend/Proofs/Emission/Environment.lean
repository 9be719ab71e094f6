import Backend.Proofs.Emission.Course
import Backend.Proofs.Resolution.Again

/-!
The environments of lambdas. The function that makes a lambda packs the captured variables into a
record, and the function the lambda becomes unpacks them, in another session. Main statement:
`Emit.lambda_environment`, both take the same types in the same places.
-/

namespace Backend

open Gen (Moves)

variable {D : Declarations} {l : LiftedLambda} {captures : List Field} {types : List IrType}
  {body : List Stmt} {c c' : Session} {symbol : String} {σ : Substitution} {source : TypeRef}

/-! ### Later sessions -/

namespace Session

/-- What the steps of a generation keep to, of which some are inside a body and some are not. -/
structure Generating (R : Session → Session → Prop) : Prop extends Session.Emits (.always R) where
  order : IsPreorder Session R
  active : ∀ s active, R s { s with active }

/-- A generation can lead from one session to the other. -/
def Leads (s c : Session) : Prop := ∀ R, Generating R → R s c

namespace Leads

instance : IsPreorder Session Leads where
  refl s _ keeps := keeps.order.refl s
  trans _ _ _ h h' R keeps := keeps.order.trans _ _ _ (h R keeps) (h' R keeps)

theorem moves {α : Type} {x : Gen α} (h : ∀ R, Generating R → Moves R x) : Moves Leads x :=
  .of_after fun s R keeps => (h R keeps).after s

/-- Whatever is emitted leads on. -/
theorem generating : Generating Leads where
  resolve _ _ := moves fun _ keeps => keeps.resolve _ _
  define _ _ := moves fun _ keeps => keeps.define _ _
  dispatchLayout _ := moves fun _ keeps => keeps.dispatchLayout _
  instantiateFunction _ _ _ := moves fun _ keeps => keeps.instantiateFunction _ _ _
  instantiateMethod _ _ _ _ := moves fun _ keeps => keeps.instantiateMethod _ _ _ _
  tell _ other := moves fun _ keeps => keeps.tell _ other
  internString _ := moves fun _ keeps => keeps.internString _
  freshLambda := moves fun _ keeps => keeps.freshLambda
  environment _ _ := moves fun _ keeps => keeps.environment _ _
  queueLambda _ _ _ := moves fun _ keeps => keeps.queueLambda _ _ _
  instantiate _ _ _ _ := moves fun _ keeps => keeps.instantiate _ _ _ _
  queueMethods _ _ _ := moves fun _ keeps => keeps.queueMethods _ _ _
  beginInstance _ _ _ := moves fun _ keeps => keeps.beginInstance _ _ _
  completeInstance _ := moves fun _ keeps => keeps.completeInstance _
  activate idle h R keeps := keeps.activate idle (h R keeps)
  activateHalts idle h R keeps := keeps.activate idle (h R keeps)
  dequeue s pending _ keeps := keeps.dequeue s pending
  own s name σ _ keeps := keeps.own s name σ
  declare s d _ keeps := keeps.declare s d
  addFunction s f symbol wrote _ keeps := keeps.addFunction s f symbol wrote
  order := inferInstance
  active s active _ keeps := keeps.active s active

end Leads

theorem Recalls.generating : Generating (Recalls D) where
  toReplies := lays.replies
  tell call _ := tell call
  internString text s := by
    refine of_same rfl rfl rfl ?_
    show (s.output.intern text).2.forwards = _
    unfold Output.intern
    split <;> rfl
  freshLambda _ := of_same rfl rfl rfl rfl
  environment _ _ _ := of_same rfl rfl rfl rfl
  queueLambda symbol _ _ s := by
    have requested : Recalls D s
        { s with instances := (InstanceTable.request s.instances "lambda" [] symbol).2 } :=
      ⟨.requested s _ _ _, rfl, List.Subset.refl _⟩
    exact requested.around (refl_of _ s) (of_same rfl rfl rfl rfl)
  instantiate := lays.instantiated
  queueMethods := lays.queueMethods
  beginInstance _ _ _ _ := ⟨.begun _ _ _ _, rfl, List.Subset.refl _⟩
  completeInstance _ s := completed s _
  activate _ h := h.around (of_same rfl rfl rfl rfl) (of_same rfl rfl rfl rfl)
  activateHalts _ h := h.around (of_same rfl rfl rfl rfl) (of_same rfl rfl rfl rfl)
  dequeue _ _ := of_same rfl rfl rfl rfl
  own _ _ _ := of_same rfl rfl rfl rfl
  declare _ _ := of_same rfl rfl rfl rfl
  addFunction _ _ _ _ := of_same rfl rfl rfl rfl
  order := inferInstance
  active _ _ := of_same rfl rfl rfl rfl

/-- Types that have been written stay. -/
def Writes (s s' : Session) : Prop := s.output.typeDefs ⊆ s'.output.typeDefs

namespace Writes

instance : IsPreorder Session Writes where
  refl _ := List.Subset.refl _
  trans _ _ _ := List.Subset.trans

variable {s s' s₁ s₂ : Session}

theorem of_same (same : s'.output.typeDefs = s.output.typeDefs) : Writes s s' :=
  fun _ member => same ▸ member

theorem tell (call : DebugCall) : Moves Writes (Gen.tell call) :=
  .tell (fun _ _ => of_same rfl) call

theorem around (h : Writes s₁ s₂) (before : Writes s s₁) (after : Writes s₂ s') : Writes s s' :=
  trans_of Writes (trans_of Writes before h) after

theorem lays : Session.Lays (.always Writes) where
  forward _ _ := of_same (by unfold Output.addForward; dsimp only; split <;> rfl)
  request _ := .of_ok (Gen.requestBody_run ..) (of_same rfl)
  nest h := h.around (of_same rfl) (of_same rfl)
  nestHalts h := h.around (of_same rfl) (of_same rfl)
  mark _ h := h.around (of_same rfl) (of_same rfl)
  markHalts _ h := h.around (of_same rfl) (of_same rfl)
  slots _ _ _ h := h.around (of_same rfl) (of_same rfl)
  struct level _ _ _ _ h := level.finishes
    ((Resolution.describeStruct_keeps level.define tell (fun _ _ _ => of_same rfl) _ _ _).from
      (h.around (of_same rfl) (List.subset_append_left _ _)))
    fun _ _ h h' => h'.around h (of_same rfl)
  enum _ _ _ _ _ h := h.around (of_same rfl) (List.subset_append_left _ _)
  make _ _ _ h := h.around (of_same rfl) (of_same rfl)
  makeHalts _ h := h.around (of_same rfl) (of_same rfl)
  begin _ := of_same rfl

end Writes

end Session

/-- Types that were resolved one after another are all resolved again. -/
theorem Gen.resolveAll_again {types : List TypeRef} {irs : List IrType} {s s' : Session}
    (rests : s.RestsOn D) (run : Gen.resolveAll types σ s = .ok irs s') (recalls : s'.Recalls D c)
    (separate : c.Separate D) :
    List.Forall₂ (fun ty ir => Gen.resolve ty σ c = .ok ir c) types irs := by
  induction types generalizing s irs with
  | nil =>
    obtain ⟨rfl, -⟩ := pure_ok run
    exact .nil
  | cons ty rest ih =>
    rw [resolveAll, List.mapM_cons] at run
    obtain ⟨ir, s₁, resolved, rest₁⟩ := bind_ok run
    obtain ⟨irs, s₂, others, done⟩ := bind_ok rest₁
    obtain ⟨rfl, rfl⟩ := pure_ok done
    have recalled := Resolution.resolveWithin_recalled (D := D) (maxResolveDepth + 1) ty σ
    have onwards : s₁.Recalls D c := trans_of _
      ((Session.Recalls.lays.replies.resolveAll rest σ).of_ok others) recalls
    have rests₁ : s₁.RestsOn D := ((recalled.moves.of_ok resolved).onward.settles
      (onwards.onward.separate separate) rests).1
    exact .cons (recalled.again rests resolved onwards separate) (ih rests₁ others)

/-! ### Instructions that are added -/

def Line.instr? : Line → Option Instr
  | .instr i _ => some i
  | .label _ | .term .. => none

def instrs (lines : List Line) : List Instr := lines.filterMap Line.instr?

/-- The frame has got these instructions, and is the same to what comes next. -/
structure Frame.Adds (f f' : Frame) (added : List Instr) : Prop where
  instrs : instrs f'.body.toList = instrs f.body.toList ++ added
  locals : f'.locals = f.locals
  subst : f'.subst = f.subst

namespace Frame.Adds

variable {f f' f'' : Frame} {is is' : List Instr}

theorem refl (f : Frame) : f.Adds f [] := ⟨(List.append_nil _).symm, rfl, rfl⟩

theorem trans (h : f.Adds f' is) (h' : f'.Adds f'' is') : f.Adds f'' (is ++ is') :=
  ⟨by rw [h'.instrs, h.instrs, List.append_assoc], h'.locals.trans h.locals, h'.subst.trans h.subst⟩

end Frame.Adds

namespace Emit

variable {f f' : Frame} {s s' : Session} {v : Value} {ty : IrType} {name : String}
  {env : Operand} {i : Nat}

theorem reopen_adds (run : reopen f s = .ok ((), f') s') : f.Adds f' [] ∧ s' = s := by
  obtain ⟨_, f₁, s₁, got, rest⟩ := bind_ok run
  obtain ⟨rfl, rfl, rfl⟩ := get_ok got
  split at rest
  · cases rest
    refine ⟨⟨?_, rfl, rfl⟩, rfl⟩
    simp [instrs, Line.instr?]
  · cases rest
    exact ⟨.refl _, rfl⟩

theorem emit_adds {instr : Instr} (run : emit instr f s = .ok ((), f') s') :
    f.Adds f' [instr] ∧ s' = s := by
  obtain ⟨_, f₁, s₁, reopened, rest⟩ := bind_ok run
  obtain ⟨opened, rfl⟩ := reopen_adds reopened
  cases rest
  refine ⟨opened.trans ⟨?_, rfl, rfl⟩, rfl⟩
  simp [instrs, Line.instr?]

theorem emitValue_adds {instr : Register → Instr} (run : emitValue ty instr f s = .ok (v, f') s') :
    ∃ dst, v = ⟨.reg dst, ty⟩ ∧ f.Adds f' [instr dst] ∧ s' = s := by
  obtain ⟨dst, f₁, s₁, fresh, rest⟩ := bind_ok run
  obtain ⟨_, f₂, s₂, emitted, done⟩ := bind_ok rest
  obtain ⟨rfl, rfl, rfl⟩ := pure_ok done
  obtain ⟨adds, rfl⟩ := emit_adds emitted
  cases fresh
  exact ⟨_, rfl, ⟨adds.instrs, adds.locals, adds.subst⟩, rfl⟩

/-- A value is made one of a type, except that it stays what it is where the type is void. -/
inductive Adapts (v : Value) (ty : IrType) : List Instr → Value → Prop where
  | same (h : v.ty = ty) : Adapts v ty [] v
  | void (h : ty.isVoid = true) : Adapts v ty [] v
  | cast (dst : Register) (op : CastOp) : Adapts v ty [.cast dst op v ty] ⟨.reg dst, ty⟩

theorem convert_adapts {w : Value} {unsigned unsigned' : Bool}
    (run : convert w ty unsigned unsigned' f s = .ok (v, f') s') :
    ∃ is, f.Adds f' is ∧ Adapts w ty is v ∧ s' = s := by
  unfold convert at run
  split at run
  case isTrue same =>
    obtain ⟨rfl, rfl, rfl⟩ := pure_ok run
    exact ⟨[], .refl _, .same same, rfl⟩
  case isFalse =>
    cases found : conversion? w.ty ty unsigned unsigned' with
    | some op =>
      rw [found] at run
      obtain ⟨dst, rfl, adds, rfl⟩ := emitValue_adds run
      exact ⟨_, adds, .cast dst op, rfl⟩
    | none =>
      rw [found] at run
      exact (fail_ok run).elim

theorem ask_ok {α : Type} {x : Substitution → Gen α} {a : α}
    (run : (do x (← get).subst : Emit α) f s = .ok (a, f') s') :
    f' = f ∧ x f.subst s = .ok a s' := by
  obtain ⟨f₀, f₁, s₁, got, asked⟩ := bind_ok run
  obtain ⟨rfl, rfl, rfl⟩ := get_ok got
  obtain ⟨rfl, ran⟩ := lift_ok asked
  exact ⟨rfl, ran⟩

theorem concrete_ok {type : TypeRef} (run : concrete source f s = .ok (type, f') s') :
    f' = f ∧ Gen.substitute f.subst source s = .ok type s' :=
  ask_ok (x := fun σ => Gen.substitute σ source) run

theorem resolve_ok (run : resolve source f s = .ok (ty, f') s') :
    f' = f ∧ Gen.resolve source f.subst s = .ok ty s' :=
  ask_ok (x := Gen.resolve source) run

theorem resolveAll_ok {sources : List TypeRef} (run : resolveAll sources f s = .ok (types, f') s') :
    f' = f ∧ Gen.resolveAll sources f.subst s = .ok types s' :=
  ask_ok (x := Gen.resolveAll sources) run

theorem coerce_adapts {r : Register} {own : IrType}
    (run : coerce ⟨.reg r, own⟩ source ty f s = .ok (v, f') s') :
    ∃ is, f.Adds f' is ∧ Adapts ⟨.reg r, own⟩ ty is v ∧ s' = s := by
  unfold coerce at run
  split at run
  case isTrue plain =>
    obtain ⟨rfl, rfl, rfl⟩ := pure_ok run
    obtain same | void := Bool.or_eq_true_iff.mp plain
    · exact ⟨[], .refl _, .same (of_decide_eq_true same), rfl⟩
    · exact ⟨[], .refl _, .void void, rfl⟩
  case isFalse =>
    obtain ⟨source, f₁, s₁, asked, converted⟩ := bind_ok run
    obtain ⟨rfl, substituted⟩ := concrete_ok asked
    obtain rfl : s₁ = s := by
      unfold Gen.substitute at substituted
      split at substituted <;> cases substituted
      rfl
    exact convert_adapts converted

/-! ### Packing -/

def slotIndices (i : Nat) : List Value := [⟨.int 0, .i32⟩, ⟨.int i, .i32⟩]

/-- Captured variables are copied into a record, from slot `i` on. -/
inductive Packs (locals : Table Local) (name : String) (env : Operand) :
    Nat → List (Field × IrType) → List Instr → Prop where
  | nil {i : Nat} : Packs locals name env i [] []
  | cons {i : Nat} {capture : Field} {ty : IrType} {rest : List (Field × IrType)} {l : Local}
    {r a : Register} {adapting later : List Instr} {v : Value}
    (found : locals.find? capture.name = some l)
    (adapts : Adapts ⟨.reg r, l.ir⟩ ty adapting v)
    (next : Packs locals name env (i + 1) rest later) :
    Packs locals name env i ((capture, ty) :: rest)
      (.load r l.ir (.reg l.slot) :: adapting ++
        .address a (.struct name) env (slotIndices i) :: .store v (.reg a) :: later)

theorem storeCaptures_packs {captures : List (Field × IrType)}
    (run : storeCaptures (.struct name) env captures i f s = .ok ((), f') s') :
    ∃ is, f.Adds f' is ∧ Packs f.locals name env i captures is ∧ s' = s := by
  induction captures generalizing f s i with
  | nil =>
    obtain ⟨-, rfl, rfl⟩ := pure_ok run
    exact ⟨[], .refl _, .nil, rfl⟩
  | cons c rest ih =>
    obtain ⟨capture, ty⟩ := c
    obtain ⟨l?, f₁, s₁, looked, rest₁⟩ := bind_ok run
    obtain ⟨f₀, f₂, s₂, got, looked⟩ := bind_ok looked
    obtain ⟨rfl, rfl, rfl⟩ := get_ok got
    obtain ⟨rfl, rfl, rfl⟩ := pure_ok looked
    obtain ⟨l, f₃, s₃, isLocal, rest₃⟩ := bind_ok rest₁
    obtain ⟨found, rfl, rfl⟩ := orFail_ok isLocal
    obtain ⟨v, f₄, s₄, loaded, rest₄⟩ := bind_ok rest₃
    obtain ⟨r, rfl, adds₄, rfl⟩ := emitValue_adds loaded
    obtain ⟨w, f₅, s₅, coerced, rest₅⟩ := bind_ok rest₄
    obtain ⟨adapting, adds₅, adapts, rfl⟩ := coerce_adapts coerced
    obtain ⟨field, f₆, s₆, addressed, rest₆⟩ := bind_ok rest₅
    obtain ⟨address, rfl, adds₆, rfl⟩ := emitValue_adds addressed
    obtain ⟨_, f₇, s₇, stored, others⟩ := bind_ok rest₆
    obtain ⟨adds₇, rfl⟩ := emit_adds stored
    have adds := ((adds₄.trans adds₅).trans adds₆).trans adds₇
    obtain ⟨later, adds', packs, rfl⟩ := ih others
    rw [adds.locals] at packs
    refine ⟨_, adds.trans adds', ?_, rfl⟩
    simpa [slotIndices] using Packs.cons (a := address) found adapts packs

/-! ### Unpacking -/

/-- Captured variables become locals, from slot `i` of a record on. -/
inductive Unpacks (name : String) (env : Operand) :
    Nat → List (Field × IrType) → Table Local → List Instr → Table Local → Prop where
  | nil {i : Nat} {locals : Table Local} : Unpacks name env i [] locals [] locals
  | cons {i : Nat} {capture : Field} {ty : IrType} {rest : List (Field × IrType)}
    {r a slot : Register} {later : List Instr} {locals locals' : Table Local}
    (next : Unpacks name env (i + 1) rest
      (locals.insert capture.name { slot, ty := capture.ty, ir := ty }) later locals') :
    Unpacks name env i ((capture, ty) :: rest) locals
      (.address a (.struct name) env (slotIndices i) :: .load r ty (.reg a) ::
        .store ⟨.reg r, ty⟩ (.reg slot) :: later) locals'

theorem declareLocal_adds (run : declareLocal name source v f s = .ok ((), f') s') :
    ∃ slot, instrs f'.body.toList = instrs f.body.toList ++ [.store v (.reg slot)] ∧
      f'.locals = f.locals.insert name { slot, ty := source, ir := v.ty } ∧
      f'.subst = f.subst ∧ s' = s := by
  obtain ⟨slot, f₁, s₁, allocated, rest₁⟩ := bind_ok run
  obtain ⟨_, f₂, s₂, stored, bound⟩ := bind_ok rest₁
  obtain ⟨adds, rfl⟩ := emit_adds stored
  obtain ⟨rfl, rfl⟩ := modify_ok bound
  cases allocated
  exact ⟨_, adds.instrs, by rw [adds.locals], adds.subst, rfl⟩

/-- The types of the captured variables are known. -/
theorem loadCaptures_unpacks
    (known : List.Forall₂ (fun ty ir => Gen.resolve ty f.subst s = .ok ir s)
      (captures.map Field.ty) types)
    (run : loadCaptures (.struct name) env captures i f s = .ok ((), f') s') :
    ∃ is, instrs f'.body.toList = instrs f.body.toList ++ is ∧
      Unpacks name env i (captures.zip types) f.locals is f'.locals ∧ s' = s := by
  induction captures generalizing f i types with
  | nil =>
    obtain ⟨-, rfl, rfl⟩ := pure_ok run
    exact ⟨[], (List.append_nil _).symm, .nil, rfl⟩
  | cons capture rest ih =>
    cases known with
    | @cons _ ty _ types here others =>
      obtain ⟨ir, f₁, s₁, asked, rest₁⟩ := bind_ok run
      obtain ⟨rfl, resolved⟩ := resolve_ok asked
      cases here.symm.trans resolved
      obtain ⟨field, f₃, s₃, addressed, rest₃⟩ := bind_ok rest₁
      obtain ⟨address, rfl, adds₃, rfl⟩ := emitValue_adds addressed
      obtain ⟨v, f₄, s₄, loaded, rest₄⟩ := bind_ok rest₃
      obtain ⟨r, rfl, adds₄, rfl⟩ := emitValue_adds loaded
      obtain ⟨_, f₅, s₅, declared, later⟩ := bind_ok rest₄
      obtain ⟨slot, added, bound, subst, rfl⟩ := declareLocal_adds declared
      have adds := adds₃.trans adds₄
      obtain ⟨is, added', unpacks, rfl⟩ := ih ((subst.trans adds.subst).symm ▸ others) later
      rw [bound, adds.locals] at unpacks
      refine ⟨_, ?_, .cons (r := r) (a := address) unpacks, rfl⟩
      rw [added', added, adds.instrs]
      simp [slotIndices]

/-! ### The function that makes the lambda -/

theorem makeClosure_adds {ret : IrType} {params : List IrType}
    (run : makeClosure symbol ret params env f s = .ok (v, f') s') : ∃ pair pair' code ty, f.Adds f'
      [.insert pair ⟨.undef, ty⟩ ⟨.global symbol, code⟩ 0,
       .insert pair' ⟨.reg pair, ty⟩ ⟨env, .bytePtr⟩ 1] ∧ s' = s := by
  obtain ⟨w, f₁, s₁, first, second⟩ := bind_ok run
  obtain ⟨pair, rfl, adds, rfl⟩ := emitValue_adds first
  obtain ⟨pair', rfl, adds', rfl⟩ := emitValue_adds second
  exact ⟨pair, pair', _, _, adds.trans adds', rfl⟩

theorem packEnvironment_packs (run : packEnvironment name captures types f s = .ok (env, f') s') :
    ∃ e raw typed packing, Gen.aggregate types s = .ok e s' ∧ env = .reg raw ∧
      f.Adds f' (.call (some raw) .bytePtr (.global "malloc") [⟨.int (max e.size 1 : Nat), .i64⟩] ::
        .cast typed .bitcast ⟨.reg raw, .bytePtr⟩ (.ptr (.struct name)) :: packing) ∧
      Packs f.locals name (.reg typed) 0 (captures.zip types) packing := by
  obtain ⟨e, f₁, s₁, asked, rest₁⟩ := bind_ok run
  obtain ⟨rfl, sized⟩ := lift_ok asked
  obtain ⟨called, f₂, s₂, allocated, rest₂⟩ := bind_ok rest₁
  obtain ⟨raw, rfl, adds₂, rfl⟩ := emitValue_adds allocated
  obtain ⟨record, f₃, s₃, casted, rest₃⟩ := bind_ok rest₂
  obtain ⟨typed, rfl, adds₃, rfl⟩ := emitValue_adds casted
  obtain ⟨_, f₄, s₄, stored, done⟩ := bind_ok rest₃
  obtain ⟨rfl, rfl, rfl⟩ := pure_ok done
  obtain ⟨packing, adds₄, packs, rfl⟩ := storeCaptures_packs stored
  have adds := adds₂.trans adds₃
  exact ⟨e, raw, typed, packing, sized, rfl, adds.trans adds₄, adds.locals ▸ packs⟩

/-- The instructions that make a lambda: its record is allocated and filled, and its code is paired
with the record. -/
def Makes (f f' : Frame) (symbol : String) (captured : List (Field × IrType)) (size : Nat) : Prop :=
  ∃ raw env pair pair' code ty packing,
    f.Adds f'
      (.call (some raw) .bytePtr (.global "malloc") [⟨.int (max size 1 : Nat), .i64⟩] ::
        .cast env .bitcast ⟨.reg raw, .bytePtr⟩ (.ptr (.struct (symbol ++ "_env"))) :: packing ++
        [.insert pair ⟨.undef, ty⟩ ⟨.global symbol, code⟩ 0,
         .insert pair' ⟨.reg pair, ty⟩ ⟨.reg raw, .bytePtr⟩ 1]) ∧
    Packs f.locals (symbol ++ "_env") (.reg env) 0 captured packing

/-- The function takes the captured variables out of its record, then comes what its body is lowered
to with these variables, and then at most a return. -/
def Takes (d : FunctionDef) (body : List Stmt) (captured : List (Field × IrType)) : Prop :=
  ∃ before env unpacking during after locals f f' s s',
    instrs f.body.toList = before ++ .cast env .bitcast ⟨.reg (.named environmentParam), .bytePtr⟩
      (.ptr (.struct (d.symbol ++ "_env"))) :: unpacking ∧
    Unpacks (d.symbol ++ "_env") (.reg env) 0 captured locals unpacking f.locals ∧
    emitBlock body f s = .ok ((), f') s' ∧
    f'.body.toList = f.body.toList ++ during ∧ d.body = f'.body.toList ++ after

theorem unpackCaptures_unpacks (some : captures ≠ [])
    (known : List.Forall₂ (fun ty ir => Gen.resolve ty f.subst s = .ok ir s)
      (captures.map Field.ty) types)
    (run : unpackCaptures ⟨name, captures⟩ f s = .ok ((), f') s') :
    ∃ env unpacking, instrs f'.body.toList = instrs f.body.toList ++
        .cast env .bitcast ⟨.reg (.named environmentParam), .bytePtr⟩ (.ptr (.struct name)) ::
          unpacking ∧
      Unpacks name (.reg env) 0 (captures.zip types) f.locals unpacking f'.locals := by
  have isSome : captures.isEmpty = false := List.isEmpty_eq_false_iff.mpr some
  rw [unpackCaptures, isSome] at run
  obtain ⟨v, f₁, s₁, casted, loaded⟩ := bind_ok run
  obtain ⟨env, rfl, adds, rfl⟩ := emitValue_adds casted
  obtain ⟨unpacking, added, unpacks, -⟩ := loadCaptures_unpacks (adds.subst.symm ▸ known) loaded
  refine ⟨env, unpacking, ?_, adds.locals ▸ unpacks⟩
  rw [added, adds.instrs, List.append_assoc]
  rfl

theorem Closes.lastReturn {K : Bool → Course} [∀ b, (K b).Lawful] (closes : Closes K) :
    Runs (K true) (do unless (← get).terminated do defaultReturn) := by
  refine Goes.get.andThen fun _ => .ite (.pure trivial) ?_
  have acts : Acts true [] defaultReturn := defaultReturn_acts
  exact acts.runs closes

/-- The types are known while the body is emitted, whatever was done before. -/
theorem functionDef_takes {sig : Signature} {d : FunctionDef}
    (captured : sig.captures = some ⟨sig.symbol ++ "_env", captures⟩) (nonempty : captures ≠ [])
    (known : ∀ c₁, c.Recalls D c₁ → c₁.Recalls D c' →
      List.Forall₂ (fun ty ir => Gen.resolve ty f.subst c₁ = .ok ir c₁) (captures.map Field.ty) types)
    (run : functionDef sig body f c = .ok (d, f') c') :
    d.symbol = sig.symbol ∧ Takes d body (captures.zip types) := by
  have answers := (Session.Recalls.generating (D := D)).answers
  have steps := answers.steps
  obtain ⟨f₀, f₁, c₁, got, rest₁⟩ := bind_ok run
  obtain ⟨rfl, rfl, rfl⟩ := get_ok got
  obtain ⟨ret, f₂, c₂, resolved, rest₂⟩ := bind_ok rest₁
  obtain ⟨receiver, f₃, c₃, received, rest₃⟩ := bind_ok rest₂
  obtain ⟨params, f₄, c₄, came, rest₄⟩ := bind_ok rest₃
  obtain ⟨scope, f₅, c₅, described, rest₅⟩ := bind_ok rest₄
  obtain ⟨_, f₆, c₆, entered, rest₆⟩ := bind_ok rest₅
  obtain ⟨_, f₇, c₇, ran, rest₇⟩ := bind_ok rest₆
  obtain ⟨_, f₈, c₈, got, done⟩ := bind_ok rest₇
  obtain ⟨rfl, rfl, rfl⟩ := get_ok got
  obtain ⟨rfl, rfl, rfl⟩ := pure_ok done
  obtain ⟨_, g₁, t₁, declared, tail⟩ := bind_ok ran
  obtain ⟨_, g₂, t₂, unpacked, last⟩ := bind_ok tail
  have goes₂ := (Goes.ite (.pure trivial) (steps.resolve _) : Runs _ (resultType _ _)).ok resolved
  have goes₃ := (steps.receiverParam _).ok received
  have goes₄ := (steps.incomingParams _).ok came
  have goes₅ := (Goes.asked (answers.describeFunction _ _ _)).ok described
  have goes₆ := Goes.ok (steps.modify fun _ => ⟨rfl, rfl, rfl, rfl, rfl⟩) entered
  have declares := (answers.closes.incoming _).ok declared
  have unpacks := (answers.closes.unpackOptional _).ok unpacked
  obtain ⟨_, g₃, t₃, emitted, returned⟩ := bind_ok last
  have ends := (answers.closes.emitBlock body).ok emitted
  have closed := answers.closes.lastReturn.ok returned
  have before : g₁.subst = f₁.subst ∧ c₁.Recalls D t₁ :=
    Course.Lawful.trans goes₂.1 (Course.Lawful.trans goes₃.1 (Course.Lawful.trans goes₄.1
      (Course.Lawful.trans goes₅.1 (Course.Lawful.trans goes₆.1 declares.1))))
  have types := known t₁ before.2 (Course.Lawful.trans unpacks.1 (Course.Lawful.trans ends.1 closed.1)).2
  rw [captured] at unpacked
  obtain ⟨env, unpacking, added, unpacks⟩ :=
    unpackCaptures_unpacks nonempty (before.1.symm ▸ types) unpacked
  obtain ⟨during, longer⟩ := ((longer_closes.emitBlock body).ok emitted).1
  obtain ⟨after, longer'⟩ := (longer_closes.lastReturn.ok returned).1
  exact ⟨rfl, _, env, unpacking, during, after, _, g₂, g₃, t₂, t₃, added, unpacks, emitted,
    longer.symm, longer'.symm⟩

theorem emitPending_takes (named : l.envType = symbol ++ "_env") (nonempty : l.captures ≠ [])
    (known : ∀ c₁, c.Recalls D c₁ → c₁.Recalls D c' →
      List.Forall₂ (fun ty ir => Gen.resolve ty σ c₁ = .ok ir c₁) (l.captures.map Field.ty) types)
    (run : Gen.emitPending ⟨symbol, .lambda l, σ⟩ c = .ok () c') :
    ∃ d ∈ c'.output.functions, d.symbol = symbol ∧ Takes d l.body (l.captures.zip types) := by
  have emitted := Gen.locating_ok run
  obtain ⟨c₀, c₁, got, rest⟩ := Gen.bind_ok emitted
  cases got
  cases idle : c.active with
  | some active =>
    simp only [idle] at rest
    exact (Gen.fail_ok rest).elim
  | none =>
  simp only [idle] at rest
  obtain ⟨_, c₂, activated, rest⟩ := Gen.bind_ok rest
  cases activated
  obtain ⟨c₃, ran, rfl⟩ := Gen.finally_ok rest
  obtain ⟨⟨d, f'⟩, c₄, defined, added⟩ := Gen.bind_ok ran
  cases added
  have captured : some (Captures.mk l.envType l.captures) = some ⟨symbol ++ "_env", l.captures⟩ :=
    congrArg (fun name => some (Captures.mk name l.captures)) named
  have known' (c₁ : Session) (before : Session.Recalls D { c with active := some symbol } c₁)
      (after : c₁.Recalls D c₄) :=
    known c₁ (before.around (.of_same rfl rfl rfl rfl) (refl_of _ _))
      (after.around (refl_of _ _) (.of_same rfl rfl rfl rfl))
  obtain ⟨same, takes⟩ := functionDef_takes captured nonempty known' defined
  exact ⟨d, List.mem_append_right _ (List.mem_singleton_self d), same, takes⟩

theorem queueLambda_ok (run : queueLambda symbol l f s = .ok ((), f') s') :
    f' = f ∧ ⟨symbol, .lambda l, f.subst⟩ ∈ s'.pending ∧ s'.output = s.output := by
  cases run
  exact ⟨rfl, List.mem_append_right _ (List.mem_singleton_self _), rfl⟩

/-- The types are resolved on the way, and the size is taken where the record has been defined. -/
theorem lambda_makes {info : ExprInfo} {params : List Field}
    (nonempty : captures ≠ []) (run : lambda info params body captures f s = .ok (v, f') s') :
    ∃ symbol types e l s₁ s₂ s₃, s.Leads s₁ ∧ s₂.Leads s' ∧
      Gen.resolveAll (captures.map Field.ty) f.subst s₁ = .ok types s₂ ∧
      .struct (symbol ++ "_env") types ∈ s'.output.typeDefs ∧
      Gen.aggregate types
        { s₂ with output := s₂.output.addTypeDef (.struct (symbol ++ "_env") types) } = .ok e s₃ ∧
      Makes f f' symbol (captures.zip types) e.size ∧
      ⟨symbol, .lambda l, f.subst⟩ ∈ s'.pending ∧ l.envType = symbol ++ "_env" ∧
      l.captures = captures ∧ l.body = body := by
  have leads := Session.Leads.generating
  obtain ⟨ty, f₁, s₁, asked, rest₁⟩ := bind_ok run
  obtain ⟨rfl, substituted⟩ := concrete_ok asked
  have onward₁ : s.Leads s₁ := (Gen.substitute_keeps _ _).of_ok substituted
  cases ty with
  | function _ returnType _ =>
    obtain ⟨id, f₂, s₂, asked, rest₂⟩ := bind_ok rest₁
    obtain ⟨rfl, counted⟩ := lift_ok asked
    obtain ⟨f₀, f₃, s₃, got, rest₃⟩ := bind_ok rest₂
    obtain ⟨rfl, rfl, rfl⟩ := get_ok got
    obtain ⟨ret, f₄, s₄, asked, rest₄⟩ := bind_ok rest₃
    obtain ⟨rfl, returned⟩ := resolve_ok asked
    obtain ⟨paramTypes, f₅, s₅, asked, rest₅⟩ := bind_ok rest₄
    obtain ⟨rfl, passed⟩ := resolveAll_ok asked
    obtain ⟨types, f₆, s₆, asked, rest₆⟩ := bind_ok rest₅
    obtain ⟨rfl, resolved⟩ := resolveAll_ok asked
    obtain ⟨env, f₇, s₇, made, rest₇⟩ := bind_ok rest₆
    obtain ⟨_, f₈, s₈, queued, closed⟩ := bind_ok rest₇
    have isSome : captures.isEmpty = false := List.isEmpty_eq_false_iff.mpr nonempty
    rw [makeEnvironment, isSome] at made
    obtain ⟨_, f₉, s₉, asked, packed⟩ := bind_ok made
    obtain ⟨rfl, defined⟩ := lift_ok asked
    obtain ⟨e, raw, typed, packing, sized, rfl, fills, packs⟩ := packEnvironment_packs packed
    obtain ⟨rfl, pending, written⟩ := queueLambda_ok queued
    obtain ⟨pair, pair', code, pairType, pairs, rfl⟩ := makeClosure_adds closed
    have before : s.Leads s₅ := trans_of _ onward₁ (trans_of _
      (leads.freshLambda.of_ok counted) (trans_of _ ((leads.resolve _ _).of_ok returned)
        ((leads.resolveAll _ _).of_ok passed)))
    have after : s₆.Leads s' := trans_of _ ((leads.environment _ _).of_ok defined)
      (trans_of _ ((leads.extent (.record types)).of_ok sized)
        ((leads.queueLambda _ _ _).of_ok queued))
    have kept : s₉.Writes s₇ := (Session.Writes.lays.replies.extent (.record types)).of_ok sized
    cases defined
    refine ⟨_, types, e, _, s₅, s₆, s₇, before, after, resolved, ?_, sized, ?_,
      fills.subst ▸ pending, rfl, rfl, rfl⟩
    · rw [written]
      exact kept (List.mem_append_right _ (List.mem_singleton_self _))
    · exact ⟨raw, typed, pair, pair', code, pairType, packing, fills.trans pairs, packs⟩
  | _ => exact (fail_ok rest₁).elim

/-- A lambda with captured variables. Its record has their types in their order. Each variable is
stored in its slot with its type, except that it keeps its own if that type is void; and when the
body is emitted, whatever has been generated before, it takes each out of its slot with that type. -/
theorem lambda_environment {m : Module} {info : ExprInfo} {params captures : List Field}
    {body : List Stmt} (isOver : s.Over m) (nonempty : captures ≠ [])
    (run : lambda info params body captures f s = .ok (v, f') s') :
    ∃ symbol types e item s₁ s₂ s₃, s.Leads s₁ ∧ s₂.Leads s' ∧
      Gen.resolveAll (captures.map Field.ty) f.subst s₁ = .ok types s₂ ∧
      .struct (symbol ++ "_env") types ∈ s'.output.typeDefs ∧
      Gen.aggregate types
        { s₂ with output := s₂.output.addTypeDef (.struct (symbol ++ "_env") types) } = .ok e s₃ ∧
      Makes f f' symbol (captures.zip types) e.size ∧
      item.symbol = symbol ∧ item ∈ s'.pending ∧
      ∀ {c c'}, s'.Leads c → c'.Separate m.declarations → Gen.emitPending item c = .ok () c' →
        ∃ d ∈ c'.output.functions, d.symbol = symbol ∧ Takes d body (captures.zip types) := by
  obtain ⟨symbol, types, e, l, s₁, s₂, s₃, before, after, resolved, written, sized, makes, pending,
    named, rfl, rfl⟩ := lambda_makes nonempty run
  refine ⟨symbol, types, e, _, s₁, s₂, s₃, before, after, resolved, written, sized, makes, rfl,
    pending, ?_⟩
  intro c c' leads separate emitted
  refine emitPending_takes (D := m.declarations) named nonempty (fun c₁ onward rest => ?_) emitted
  have separate₁ := rest.onward.separate separate
  -- What was found when the types were resolved is found again in every session after that.
  have known : s.Recalls m.declarations s₁ := before _ Session.Recalls.generating
  have recalls : s₂.Recalls m.declarations c₁ :=
    trans_of _ (trans_of _ after leads _ Session.Recalls.generating) onward
  have separate₀ := ((Session.Recalls.generating.resolveAll _ _).of_ok resolved).onward.separate
    (recalls.onward.separate separate₁)
  have rests := isOver.restsOn (known.onward.separate separate₀)
  exact Gen.resolveAll_again (known.onward.settles separate₀ rests).1 resolved recalls separate₁

def captureModule : Module where
  name := "main"
  decls := []

def captureSession : Session := (Session.ofOptions {}).registerAll captureModule

/-- A lambda in a function with the variables `x` and `y`. -/
def captureRun (captures : List Field) (body : List Stmt) : Gen (Value × Frame) :=
  lambda { ty := .function [] (.primitive .i32) false } [] body captures
    { symbol := "f", subst := {}
      locals := Table.ofList
        [("x", { slot := .temp 0, ty := .primitive .i32, ir := .i32 }),
         ("y", { slot := .named "y", ty := .primitive .u8, ir := .i8 })]
      nextReg := 1 }

/-- The variable `x` is captured as a wider one, and `y` as it is. -/
def widened : List Field := [⟨"x", .primitive .i64⟩, ⟨"y", .primitive .u8⟩]

def returnsCaptured : List Stmt := [.ret (some (.var { ty := .primitive .u8 } "y")) {}]

theorem lambda_environment_widened :
    ∃ v f s, captureRun widened returnsCaptured captureSession = .ok (v, f) s ∧
      captureSession.Over captureModule ∧ ∃ item ∈ s.pending, ∃ c types,
        Gen.emitPending item s = .ok () c ∧ c.Separate captureModule.declarations ∧
        ∃ d ∈ c.output.functions, Takes d returnsCaptured (widened.zip types) := by
  have isOver : captureSession.Over captureModule := ⟨{}, none, .refl⟩
  have checked : (match captureRun widened returnsCaptured captureSession with
      | .ok _ s => s.pending.all fun item => (Gen.emitPending item).reaches s fun c =>
          ∀ n ∈ c.instances.keys, captureModule.declarations.declares n = false
      | .error .. => false) = true := by decide +kernel
  split at checked
  case h_1 v s run =>
    obtain ⟨symbol, types, e, item, _, _, _, -, -, -, -, -, -, -, pending, takes⟩ :=
      lambda_environment isOver (List.cons_ne_nil _ _) run
    obtain ⟨_, c, emitted, separate⟩ :=
      Gen.exists_reached (List.all_eq_true.mp checked item pending)
    have apart := Session.separate_of_keys separate
    obtain ⟨d, member, -, takes⟩ := takes (refl_of _ s) apart emitted
    exact ⟨v.1, v.2, s, run, isOver, item, pending, c, types, emitted, apart, d, member, takes⟩
  · cases checked

/-- The slot is one of type void, and an integer is stored in it. -/
theorem lambda_environment_void :
    ∃ v f s, captureRun [⟨"x", .primitive .void⟩] [] captureSession = .ok (v, f) s ∧
      s.output.typeDefs.map TypeDef.text = ["%struct.f_lambda_0_env = type \x7b void \x7d"] ∧
      "%t4 = getelementptr inbounds %struct.f_lambda_0_env, %struct.f_lambda_0_env* %t2, i32 0, i32 0" ∈
        (instrs f.body.toList).map Instr.text ∧
      "store i32 %t3, i32* %t4" ∈ (instrs f.body.toList).map Instr.text := by
  have checked : (match captureRun [⟨"x", .primitive .void⟩] [] captureSession with
      | .ok (_, f) s => decide (
        s.output.typeDefs.map TypeDef.text = ["%struct.f_lambda_0_env = type \x7b void \x7d"] ∧
        "%t4 = getelementptr inbounds %struct.f_lambda_0_env, %struct.f_lambda_0_env* %t2, i32 0, i32 0"
          ∈ (instrs f.body.toList).map Instr.text ∧
        "store i32 %t3, i32* %t4" ∈ (instrs f.body.toList).map Instr.text)
      | .error .. => false) = true := by decide +kernel
  split at checked
  case h_1 v f s run => exact ⟨v, f, s, run, of_decide_eq_true checked⟩
  · cases checked

end Emit

end Backend
