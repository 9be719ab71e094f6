import Backend.Proofs.Resolution.Requests
import Backend.Proofs.Session.Reached

/-!
References to strings. A body gets the start of a string only by asking for it. So a string that is
mentioned anywhere in a function is in the pool, and is mentioned with its length. `Emit.Refers` is
followed along the rules by which bodies are put together; `Session.Pools` is what any step does to
the pool and to the functions that refer to it.
-/

namespace Backend

open Gen (Moves)

theorem getElem?_of_prefix {α : Type} {xs ys : List α} (starts : xs <+: ys) {i : Nat} {x : α}
    (h : xs[i]? = some x) : ys[i]? = some x := by
  obtain ⟨bound, -⟩ := List.getElem?_eq_some_iff.mp h
  obtain ⟨more, rfl⟩ := starts
  rw [List.getElem?_append_left bound, h]

/-- The operand is the start of no string, or of one of these, with its length. -/
def Operand.Cites (pool : List String) (o : Operand) : Prop :=
  ∀ i n, o = .stringStart i n → ∃ text, pool[i]? = some text ∧ n = stringLength text

def Cite (pool : List String) (os : List Operand) : Prop := ∀ o ∈ os, o.Cites pool

section

variable {pool pool' : List String} {os os' : List Operand} {o : Operand}

theorem Operand.cites_of_ne (h : ∀ i n, o ≠ .stringStart i n) : o.Cites pool :=
  fun i n same => (h i n same).elim

theorem Operand.Cites.mono (h : o.Cites pool) (starts : pool <+: pool') : o.Cites pool' := by
  intro i n same
  obtain ⟨text, found, length⟩ := h i n same
  exact ⟨text, getElem?_of_prefix starts found, length⟩

theorem cite_nil : Cite pool [] := List.forall_mem_nil _

theorem cite_registers {α : Type} (xs : List α) (r : α → Register) :
    Cite pool (xs.map fun x => .reg (r x)) := by
  intro o member
  obtain ⟨x, -, rfl⟩ := List.mem_map.mp member
  exact Operand.cites_of_ne nofun

theorem Cite.of_known (h : AllKnown os os') (known : Cite pool os) : Cite pool os' := by
  intro o member
  rcases h o member with listed | constant
  · exact known o listed
  · exact Operand.cites_of_ne constant.2.2

theorem Cite.instr {i : Instr} {location : Option Nat} (plain : i.isPhi = false)
    (h : AllKnown os i.reads) (known : Cite pool os) :
    Cite pool (Line.instr i location).mentions := by
  have reads := Cite.of_known h known
  rw [Line.mentions, Line.arms, i.arms_of_not_phi plain, List.map_nil, List.append_nil]
  unfold Instr.reads at reads
  split at reads
  · exact List.forall_mem_cons.mpr ⟨Operand.cites_of_ne nofun, reads⟩
  · exact reads

end

/-! ### Sessions -/

namespace Session

/-- What the functions mention of strings is in the pool. -/
def Cited (s : Session) : Prop :=
  ∀ fn ∈ s.output.functions, ∀ line ∈ fn.body, Cite s.output.strings line.mentions

/-- Strings stay where they are, and none comes twice. -/
structure Pools (s s' : Session) : Prop where
  stays : s.output.strings <+: s'.output.strings
  nodup : s.output.strings.Nodup → s'.output.strings.Nodup
  cited : s.Cited → s'.Cited

namespace Pools

variable {s s' : Session}

instance : IsPreorder Session Pools where
  refl _ := ⟨List.prefix_rfl, id, id⟩
  trans _ _ _ h h' := ⟨h.stays.trans h'.stays, h'.nodup ∘ h.nodup, h'.cited ∘ h.cited⟩

theorem of_functions (functions : s'.output.functions = s.output.functions)
    (stays : s.output.strings <+: s'.output.strings)
    (nodup : s.output.strings.Nodup → s'.output.strings.Nodup) : Pools s s' where
  stays := stays
  nodup := nodup
  cited h fn member line inside o mention :=
    (h fn (functions ▸ member) line inside o mention).mono stays

theorem of_same (strings : s'.output.strings = s.output.strings)
    (functions : s'.output.functions = s.output.functions) : Pools s s' :=
  of_functions functions (strings ▸ List.prefix_rfl) (strings ▸ id)

theorem around {s₀ s₀' : Session} (h : Pools s₀ s₀') (before : Pools s s₀) (after : Pools s₀' s') :
    Pools s s' :=
  trans_of Pools (trans_of Pools before h) after

theorem tell (call : DebugCall) : Moves Pools (Gen.tell call) :=
  .tell (fun _ _ => of_same rfl rfl) call

theorem internString (text : String) : Moves Pools (Gen.internString text) := by
  intro s
  change Pools s { s with output := (s.output.intern text).2 }
  unfold Output.intern
  split
  case h_1 => exact of_same rfl rfl
  case h_2 missing =>
    refine of_functions rfl (List.prefix_append _ _) fun nodup => ?_
    have absent := List.idxOf?_eq_none_iff.mp missing
    exact List.nodup_append.mpr ⟨nodup, List.nodup_singleton _, fun a member b new same =>
      absent (List.mem_singleton.mp new ▸ same ▸ member)⟩

theorem lays : Session.Lays (.always Pools) where
  forward _ _ := by unfold Output.addForward; split <;> exact of_same rfl rfl
  request _ := .of_ok (Gen.requestBody_run ..) (of_same rfl rfl)
  nest h := h.around (of_same rfl rfl) (of_same rfl rfl)
  nestHalts h := h.around (of_same rfl rfl) (of_same rfl rfl)
  mark _ h := h.around (of_same rfl rfl) (of_same rfl rfl)
  markHalts _ h := h.around (of_same rfl rfl) (of_same rfl rfl)
  slots _ _ _ h := h.around (of_same rfl rfl) (of_same rfl rfl)
  struct level _ _ _ _ h := level.finishes
    ((Resolution.describeStruct_keeps level.define tell (fun _ _ _ => of_same rfl rfl) _ _ _).from
      (h.around (of_same rfl rfl) (of_same rfl rfl)))
    fun _ _ h h' => h'.around h (of_same rfl rfl)
  enum _ _ _ _ _ h := h.around (of_same rfl rfl) (of_same rfl rfl)
  make _ _ _ h := h.around (of_same rfl rfl) (of_same rfl rfl)
  makeHalts _ h := h.around (of_same rfl rfl) (of_same rfl rfl)
  begin _ := of_same rfl rfl

theorem answers : Session.Answers (.always Pools) where
  toReplies := lays.replies
  tell call _ := tell call
  internString := internString
  freshLambda _ := of_same rfl rfl
  environment _ _ _ := of_same rfl rfl
  describeFunction := Session.describeFunction_keeps lays.replies.define fun call _ => tell call
  queueLambda _ _ _ _ _ := of_same rfl rfl

end Pools

end Session

/-- The string is in the pool from then on, and the answer is its start. -/
theorem Gen.internString_cites {text : String} {s s' : Session} {o : Operand} {pool : List String}
    (run : internString text s = .ok o s') (starts : s'.output.strings <+: pool) :
    ∃ i, o = .stringStart i (stringLength text) ∧ pool[i]? = some text := by
  have found : (s.output.intern text).2.strings[(s.output.intern text).1]? = some text := by
    unfold Output.intern
    split
    case h_1 i found =>
      obtain ⟨bound, same, -⟩ := List.idxOf?_eq_some_iff.mp found
      exact List.getElem?_eq_some_iff.mpr ⟨bound, same⟩
    case h_2 => exact List.getElem?_concat_length
  cases run
  exact ⟨_, rfl, getElem?_of_prefix starts found⟩

/-! ### Bodies -/

namespace Emit

variable {α β : Type} {os os' : List Operand} {x : Emit α} {k : α → Emit β}
  {R : α → List Operand} {R' : β → List Operand}

/-- Strings are added to the pool. With `os`, what the result makes readable and what is mentioned in
new lines refers to the strings that are there afterwards. -/
def Refers (os : List Operand) (x : Emit α) (R : α → List Operand) : Prop :=
  ∀ ⦃f s a f' s'⦄, x f s = .ok (a, f') s' → s.output.strings <+: s'.output.strings ∧
    ∀ pool, s'.output.strings <+: pool → Cite pool os →
      Cite pool (R a) ∧ ∀ line ∈ f'.body.toList, line ∈ f.body.toList ∨ Cite pool line.mentions

namespace Refers

theorem weaken (h : Refers os x R) (known : ∀ pool, Cite pool os' → Cite pool os) :
    Refers os' x R := by
  intro f s a f' s' run
  obtain ⟨grows, cites⟩ := h run
  exact ⟨grows, fun pool starts given => cites pool starts (known pool given)⟩

theorem forget (h : Refers os x R) : Refers os x fun _ => [] :=
  fun _ _ _ _ _ run => ⟨(h run).1, fun pool starts given =>
    ⟨cite_nil, ((h run).2 pool starts given).2⟩⟩

theorem anywhere (h : Refers [] x R) : Refers os x R := h.weaken fun _ _ => cite_nil

theorem bind (first : Refers os x R) (rest : ∀ a, Refers (R a ++ os) (k a) R') :
    Refers os (x >>= k) R' := by
  intro f s b f' s' run
  obtain ⟨a, f₁, s₁, ran, run⟩ := bind_ok run
  obtain ⟨grows, cites⟩ := first ran
  obtain ⟨grows', cites'⟩ := rest a run
  refine ⟨grows.trans grows', fun pool starts known => ?_⟩
  obtain ⟨result, lines⟩ := cites pool (grows'.trans starts) known
  obtain ⟨result', lines'⟩ := cites' pool starts (List.forall_mem_append.mpr ⟨result, known⟩)
  exact ⟨result', fun line member => (lines' line member).elim (lines line) .inr⟩

theorem andThen (first : Refers os x fun _ => []) (rest : ∀ a, Refers os (k a) R') :
    Refers os (x >>= k) R' := first.bind rest

theorem pure {a : α} (known : ∀ pool, Cite pool os → Cite pool (R a)) :
    Refers os (pure a) R := by
  intro f s b f' s' run
  obtain ⟨rfl, rfl, rfl⟩ := pure_ok run
  exact ⟨List.prefix_rfl, fun pool _ given => ⟨known pool given, fun _ member => .inl member⟩⟩

theorem done {a : α} : Refers os (Pure.pure a : Emit α) fun _ => [] := pure fun _ _ => cite_nil

theorem fail (cause : Cause) : Refers os (fail cause : Emit α) R :=
  fun _ _ _ _ _ run => (fail_ok run).elim

theorem ite {c : Prop} [Decidable c] {y : Emit α} (yes : Refers os x R) (no : Refers os y R) :
    Refers os (if c then x else y) R := by
  split
  · exact yes
  · exact no

/-- The frame alone changes, and gets no lines. -/
theorem of_frame (h : ∀ f s, ∃ a f', x f s = .ok (a, f') s ∧ f'.body = f.body ∧
    ∀ pool, Cite pool (R a)) : Refers os x R := by
  intro f s a f' s' run
  obtain ⟨b, g, ran, body, cites⟩ := h f s
  cases ran.symm.trans run
  exact ⟨List.prefix_rfl, fun pool _ _ => ⟨cites pool, fun _ member => .inl (body ▸ member)⟩⟩

theorem get : Refers os (get : Emit Frame) fun _ => [] :=
  of_frame fun f _ => ⟨f, f, rfl, rfl, fun _ => cite_nil⟩

theorem modify {g : Frame → Frame} (same : ∀ f, (g f).body = f.body) :
    Refers os (modify g : Emit Unit) fun _ => [] :=
  of_frame fun f _ => ⟨(), g f, rfl, same f, fun _ => cite_nil⟩

theorem freshLabel (stem : String) : Refers os (freshLabel stem) fun _ => [] :=
  of_frame fun _ _ => ⟨_, _, rfl, rfl, fun _ => cite_nil⟩

theorem freshReg : Refers os freshReg fun r => [.reg r] :=
  of_frame fun _ _ => ⟨_, _, rfl, rfl, fun _ => cite_registers [_] id⟩

theorem lift {x : Gen α} (moves : Moves Session.Pools x)
    (result : ∀ {s a s' pool}, x s = .ok a s' → s'.output.strings <+: pool → Cite pool (R a)) :
    Refers os (liftM x : Emit α) R := by
  intro f s a f' s' run
  obtain ⟨rfl, ran⟩ := lift_ok run
  exact ⟨(moves.of_ok ran).stays, fun pool starts _ =>
    ⟨result ran starts, fun _ member => .inl member⟩⟩

theorem asked {x : Gen α} (moves : Moves Session.Pools x) :
    Refers os (liftM x : Emit α) fun _ => [] :=
  lift moves fun _ _ => cite_nil

theorem ask {x : Gen α} (question : x.Question) : Refers os (liftM x : Emit α) fun _ => [] := by
  intro f s a f' s' run
  obtain ⟨-, pools⟩ := ((Session.Pools.answers.steps.ask question).ok run).1
  obtain ⟨rfl, -⟩ := lift_ok run
  exact ⟨pools.stays, fun _ _ _ => ⟨cite_nil, fun _ member => .inl member⟩⟩

theorem internString (text : String) :
    Refers os (liftM (Gen.internString text) : Emit Operand) fun o => [o] := by
  refine lift (Session.Pools.internString text) fun run starts => ?_
  obtain ⟨i, rfl, found⟩ := Gen.internString_cites run starts
  refine List.forall_mem_singleton.mpr fun j n same => ?_
  cases same
  exact ⟨text, found, rfl⟩

theorem pushLine (line : Line) (h : ∀ pool, Cite pool os → Cite pool line.mentions) :
    Refers os (pushLine line) fun _ => [] := by
  intro f s a f' s' run
  cases run
  refine ⟨List.prefix_rfl, fun pool _ given => ⟨cite_nil, fun other member => ?_⟩⟩
  rw [Array.toList_push] at member
  rcases List.mem_append.mp member with old | new
  · exact .inl old
  · exact .inr (List.mem_singleton.mp new ▸ h pool given)

theorem orFail (value : Option α) (cause : Cause) :
    Refers os (orFail value cause : Emit α) fun _ => [] := by
  cases value with
  | none => exact fail cause
  | some a => exact done

theorem forM {x : α → Emit PUnit} {xs : List α} (h : ∀ a ∈ xs, Refers os (x a) fun _ => []) :
    Refers os (xs.forM x) fun _ => [] := by
  induction xs with
  | nil => exact done
  | cons a rest ih =>
    exact (h a List.mem_cons_self).andThen fun _ =>
      ih fun a member => h a (List.mem_cons_of_mem _ member)

theorem inScope (h : Refers os x R) : Refers os (inScope x) R :=
  get.andThen fun _ => h.bind fun _ => .andThen (modify fun _ => rfl) fun _ =>
    pure fun _ given => (List.forall_mem_append.mp given).1

theorem locating (l : Location) (h : Refers os x R) : Refers os (locating l x) R :=
  fun _ _ _ _ _ run => h (Gen.locating_ok run)

/-! ### Lines and blocks -/

theorem enter (label : Label) : Refers os (enter label) fun _ => [] :=
  (pushLine (.label label) fun _ _ => cite_nil).andThen fun _ =>
    modify (g := fun f => { f with block := label, terminated := false }) fun _ => rfl

theorem reopen : Refers os reopen fun _ => [] :=
  get.andThen fun _ => ite ((freshLabel _).andThen fun _ => enter _) done

theorem emit {i : Instr}
    (h : ∀ pool location, Cite pool os → Cite pool (Line.instr i location).mentions) :
    Refers os (emit i) fun _ => [] :=
  reopen.andThen fun _ => get.andThen fun _ => pushLine _ fun pool => h pool _

theorem emitValue (ty : IrType) {i : Register → Instr}
    (h : ∀ r pool location, Cite pool os → Cite pool (Line.instr (i r) location).mentions) :
    Refers os (emitValue ty i) fun v => [v.operand] :=
  freshReg.bind fun r => .andThen
    (emit fun pool location given => h r pool location (List.forall_mem_append.mp given).2)
    fun _ => pure fun _ given => (List.forall_mem_append.mp given).1

theorem terminate {t : Terminator} (h : ∀ pool, Cite pool os → Cite pool t.operands) :
    Refers os (terminate t) fun _ => [] :=
  reopen.andThen fun _ => get.andThen fun _ => .andThen
    (pushLine _ fun pool given => by
      simpa [Line.mentions, Line.arms, Line.operands] using h pool given)
    fun _ => modify fun _ => rfl

theorem leave {t : Terminator} (h : t.operands = []) : Refers os (Emit.terminate t) fun _ => [] :=
  terminate fun _ _ => h ▸ cite_nil

theorem startBlock (label : Label) : Refers os (startBlock label) fun _ => [] :=
  get.andThen fun _ => ite (enter label)
    ((pushLine (.term (.jump label) none) fun _ _ => cite_nil).andThen fun _ => enter label)

theorem jumpTo (label : Label) : Refers os (jumpTo label) fun _ => [] :=
  get.andThen fun _ => ite done (leave rfl)

theorem alloca (ty : IrType) : Refers os (alloca ty) fun r => [.reg r] :=
  freshReg.bind fun _ => .andThen (modify fun _ => rfl) fun _ =>
    pure fun _ given => (List.forall_mem_append.mp given).1

theorem setLocation (location : Location) : Refers os (setLocation location) fun _ => [] := by
  refine get.andThen fun f => .andThen ?_ fun _ => modify fun _ => rfl
  cases f.scope with
  | none => exact done
  | some scope => exact asked (.ite (.pure _) (Session.Pools.tell _))

theorem placed (location : Location) {x : Emit Unit} (h : Refers os x fun _ => []) :
    Refers os (placed location x) fun _ => [] :=
  (setLocation location).andThen fun _ => h.locating location

/-! ### Expressions that branch -/

theorem resolve (ty : TypeRef) : Refers os (resolve ty) fun _ => [] :=
  get.andThen fun _ => ask (.resolve _ _)

theorem resolveAll (types : List TypeRef) : Refers os (resolveAll types) fun _ => [] :=
  get.andThen fun _ => ask (.resolveAll _ _)

theorem phi (ty : IrType) {arms : List (Operand × Label)}
    (h : ∀ pool, Cite pool os → Cite pool (arms.map Prod.fst)) :
    Refers os (Emit.emitValue ty fun dst => .phi dst ty arms) fun v => [v.operand] :=
  emitValue ty fun _ pool _ given => h pool given

theorem shortCircuit {lhs rhs : Code} (hl : Refers [] lhs.condition fun o => [o])
    (hr : Refers [] rhs.condition fun o => [o]) (stem : String) (continueOn : Bool) :
    Refers os (shortCircuit stem continueOn lhs rhs) fun v => [v.operand] := by
  refine (freshLabel _).andThen fun _ => (freshLabel _).andThen fun _ => ?_
  refine hl.anywhere.bind fun l => get.andThen fun _ => .andThen (terminate fun pool given => ?_) ?_
  · have read : l.Cites pool := given l List.mem_cons_self
    split <;> exact List.forall_mem_singleton.mpr read
  refine fun _ => (startBlock _).andThen fun _ => hr.anywhere.bind fun r => ?_
  refine get.andThen fun _ => (leave rfl).andThen fun _ => (startBlock _).andThen fun _ => ?_
  refine phi _ fun pool given => List.forall_mem_cons.mpr ⟨Operand.cites_of_ne nofun, ?_⟩
  exact List.forall_mem_singleton.mpr (given r List.mem_cons_self)

theorem ternaryBranch {branch : Code} {target : IrType}
    (h : Refers [] (branch.coerced target) fun v => [v.operand]) (label endLabel : Label) :
    Refers os (ternaryBranch label endLabel branch target) fun r => [r.1] :=
  (startBlock _).andThen fun _ => h.anywhere.bind fun _ => (leave rfl).andThen fun _ =>
    get.andThen fun _ => pure fun _ given => (List.forall_mem_append.mp given).1

theorem ternary {condition thenValue elseValue : Code}
    (hc : Refers [] condition.condition fun o => [o])
    (ht : ∀ target, Refers [] (thenValue.coerced target) fun v => [v.operand])
    (he : ∀ target, Refers [] (elseValue.coerced target) fun v => [v.operand]) (ty : TypeRef) :
    Refers os (ternary condition thenValue elseValue ty) fun v => [v.operand] := by
  refine (resolve ty).andThen fun target => hc.anywhere.bind fun test => ?_
  refine (freshLabel _).andThen fun _ => (freshLabel _).andThen fun _ => (freshLabel _).andThen ?_
  refine fun _ => .andThen (terminate fun pool given => ?_) fun _ => ?_
  · exact List.forall_mem_singleton.mpr (given test List.mem_cons_self)
  refine (ternaryBranch (ht target) _ _).bind fun first => ?_
  refine (ternaryBranch (he target) _ _).bind fun second => (startBlock _).andThen fun _ => ?_
  refine ite (pure fun _ _ => List.forall_mem_singleton.mpr (Operand.cites_of_ne nofun)) ?_
  refine phi _ fun pool given => List.forall_mem_cons.mpr ⟨?_, List.forall_mem_singleton.mpr ?_⟩
  · exact given _ (List.mem_cons_of_mem _ List.mem_cons_self)
  · exact given _ List.mem_cons_self

theorem armTargets (layout : EnumLayout) (arms : List ArmCode) :
    Refers os (armTargets layout arms) fun _ => [] := by
  induction arms with
  | nil => exact done
  | cons arm rest ih =>
    refine (freshLabel _).andThen fun _ => .andThen ?_ fun _ => ih.andThen fun _ => done
    unfold armTag
    split
    · exact (orFail _ _).andThen fun _ => done
    · exact done

theorem matchSwitch {layout : EnumLayout} {base : Operand} {result : MatchResult} {tag : Value}
    {arms : List ArmCode} (known : Known os tag.operand)
    (body : ∀ arm ∈ arms,
      Refers os (Emit.inScope do bindArm layout base arm; arm.body.value) fun v => [v.operand])
    (keep : ∀ arm ∈ arms, ∀ v : Value,
      Refers (v.operand :: os) (keepResult result v arm.body.ty) fun _ => []) (name : String) :
    Refers os (matchSwitch name layout base result tag arms) fun _ => [] := by
  refine (freshLabel _).andThen fun _ => (freshLabel _).andThen fun _ => ?_
  refine (armTargets layout arms).andThen fun _ => .andThen (terminate fun pool given => ?_) fun _ => ?_
  · exact Cite.of_known (List.forall_mem_singleton.mpr known) given
  refine .andThen (forM fun arm member => ?_) fun _ => ?_
  · have member := (List.of_mem_zip member).1
    refine (startBlock _).andThen fun _ => (body _ member).bind fun v => ?_
    exact (keep _ member v).andThen fun _ => jumpTo _
  · refine ite (.andThen ?_ fun _ => startBlock _) (startBlock _)
    refine (startBlock _).andThen fun _ => (internString _).bind fun message => ?_
    refine .andThen (emit fun pool location given => ?_) fun _ => leave rfl
    refine List.forall_mem_cons.mpr ⟨Operand.cites_of_ne nofun, ?_⟩
    exact List.forall_mem_singleton.mpr (given message List.mem_cons_self)

/-! ### Function values -/

theorem makeClosure (symbol : String) (ret : IrType) (params : List IrType) {env : Operand}
    (h : ∀ pool, Cite pool os → env.Cites pool) :
    Refers os (makeClosure symbol ret params env) fun v => [v.operand] := by
  refine (emitValue _ fun r pool location given => ?_).bind fun v =>
    emitValue _ fun r pool location given => ?_
  · exact List.forall_mem_cons.mpr ⟨Operand.cites_of_ne nofun,
      List.forall_mem_singleton.mpr (Operand.cites_of_ne nofun)⟩
  · obtain ⟨first, later⟩ := List.forall_mem_cons.mp given
    exact List.forall_mem_cons.mpr ⟨first, List.forall_mem_singleton.mpr (h pool later)⟩

theorem functionRef (name : String) (typeArgs : List TypeRef) :
    Refers os (functionRef name typeArgs) fun v => [v.operand] :=
  (get.andThen fun _ => ask (.functionTarget _ _ _)).andThen fun _ =>
    makeClosure _ _ _ fun _ _ => Operand.cites_of_ne nofun

theorem lambda (info : ExprInfo) (params : List Field) (body : List Stmt) {captures : List Field}
    (environment : ∀ name types, Refers [] (makeEnvironment name captures types) fun o => [o]) :
    Refers os (lambda info params body captures) fun v => [v.operand] := by
  refine (get.andThen fun _ => ask (.substitute _ _)).andThen fun ty => ?_
  split
  · refine (asked Session.Pools.answers.freshLambda).andThen fun id => get.andThen fun f => ?_
    refine (resolve _).andThen fun ret => (resolveAll _).andThen fun _ => ?_
    refine (resolveAll _).andThen fun types => (environment _ types).anywhere.bind fun env => ?_
    refine .andThen (get.andThen fun _ => asked fun _ => .of_same rfl rfl) fun _ => ?_
    exact makeClosure _ _ _ fun _ given => given env List.mem_cons_self
  · exact fail _

/-! ### Statements that branch -/

theorem inBlock (label next : Label) {body : Emit Unit} (h : Refers os body fun _ => []) :
    Refers os (inBlock label next body) fun _ => [] :=
  (startBlock _).andThen fun _ => h.andThen fun _ => jumpTo _

theorem ifElse {condition : Code} (hc : Refers [] condition.condition fun o => [o])
    {thenBlock : Emit Unit} (ht : Refers [] thenBlock fun _ => [])
    {elseBlock : Option (Emit Unit)} (he : ∀ x ∈ elseBlock, Refers [] x fun _ => []) :
    Refers [] (ifElse condition thenBlock elseBlock) fun _ => [] := by
  refine hc.bind fun test => (freshLabel _).andThen fun _ => (freshLabel _).andThen fun _ => ?_
  have branch (yes no : Label) : Refers [test] (Emit.terminate (.branch test yes no)) fun _ => [] :=
    terminate fun _ given => given
  cases elseBlock with
  | none =>
    exact (branch _ _).andThen fun _ => (inBlock _ _ ht.anywhere).andThen fun _ => startBlock _
  | some block =>
    refine (freshLabel _).andThen fun _ => (branch _ _).andThen fun _ => ?_
    exact (inBlock _ _ ht.anywhere).andThen fun _ =>
      (inBlock _ _ (he block rfl).anywhere).andThen fun _ => startBlock _

theorem whileLoop {condition : Code} (hc : Refers [] condition.condition fun o => [o])
    {body : Emit Unit} (h : Refers [] body fun _ => []) :
    Refers [] (whileLoop condition body) fun _ => [] := by
  refine (freshLabel _).andThen fun _ => (freshLabel _).andThen fun _ => (freshLabel _).andThen ?_
  refine fun _ => (startBlock _).andThen fun _ => hc.bind fun test => ?_
  refine .andThen (terminate fun _ given => given) fun _ => ?_
  refine (inBlock _ _ (get.andThen fun _ => ?_)).andThen fun _ => startBlock _
  refine .andThen (modify fun _ => rfl) fun _ => h.anywhere.andThen fun _ => modify fun _ => rfl

theorem loopJump (keyword : String) (target : LoopLabels → Label) :
    Refers os (loopJump keyword target) fun _ => [] := by
  refine get.andThen fun f => ?_
  split
  · exact leave rfl
  · exact fail _

theorem labelCases (cases : List (Int × Emit Unit)) :
    Refers os (labelCases cases) fun _ => [] := by
  induction cases with
  | nil => exact done
  | cons c rest ih => exact (freshLabel _).andThen fun _ => ih.andThen fun _ => done

theorem switchCases {v : Value} (known : Known os v.operand) (endLabel defaultLabel : Label)
    {cases : List (Int × Emit Unit)} (h : ∀ c ∈ cases, Refers [] c.2 fun _ => []) :
    Refers os (switchCases v endLabel defaultLabel cases) fun _ => [] := by
  intro f s a f' s' run
  obtain ⟨labelled, f₁, s₁, ran, run⟩ := bind_ok run
  obtain ⟨grows, cites⟩ := labelCases cases ran
  have same : labelled.map (fun c => c.2.2) = cases.map Prod.snd :=
    (longer_steps.labelCases cases).ok ran |>.2
  have rest : Refers os (do
      Emit.terminate (.switch v defaultLabel (firstCases (labelled.map fun c => (c.1, c.2.1))))
      labelled.forM fun c => Emit.inBlock c.2.1 endLabel c.2.2) fun _ => [] := by
    refine .andThen (terminate fun pool given => ?_) fun _ => forM fun c member => inBlock _ _ ?_
    · exact Cite.of_known (List.forall_mem_singleton.mpr known) given
    · obtain ⟨c', member', body⟩ := List.mem_map.mp (same ▸ List.mem_map_of_mem member)
      exact body ▸ (h c' member').anywhere
  obtain ⟨grows', cites'⟩ := rest run
  refine ⟨grows.trans grows', fun pool starts given => ⟨cite_nil, fun line member => ?_⟩⟩
  exact ((cites' pool starts given).2 line member).elim
    ((cites pool (grows'.trans starts) given).2 line) .inr

theorem switchOn {v : Value} (known : Known os v.operand) {cases : List (Int × Emit Unit)}
    (h : ∀ c ∈ cases, Refers [] c.2 fun _ => []) {default : Option (Emit Unit)}
    (hd : ∀ x ∈ default, Refers [] x fun _ => []) :
    Refers os (switchOn v cases default) fun _ => [] := by
  refine (freshLabel _).andThen fun _ => ?_
  cases default with
  | none => exact (switchCases known _ _ h).andThen fun _ => startBlock _
  | some body =>
    refine (freshLabel _).andThen fun _ => (switchCases known _ _ h).andThen fun _ => ?_
    exact (inBlock _ _ (hd body rfl).anywhere).andThen fun _ => startBlock _

end Refers

/-! ### All code -/

theorem Yields.refers {b : Bool} (h : Yields b os x R) : Refers os x R := by
  induction h with
  | weaken _ known ih => exact ih.weaken fun _ => Cite.of_known known
  | bind _ _ first rest => exact first.bind rest
  | pure known => exact .pure fun _ => Cite.of_known known
  | fail cause => exact .fail cause
  | get => exact .get
  | session => exact .asked fun _ => .of_same rfl rfl
  | ask question => exact .ask question
  | internString text => exact .internString text
  | emit plain _ known => exact .emit fun _ _ => Cite.instr plain known
  | emitValue ty plain known => exact .emitValue ty fun r _ _ => Cite.instr (plain r).1 (known r)
  | alloca ty => exact .alloca ty
  | findLocal? name => exact Refers.get.andThen fun f => .pure fun _ _ => cite_registers _ _
  | bindSlot ty name _ _ filled =>
    exact (Refers.alloca ty).bind fun r => (filled r).andThen fun _ => .modify fun _ => rfl
  | inScope _ ih => exact ih.inScope
  | and _ _ left right => exact .shortCircuit left right _ _
  | or _ _ left right => exact .shortCircuit left right _ _
  | ternary ty _ _ _ test onTrue onFalse => exact .ternary test onTrue onFalse ty
  | matchSwitch name known _ _ body keep => exact .matchSwitch known body keep name
  | functionRef name typeArgs => exact .functionRef name typeArgs
  | lambda info params body _ environment => exact .lambda info params body environment

theorem Acts.refers {b : Bool} (h : Acts b os x) : Refers os x fun _ => [] := by
  induction h with
  | step h => exact h.refers.forget
  | anywhere _ ih => exact ih.anywhere
  | bind first _ rest => exact first.refers.bind rest
  | andThen _ _ first rest => exact first.andThen rest
  | inScope _ ih => exact ih.inScope
  | placed location _ ih => exact .placed location ih
  | terminate _ known => exact .terminate fun _ => Cite.of_known known
  | ifElse test _ _ onTrue onFalse => exact .ifElse test.refers onTrue onFalse
  | whileLoop test _ ih => exact .whileLoop test.refers ih
  | loopJump keyword _ => exact .loopJump keyword _
  | switchOn known _ _ each otherwise => exact .switchOn known each otherwise

namespace Refers

theorem incomingParams (params : List Field) : Refers os (incomingParams params) fun _ => [] := by
  unfold Emit.incomingParams
  induction params with
  | nil => exact done
  | cons p rest ih =>
    rw [List.mapM_cons]
    refine .andThen ?_ fun _ => ih.andThen fun _ => done
    exact (resolve _).andThen fun _ => done

theorem receiverParam (receiver : Option String) :
    Refers os (receiverParam receiver) fun _ => [] := by
  cases receiver with
  | none => exact done
  | some owner => exact (ask (.ownerType _)).andThen fun _ => done

theorem functionDef (sig : Signature) (body : List Stmt) :
    Refers [] (functionDef sig body) fun _ => [] := by
  refine get.andThen fun _ => .andThen (ite done (resolve _)) fun _ => ?_
  refine (receiverParam _).andThen fun receiver => (incomingParams _).andThen fun params => ?_
  refine (asked (Session.Pools.answers.describeFunction _ _ _)).andThen fun _ => ?_
  refine .andThen (modify fun _ => rfl) fun _ => .andThen ?_ fun _ => get.andThen fun _ => done
  refine (functionBody_acts_incoming _ sig.captures body).refers.weaken fun pool _ => ?_
  exact List.forall_mem_cons.mpr ⟨Operand.cites_of_ne nofun, cite_registers _ _⟩

end Refers

theorem functionDef_body {sig : Signature} {body : List Stmt} {f f' : Frame} {s s' : Session}
    {fn : FunctionDef} (run : functionDef sig body f s = .ok (fn, f') s') :
    fn.body = f'.body.toList := by
  obtain ⟨_, _, _, -, run⟩ := bind_ok run
  obtain ⟨_, _, _, -, run⟩ := bind_ok run
  obtain ⟨_, _, _, -, run⟩ := bind_ok run
  obtain ⟨_, _, _, -, run⟩ := bind_ok run
  obtain ⟨_, _, _, -, run⟩ := bind_ok run
  obtain ⟨_, _, _, -, run⟩ := bind_ok run
  obtain ⟨_, _, _, -, run⟩ := bind_ok run
  obtain ⟨_, _, _, got, run⟩ := bind_ok run
  obtain ⟨rfl, rfl, rfl⟩ := get_ok got
  obtain ⟨rfl, rfl, rfl⟩ := pure_ok run
  rfl

end Emit

/-- A string that is mentioned in a function is in the pool when the function is added. -/
theorem Session.Wrote.cites {s : Session} {fn : FunctionDef} (h : s.Wrote fn) :
    ∀ line ∈ fn.body, Cite s.output.strings line.mentions := by
  cases h with
  | body run =>
    obtain ⟨-, cites⟩ := Emit.Refers.functionDef _ _ run
    rw [Emit.functionDef_body run]
    intro line member
    exact ((cites _ List.prefix_rfl cite_nil).2 line member).elim
      (fun old => (List.not_mem_nil old).elim) id
  | runtime run =>
    obtain ⟨i, rfl, found⟩ := Gen.internString_cites run List.prefix_rfl
    have text : (Operand.stringStart i (stringLength _)).Cites s.output.strings := fun j n same => by
      cases same
      exact ⟨_, found, rfl⟩
    have others {o : Operand} (h : ∀ i n, o ≠ .stringStart i n) : o.Cites s.output.strings :=
      Operand.cites_of_ne h
    intro line member
    simp only [Gen.panicFunction, List.mem_cons, List.not_mem_nil, or_false] at member
    rcases member with rfl | rfl | rfl
    · exact List.forall_mem_cons.mpr ⟨others nofun, List.forall_mem_cons.mpr
        ⟨text, List.forall_mem_singleton.mpr (others nofun)⟩⟩
    · exact List.forall_mem_cons.mpr ⟨others nofun, List.forall_mem_singleton.mpr (others nofun)⟩
    · exact cite_nil

theorem Session.Pools.generates : Session.Generates (.always Pools) where
  toReplies := lays.replies
  tell call _ := tell call
  internString := internString
  freshLambda _ := of_same rfl rfl
  environment _ _ _ := of_same rfl rfl
  queueLambda _ _ _ _ := of_same rfl rfl
  instantiate := lays.instantiated
  queueMethods := lays.queueMethods
  beginInstance _ _ _ _ := of_same rfl rfl
  completeInstance _ _ := of_same rfl rfl
  activate _ h := h.around (of_same rfl rfl) (of_same rfl rfl)
  activateHalts _ h := h.around (of_same rfl rfl) (of_same rfl rfl)
  dequeue _ _ := of_same rfl rfl
  own _ _ _ := of_same rfl rfl
  declare _ _ := of_same rfl rfl
  addFunction _ _ _ wrote := {
    stays := List.prefix_rfl
    nodup := id
    cited := fun h fn member => (List.mem_append.mp member).elim (h fn) fun new =>
      List.mem_singleton.mp new ▸ wrote.cites }
  register _ _ := of_same rfl rfl

end Backend
