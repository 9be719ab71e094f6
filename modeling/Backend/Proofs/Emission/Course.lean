import Backend.Proofs.Emission.Function
import Backend.Proofs.Session.Replies

/-!
What bodies do to frame and session. `Emit.Goes K x Q` says that the runs of `x` keep to a course `K`
and that results have `Q`. A course that has all steps which leave names and loops alone
(`Emit.Steps`), and is kept to by scopes and loops whose bodies keep to it (`Emit.Closes`), is kept to
by all code that is put together by the rules.
-/

namespace Backend

/-- The frames are of the same function, have the same lines, names and loops. -/
structure Frame.Same (f f' : Frame) : Prop where
  symbol : f'.symbol = f.symbol
  subst : f'.subst = f.subst
  body : f'.body = f.body
  locals : f'.locals = f.locals
  loops : f'.loops = f.loops

namespace Emit

variable {α β : Type}

/-! ### Courses -/

/-- How frame and session may change, and the session alone if a run does not succeed. -/
structure Course where
  goes : Frame × Session → Frame × Session → Prop
  halts : Bool → Session → Session → Prop

namespace Course

class Lawful (K : Course) : Prop where
  refl : ∀ p, K.goes p p
  trans : ∀ {p q r}, K.goes p q → K.goes q r → K.goes p r
  stop : ∀ fatal s, K.halts fatal s s
  after : ∀ {fatal p q s}, K.goes p q → K.halts fatal q.2 s → K.halts fatal p.2 s

def asking (K : Course) (f : Frame) : Session.Course := ⟨fun s s' => K.goes (f, s) (f, s'), K.halts⟩

instance (K : Course) [K.Lawful] (f : Frame) : (K.asking f).Lawful where
  refl s := Lawful.refl (f, s)
  trans := Lawful.trans
  stop := Lawful.stop
  after := Lawful.after

end Course

def Goes (K : Course) (x : Emit α) (Q : α → Prop) : Prop :=
  ∀ f s, match x f s with
    | .ok r s' => K.goes (f, s) (r.2, s') ∧ Q r.1
    | .error h s' => K.halts h.isFatal s s'

abbrev Runs (K : Course) (x : Emit α) : Prop := Goes K x fun _ => True

/-- What bodies do by steps that leave names and loops alone. -/
structure Steps (K : Course) : Prop where
  same : ∀ {f f' s}, f.Same f' → K.goes (f, s) (f', s)
  push : ∀ {f s line}, K.goes (f, s) ({ f with body := f.body.push line }, s)
  replies : ∀ f, Session.Replies (K.asking f)
  tell : ∀ f call, call.struct? = none → Gen.Keeps (K.asking f) (Gen.tell call)
  internString : ∀ f text, Gen.Keeps (K.asking f) (Gen.internString text)
  freshLambda : ∀ f, Gen.Keeps (K.asking f) Gen.freshLambda
  environment : ∀ f name types,
    Gen.Keeps (K.asking f) (Gen.modifyOutput fun o => o.addTypeDef (.struct name types))
  queueLambda : ∀ (symbol : String) (id : Nat) body,
    Runs K (queueLambda (symbol ++ s!"_lambda_{id}") body)

/-- Courses of code that may leave names bound, and of code that does not. -/
structure Closes (K : Bool → Course) : Prop where
  steps : ∀ b, Steps (K b)
  bindLocal : ∀ name l, Runs (K true) (bindLocal name l)
  inScope : ∀ {α : Type} {b b' : Bool} {x : Emit α}, Runs (K b) x → Runs (K b') (inScope x)
  inLoop : ∀ {b : Bool} {x : Emit Unit} labels, Runs (K b) x → Runs (K b) (inLoop labels x)

/-! ### Steps put together -/

namespace Goes

variable {K : Course} {Q : α → Prop} {x : Emit α} {k : α → Emit β}

theorem ok {f f' : Frame} {s s' : Session} {a : α} (h : Goes K x Q)
    (run : x f s = .ok (a, f') s') : K.goes (f, s) (f', s') ∧ Q a := by
  have gone := h f s
  rwa [run] at gone

theorem of_ok (run : ∀ f s, ∃ a f', x f s = .ok (a, f') s ∧ K.goes (f, s) (f', s) ∧ Q a) :
    Goes K x Q := by
  intro f s
  obtain ⟨a, f', run, gone⟩ := run f s
  rwa [run]

theorem ite {c : Prop} [Decidable c] {y : Emit α} (yes : Goes K x Q) (no : Goes K y Q) :
    Goes K (if c then x else y) Q := by
  split
  · exact yes
  · exact no

theorem lift {x : Gen α} (h : ∀ f, Gen.Keeps (K.asking f) x)
    (result : ∀ {s a s'}, x s = .ok a s' → Q a) : Goes K (liftM x : Emit α) Q := by
  intro f s
  have kept := h f s
  change match (x >>= fun a => pure (a, f) : Gen (α × Frame)) s with | .ok r s' => _ | .error _ s' => _
  cases run : x s with
  | ok a s' =>
    rw [Gen.KeepsFrom, run] at kept
    rw [Gen.bind_of_ok run]
    exact ⟨kept, result run⟩
  | error e s' =>
    rw [Gen.KeepsFrom, run] at kept
    rw [Gen.bind_of_error run]
    exact kept

theorem ask {x : Gen α} (h : ∀ f, Gen.Keeps (K.asking f) x) : Runs K (liftM x : Emit α) :=
  lift h fun _ => trivial

theorem locating (l : Location) (h : Goes K x Q) : Goes K (locating l x) Q := by
  intro f s
  have gone := h f s
  rw [Emit.locating, Gen.locating, Gen.tryCatch_run]
  cases run : x f s with
  | ok r s' => rwa [run] at gone
  | error e s' =>
    rw [run] at gone
    cases e <;> exact gone

variable [K.Lawful]

theorem pure {a : α} (h : Q a) : Goes K (pure a : Emit α) Q :=
  fun f s => ⟨Course.Lawful.refl (f, s), h⟩

theorem fail (cause : Cause) : Goes K (fail cause : Emit α) Q := fun _ s => Course.Lawful.stop false s

theorem bind {Q' : β → Prop} (first : Goes K x Q) (rest : ∀ a, Q a → Goes K (k a) Q') :
    Goes K (x >>= k) Q' := by
  intro f s
  have gone := first f s
  change match (x f >>= fun r => k r.1 r.2 : Gen (β × Frame)) s with | .ok r s' => _ | .error _ s' => _
  cases run : x f s with
  | ok r s₁ =>
    rw [run] at gone
    rw [Gen.bind_of_ok run]
    have later := rest r.1 gone.2 r.2 s₁
    split at later
    · exact ⟨Course.Lawful.trans gone.1 later.1, later.2⟩
    · exact Course.Lawful.after gone.1 later
  | error e s₁ =>
    rw [run] at gone
    rw [Gen.bind_of_error run]
    exact gone

theorem andThen {Q' : β → Prop} (first : Runs K x) (rest : ∀ a, Goes K (k a) Q') :
    Goes K (x >>= k) Q' :=
  first.bind fun a _ => rest a

theorem get : Runs K (get : Emit Frame) := fun f s => ⟨Course.Lawful.refl (f, s), trivial⟩

theorem session : Runs K (getThe Session : Emit Session) := ask fun _ => .get

theorem orFail (value : Option α) (cause : Cause) : Runs K (orFail value cause : Emit α) := by
  cases value with
  | none => exact fail cause
  | some a => exact pure trivial

theorem forM {x : α → Emit PUnit} {xs : List α} (h : ∀ a ∈ xs, Runs K (x a)) :
    Runs K (xs.forM x) := by
  induction xs with
  | nil => exact pure trivial
  | cons a rest ih =>
    exact (h a List.mem_cons_self).andThen fun _ =>
      ih fun a member => h a (List.mem_cons_of_mem _ member)

end Goes

namespace Steps

variable {K : Course} (steps : Steps K)

include steps

/-! ### Registers, labels and lines -/

theorem modify {g : Frame → Frame} (same : ∀ f, Frame.Same f (g f)) :
    Runs K (modify g : Emit Unit) :=
  .of_ok fun f _ => ⟨(), g f, rfl, steps.same (same f), trivial⟩

theorem freshReg : Runs K freshReg :=
  .of_ok fun _ _ => ⟨_, _, rfl, steps.same ⟨rfl, rfl, rfl, rfl, rfl⟩, trivial⟩

theorem freshLabel (stem : String) : Runs K (freshLabel stem) :=
  .of_ok fun _ _ => ⟨_, _, rfl, steps.same ⟨rfl, rfl, rfl, rfl, rfl⟩, trivial⟩

theorem pushLine (line : Line) : Runs K (pushLine line) :=
  .of_ok fun _ _ => ⟨_, _, rfl, steps.push, trivial⟩

variable [K.Lawful]

theorem enter (label : Label) : Runs K (enter label) := by
  refine .of_ok fun f s => ⟨_, _, rfl, ?_, trivial⟩
  have pushed : K.goes (f, s) ({ f with body := f.body.push (.label label) }, s) := steps.push
  refine Course.Lawful.trans pushed (steps.same ?_)
  exact ⟨rfl, rfl, rfl, rfl, rfl⟩

theorem reopen : Runs K reopen :=
  Goes.get.andThen fun _ =>
    .ite ((steps.freshLabel _).andThen fun _ => steps.enter _) (.pure trivial)

theorem emit (i : Instr) : Runs K (emit i) :=
  steps.reopen.andThen fun _ => Goes.get.andThen fun _ => steps.pushLine _

theorem emitValue (ty : IrType) (i : Register → Instr) : Runs K (emitValue ty i) :=
  steps.freshReg.andThen fun _ => (steps.emit _).andThen fun _ => .pure trivial

theorem terminate (t : Terminator) : Runs K (terminate t) :=
  steps.reopen.andThen fun _ => Goes.get.andThen fun _ =>
    .andThen (steps.pushLine _) fun _ => steps.modify fun _ => ⟨rfl, rfl, rfl, rfl, rfl⟩

theorem startBlock (label : Label) : Runs K (startBlock label) :=
  Goes.get.andThen fun _ =>
    .ite (steps.enter label) ((steps.pushLine _).andThen fun _ => steps.enter label)

theorem jumpTo (label : Label) : Runs K (jumpTo label) :=
  Goes.get.andThen fun _ => .ite (.pure trivial) (steps.terminate _)

theorem alloca (ty : IrType) : Runs K (alloca ty) :=
  steps.freshReg.andThen fun _ =>
    .andThen (steps.modify fun _ => ⟨rfl, rfl, rfl, rfl, rfl⟩) fun _ => .pure trivial

/-! ### Questions -/

theorem question {x : Gen α} (h : x.Question) (f : Frame) : Gen.Keeps (K.asking f) x := by
  have replies := steps.replies f
  cases h with
  | resolve ty σ => exact replies.resolve ty σ
  | resolveAll types σ => exact replies.resolveAll types σ
  | substitute σ ty => exact Gen.substitute_keeps σ ty
  | ownerType owner => exact Gen.ownerType_keeps owner
  | sizeOf ty => exact replies.sizeOf ty
  | aggregate types => exact replies.extent (.record types)
  | structLayout name => exact replies.structLayout name
  | enumLayout name => exact replies.enumLayout name
  | dispatchLayout name => exact replies.dispatchLayout name
  | dispatchSlot? owner method => exact replies.dispatchSlot? owner method
  | lookupMethod name method => exact replies.lookupMethod name method
  | methodType owner m σ => exact replies.methodType owner m σ
  | resolveSignature params ret σ => exact replies.resolveSignature params ret σ
  | functionTarget name typeArgs σ => exact replies.functionTarget name typeArgs σ
  | methodTarget owner m typeArgs σ => exact replies.methodTarget owner m typeArgs σ
  | environment name types => exact steps.environment f name types

theorem ask {x : Gen α} (h : x.Question) : Runs K (liftM x : Emit α) := .ask (steps.question h)

theorem resolve (ty : TypeRef) : Runs K (resolve ty) :=
  Goes.get.andThen fun _ => steps.ask (.resolve _ _)

theorem resolveAll (types : List TypeRef) : Runs K (resolveAll types) :=
  Goes.get.andThen fun _ => steps.ask (.resolveAll _ _)

theorem concrete (ty : TypeRef) : Runs K (concrete ty) :=
  Goes.get.andThen fun _ => steps.ask (.substitute _ _)

theorem functionTarget (name : String) (typeArgs : List TypeRef) :
    Runs K (functionTarget name typeArgs) :=
  Goes.get.andThen fun _ => steps.ask (.functionTarget _ _ _)

omit [K.Lawful] in
theorem internedString (text : String) : Runs K (liftM (Gen.internString text) : Emit Operand) :=
  .ask fun f => steps.internString f text

theorem setLocation (location : Location) : Runs K (setLocation location) := by
  refine Goes.get.andThen fun f => Goes.andThen ?_ fun _ =>
    steps.modify fun _ => ⟨rfl, rfl, rfl, rfl, rfl⟩
  cases f.scope with
  | some scope => exact .ask fun f => .ite (.pure _) (steps.tell f _ rfl)
  | none => exact .pure trivial

/-! ### Function values -/

theorem makeClosure (symbol : String) (ret : IrType) (params : List IrType) (env : Operand) :
    Runs K (makeClosure symbol ret params env) :=
  (steps.emitValue _ _).andThen fun _ => steps.emitValue _ _

theorem functionRef (name : String) (typeArgs : List TypeRef) :
    Runs K (functionRef name typeArgs) :=
  (steps.functionTarget name typeArgs).andThen fun _ => steps.makeClosure _ _ _ _

theorem lambda (info : ExprInfo) (params : List Field) (body : List Stmt) {captures : List Field}
    (environment : ∀ name types, Runs K (makeEnvironment name captures types)) :
    Runs K (lambda info params body captures) := by
  refine (steps.concrete _).andThen fun ty => ?_
  split
  · refine (Goes.ask steps.freshLambda).andThen fun _ => Goes.get.andThen fun _ => ?_
    refine (steps.resolve _).andThen fun _ => (steps.resolveAll _).andThen fun _ => ?_
    refine (steps.resolveAll _).andThen fun _ => (environment _ _).andThen fun _ => ?_
    exact (steps.queueLambda _ _ _).andThen fun _ => steps.makeClosure _ _ _ _
  · exact .fail _

/-! ### Expressions that branch -/

theorem shortCircuit {lhs rhs : Code} (hl : Runs K lhs.condition) (hr : Runs K rhs.condition)
    (stem : String) (continueOn : Bool) :
    Runs K (shortCircuit stem continueOn lhs rhs) := by
  refine (steps.freshLabel _).andThen fun _ => (steps.freshLabel _).andThen fun _ => ?_
  refine hl.andThen fun _ => Goes.get.andThen fun _ => ?_
  refine (steps.terminate _).andThen fun _ => (steps.startBlock _).andThen fun _ => ?_
  refine hr.andThen fun _ => Goes.get.andThen fun _ => ?_
  refine (steps.terminate _).andThen fun _ => (steps.startBlock _).andThen fun _ => ?_
  exact steps.emitValue _ _

theorem ternaryBranch {branch : Code} {target : IrType} (h : Runs K (branch.coerced target))
    (label endLabel : Label) : Runs K (ternaryBranch label endLabel branch target) :=
  (steps.startBlock _).andThen fun _ => h.andThen fun _ =>
    (steps.terminate _).andThen fun _ => Goes.get.andThen fun _ => .pure trivial

theorem ternary {condition thenValue elseValue : Code} (hc : Runs K condition.condition)
    (ht : ∀ target, Runs K (thenValue.coerced target))
    (he : ∀ target, Runs K (elseValue.coerced target)) (ty : TypeRef) :
    Runs K (ternary condition thenValue elseValue ty) := by
  refine (steps.resolve ty).andThen fun target => hc.andThen fun test => ?_
  refine (steps.freshLabel _).andThen fun _ => (steps.freshLabel _).andThen fun _ => ?_
  refine (steps.freshLabel _).andThen fun _ => (steps.terminate _).andThen fun _ => ?_
  refine (steps.ternaryBranch (ht target) _ _).andThen fun _ => ?_
  refine (steps.ternaryBranch (he target) _ _).andThen fun _ => ?_
  exact (steps.startBlock _).andThen fun _ => .ite (.pure trivial) (steps.emitValue _ _)

theorem armTargets (layout : EnumLayout) (arms : List ArmCode) :
    Runs K (armTargets layout arms) := by
  induction arms with
  | nil => exact .pure trivial
  | cons arm rest ih =>
    refine (steps.freshLabel _).andThen fun _ => Goes.andThen ?_ fun _ => ih.andThen fun _ =>
      .pure trivial
    unfold armTag
    split
    · exact (Goes.orFail _ _).andThen fun _ => .pure trivial
    · exact .pure trivial

theorem matchSwitch {layout : EnumLayout} {base : Operand} {result : MatchResult}
    {arms : List ArmCode}
    (body : ∀ arm ∈ arms, Runs K (inScope do bindArm layout base arm; arm.body.value))
    (keep : ∀ arm ∈ arms, ∀ v : Value, Runs K (keepResult result v arm.body.ty)) (name : String)
    (tag : Value) : Runs K (matchSwitch name layout base result tag arms) := by
  refine (steps.freshLabel _).andThen fun _ => (steps.freshLabel _).andThen fun _ => ?_
  refine (steps.armTargets layout arms).andThen fun _ => (steps.terminate _).andThen fun _ => ?_
  refine Goes.andThen (.forM fun arm member => ?_) fun _ => ?_
  · have member := (List.of_mem_zip member).1
    refine (steps.startBlock _).andThen fun _ => (body _ member).andThen fun v => ?_
    exact (keep _ member v).andThen fun _ => steps.jumpTo _
  · refine .ite (Goes.andThen ?_ fun _ => steps.startBlock _) (steps.startBlock _)
    refine (steps.startBlock _).andThen fun _ => (steps.internedString _).andThen fun _ => ?_
    exact (steps.emit _).andThen fun _ => steps.terminate _

/-! ### Statements that branch -/

theorem inBlock (label next : Label) {body : Emit Unit} (h : Runs K body) :
    Runs K (inBlock label next body) :=
  (steps.startBlock _).andThen fun _ => h.andThen fun _ => steps.jumpTo _

theorem ifElse {condition : Code} (hc : Runs K condition.condition) {thenBlock : Emit Unit}
    (ht : Runs K thenBlock) {elseBlock : Option (Emit Unit)} (he : ∀ x ∈ elseBlock, Runs K x) :
    Runs K (ifElse condition thenBlock elseBlock) := by
  refine hc.andThen fun _ => (steps.freshLabel _).andThen fun _ => ?_
  refine (steps.freshLabel _).andThen fun _ => ?_
  cases elseBlock with
  | none =>
    exact (steps.terminate _).andThen fun _ => (steps.inBlock _ _ ht).andThen fun _ =>
      steps.startBlock _
  | some block =>
    refine (steps.freshLabel _).andThen fun _ => (steps.terminate _).andThen fun _ => ?_
    exact (steps.inBlock _ _ ht).andThen fun _ =>
      (steps.inBlock _ _ (he block rfl)).andThen fun _ => steps.startBlock _

theorem whileLoop {condition : Code} (hc : Runs K condition.condition) {body : Emit Unit}
    (h : ∀ labels, Runs K (inLoop labels body)) : Runs K (whileLoop condition body) := by
  refine (steps.freshLabel _).andThen fun _ => (steps.freshLabel _).andThen fun _ => ?_
  refine (steps.freshLabel _).andThen fun _ => (steps.startBlock _).andThen fun _ => ?_
  refine hc.andThen fun _ => (steps.terminate _).andThen fun _ => ?_
  exact (steps.inBlock _ _ (h _)).andThen fun _ => steps.startBlock _

theorem loopJump (keyword : String) (target : LoopLabels → Label) :
    Runs K (loopJump keyword target) := by
  refine Goes.get.andThen fun f => ?_
  split
  · exact steps.terminate _
  · exact .fail _

theorem labelCases (cases : List (Int × Emit Unit)) :
    Goes K (labelCases cases) fun labelled =>
      labelled.map (fun c => c.2.2) = cases.map Prod.snd := by
  induction cases with
  | nil => exact .pure rfl
  | cons c rest ih =>
    refine (steps.freshLabel _).andThen fun _ => ih.bind fun later same => .pure ?_
    rw [List.map_cons, List.map_cons, same]

theorem switchCases (v : Value) (endLabel defaultLabel : Label) {cases : List (Int × Emit Unit)}
    (h : ∀ c ∈ cases, Runs K c.2) :
    Runs K (switchCases v endLabel defaultLabel cases) := by
  refine (steps.labelCases cases).bind fun labelled same => ?_
  refine (steps.terminate _).andThen fun _ => .forM fun c member => steps.inBlock _ _ ?_
  obtain ⟨c', member', body⟩ := List.mem_map.mp (same ▸ List.mem_map_of_mem member)
  exact body ▸ h c' member'

theorem switchOn (v : Value) {cases : List (Int × Emit Unit)} (h : ∀ c ∈ cases, Runs K c.2)
    {default : Option (Emit Unit)} (hd : ∀ x ∈ default, Runs K x) :
    Runs K (switchOn v cases default) := by
  refine (steps.freshLabel _).andThen fun _ => ?_
  cases default with
  | none => exact (steps.switchCases _ _ _ h).andThen fun _ => steps.startBlock _
  | some body =>
    refine (steps.freshLabel _).andThen fun _ => (steps.switchCases _ _ _ h).andThen fun _ => ?_
    exact (steps.inBlock _ _ (hd body rfl)).andThen fun _ => steps.startBlock _

end Steps

/-! ### All code -/

section

variable {K : Bool → Course} [∀ b, (K b).Lawful] (closes : Closes K) {b : Bool} {os : List Operand}
  {x : Emit α}

include closes

theorem Yields.runs {R : α → List Operand} (h : Yields b os x R) : Runs (K b) x := by
  induction h with
  | weaken _ _ ih => exact ih
  | bind _ _ first rest => exact first.andThen rest
  | pure _ => exact .pure trivial
  | fail cause => exact .fail cause
  | get => exact .get
  | session => exact .session
  | ask question => exact (closes.steps _).ask question
  | internString text => exact (closes.steps _).internedString text
  | emit _ _ _ => exact (closes.steps _).emit _
  | emitValue ty _ _ => exact (closes.steps _).emitValue ty _
  | alloca ty => exact (closes.steps _).alloca ty
  | findLocal? name => exact Goes.get.andThen fun _ => .pure trivial
  | bindSlot ty name _ _ ih =>
    exact ((closes.steps true).alloca ty).andThen fun r => (ih r).andThen fun _ =>
      closes.bindLocal name _
  | inScope _ ih => exact closes.inScope ih
  | and _ _ left right => exact (closes.steps _).shortCircuit left right _ _
  | or _ _ left right => exact (closes.steps _).shortCircuit left right _ _
  | ternary ty _ _ _ test onTrue onFalse => exact (closes.steps _).ternary test onTrue onFalse ty
  | matchSwitch name _ _ _ body keep => exact (closes.steps _).matchSwitch body keep name _
  | functionRef name typeArgs => exact (closes.steps _).functionRef name typeArgs
  | lambda info params body _ environment =>
    exact (closes.steps _).lambda info params body environment

theorem Acts.runs (h : Acts b os x) : Runs (K b) x := by
  induction h with
  | step h => exact h.runs closes
  | anywhere _ ih => exact ih
  | bind first _ rest => exact (first.runs closes).andThen rest
  | andThen _ _ first rest => exact first.andThen rest
  | inScope _ ih => exact closes.inScope ih
  | placed location _ ih =>
    exact ((closes.steps _).setLocation location).andThen fun _ => ih.locating location
  | terminate _ _ => exact (closes.steps _).terminate _
  | ifElse test _ _ onTrue onFalse =>
    exact (closes.steps _).ifElse (test.runs closes) onTrue onFalse
  | whileLoop test _ ih =>
    exact (closes.steps _).whileLoop (test.runs closes) fun labels => closes.inLoop labels ih
  | loopJump keyword _ => exact (closes.steps _).loopJump keyword _
  | switchOn _ _ _ each otherwise => exact (closes.steps _).switchOn _ each otherwise

end

/-- Names and loops do not matter to the course. -/
theorem Steps.closes {K : Course} [K.Lawful] (steps : Steps K)
    (free : ∀ {f s locals loops}, K.goes (f, s) ({ f with locals, loops }, s)) :
    Closes fun _ => K where
  steps _ := steps
  bindLocal _ _ := .of_ok fun _ _ => ⟨_, _, rfl, free, trivial⟩
  inScope h := Goes.get.andThen fun _ => h.andThen fun _ =>
    .andThen (.of_ok fun _ _ => ⟨_, _, rfl, free, trivial⟩) fun _ => .pure trivial
  inLoop _ h := Goes.get.andThen fun _ =>
    .andThen (.of_ok fun _ _ => ⟨_, _, rfl, free, trivial⟩) fun _ =>
      h.andThen fun _ => .of_ok fun _ _ => ⟨_, _, rfl, free, trivial⟩

/-! ### Courses of the frame alone -/

def Course.framed (R : Frame → Frame → Prop) : Course := ⟨fun p q => R p.1 q.1, fun _ _ _ => True⟩

section

variable {R : Frame → Frame → Prop} [IsPreorder Frame R]

instance : (Course.framed R).Lawful :=
  ⟨fun p => refl_of R p.1, trans_of R, fun _ _ => trivial, fun _ _ => trivial⟩

theorem framed_keeps (x : Gen α) (f : Frame) : Gen.Keeps ((Course.framed R).asking f) x := by
  intro s
  rw [Gen.KeepsFrom]
  split
  · exact refl_of R f
  · exact True.intro

theorem Steps.framed (same : ∀ {f f'}, f.Same f' → R f f')
    (push : ∀ {f line}, R f { f with body := f.body.push line }) : Steps (.framed R) where
  same := same
  push := push
  replies f := ⟨fun _ _ => framed_keeps _ f, fun _ _ => framed_keeps _ f, fun _ => framed_keeps _ f,
    fun _ _ _ => framed_keeps _ f, fun _ _ _ _ => framed_keeps _ f⟩
  tell f _ _ := framed_keeps _ f
  internString f _ := framed_keeps _ f
  freshLambda := framed_keeps _
  environment f _ _ := framed_keeps _ f
  queueLambda _ _ _ f _ := ⟨refl_of R f, trivial⟩

end

/-! ### Lines stay -/

def Longer (f f' : Frame) : Prop := f.body.toList <+: f'.body.toList

instance : IsPreorder Frame Longer where
  refl _ := List.prefix_rfl
  trans _ _ _ := List.IsPrefix.trans

theorem longer_steps : Steps (.framed Longer) :=
  .framed (fun h => by simp [Longer, h.body]) (by simp [Longer])

theorem longer_closes : Closes fun _ => .framed Longer := longer_steps.closes List.prefix_rfl

/-! ### Functions -/

namespace Steps

variable {K : Course} [K.Lawful] (steps : Steps K)

include steps

theorem receiverParam (receiver : Option String) : Runs K (receiverParam receiver) := by
  cases receiver with
  | none => exact .pure trivial
  | some owner => exact (steps.ask (.ownerType _)).andThen fun _ => .pure trivial

theorem incomingParams (params : List Field) : Runs K (incomingParams params) := by
  unfold Emit.incomingParams
  induction params with
  | nil => exact .pure trivial
  | cons p rest ih =>
    rw [List.mapM_cons]
    refine Goes.andThen ?_ fun _ => ih.andThen fun _ => .pure trivial
    exact (steps.resolve _).andThen fun _ => .pure trivial

end Steps

namespace Closes

variable {K : Bool → Course} [∀ b, (K b).Lawful] (closes : Closes K)

include closes

theorem incoming (incoming : List Incoming) : Runs (K true)
    (incoming.forM fun p => declareLocal p.name p.ty ⟨.reg (.named p.register), p.ir⟩) := by
  refine .forM fun p _ => ?_
  have declared : Yields true [.reg (.named p.register)]
      (declareLocal p.name p.ty ⟨.reg (.named p.register), p.ir⟩) fun _ => [] :=
    .declareLocal _ _ (.inl List.mem_cons_self)
  exact declared.runs closes

theorem unpackOptional (captures : Option Captures) :
    Runs (K true) (unpackOptional captures) := by
  have unpacked : Yields true [.reg (.named environmentParam)] (Emit.unpackOptional captures)
      fun _ => [] := unpackOptional_yields captures fun _ => List.mem_cons_self
  exact unpacked.runs closes

theorem emitBlock (body : List Stmt) : Runs (K true) (emitBlock body) := by
  have acts : Acts true [] (Backend.emitBlock body) := .inScope (emitStmts_act body)
  exact acts.runs closes

theorem functionBody (incoming : List Incoming) (captures : Option Captures) (body : List Stmt) :
    Runs (K true) (functionBody incoming captures body) :=
  (functionBody_acts_incoming incoming captures body).runs closes

end Closes

end Emit

end Backend
