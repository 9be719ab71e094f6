import Backend.Proofs.Resolution.Requests
import Backend.Proofs.Session.Reached

/-!
Marks of work that is under way: how many resolutions are inside each other, which types are being
laid out and which function is active. Whatever is asked of a session, each mark is in the end what
it was in the beginning, also if the answer is a failure. A generation that starts with no active
function therefore never meets one where it has to begin a body or to go through the pending ones:
it is the same generation whatever would be done there.
-/

namespace Backend

open Gen (Moves Keeps)

namespace Session

/-- The same work is under way. -/
structure SameMarks (s s' : Session) : Prop where
  resolveDepth : s'.resolveDepth = s.resolveDepth
  defining : s'.defining = s.defining
  active : s'.active = s.active

namespace SameMarks

variable {s s' : Session}

instance : IsPreorder Session SameMarks where
  refl _ := ⟨rfl, rfl, rfl⟩
  trans _ _ _ h h' := ⟨h'.resolveDepth.trans h.resolveDepth, h'.defining.trans h.defining,
    h'.active.trans h.active⟩

theorem around {s₀ s₀' : Session} (h : SameMarks s₀ s₀') (before : SameMarks s s₀)
    (after : SameMarks s₀' s') : SameMarks s s' :=
  trans_of SameMarks (trans_of SameMarks before h) after

theorem request (base : String) (args : List TypeRef) (body : Pending) :
    Moves SameMarks (Gen.requestBody base args body) := fun s =>
  .of_ok (Gen.requestBody_run base args body s) ⟨rfl, rfl, rfl⟩

theorem tell (call : DebugCall) : Moves SameMarks (Gen.tell call) :=
  .tell (fun _ _ => ⟨rfl, rfl, rfl⟩) call

theorem nest (h : SameMarks { s with resolveDepth := s.resolveDepth + 1 } s') :
    SameMarks s { s' with resolveDepth := s'.resolveDepth - 1 } where
  resolveDepth := by
    change s'.resolveDepth - 1 = s.resolveDepth
    rw [h.resolveDepth, Nat.add_sub_cancel]
  defining := h.defining
  active := h.active

theorem mark {name : String} (h : SameMarks { s with defining := name :: s.defining } s') :
    SameMarks s { s' with defining := s'.defining.erase name } where
  resolveDepth := h.resolveDepth
  defining := by
    change s'.defining.erase name = s.defining
    rw [h.defining, List.erase_cons_head]
  active := h.active

theorem activate {symbol : String} (idle : s.active = none)
    (h : SameMarks { s with active := some symbol } s') : SameMarks s { s' with active := none } :=
  ⟨h.resolveDepth, h.defining, idle.symm⟩

theorem lays : Session.Lays (.always SameMarks) where
  forward := fun _ _ => ⟨rfl, rfl, rfl⟩
  request := fun _ => request _ _ _ _
  nest := nest
  nestHalts := nest
  mark := fun _ => mark
  markHalts := fun _ => mark
  slots := fun _ _ _ h => h.around ⟨rfl, rfl, rfl⟩ ⟨rfl, rfl, rfl⟩
  struct := fun level _ _ _ _ h => level.finishes
    ((Resolution.describeStruct_keeps level.define tell (fun _ _ _ => ⟨rfl, rfl, rfl⟩) _ _ _).from
      (h.around ⟨rfl, rfl, rfl⟩ ⟨rfl, rfl, rfl⟩))
    fun _ _ h h' => h'.around h ⟨rfl, rfl, rfl⟩
  enum := fun _ _ _ _ _ h => h.around ⟨rfl, rfl, rfl⟩ ⟨rfl, rfl, rfl⟩
  make := fun _ _ _ h => h.around ⟨rfl, rfl, rfl⟩ ⟨rfl, rfl, rfl⟩
  makeHalts := fun _ h => h.around ⟨rfl, rfl, rfl⟩ ⟨rfl, rfl, rfl⟩
  begin := fun _ => ⟨rfl, rfl, rfl⟩

theorem generates : Session.Generates (.always SameMarks) where
  toReplies := lays.replies
  tell := fun call _ => tell call
  internString := fun _ _ => ⟨rfl, rfl, rfl⟩
  freshLambda := fun _ => ⟨rfl, rfl, rfl⟩
  environment := fun _ _ _ => ⟨rfl, rfl, rfl⟩
  queueLambda := fun _ _ _ _ => ⟨rfl, rfl, rfl⟩
  instantiate := lays.instantiated
  queueMethods := lays.queueMethods
  beginInstance := fun _ _ _ _ => ⟨rfl, rfl, rfl⟩
  completeInstance := fun _ _ => ⟨rfl, rfl, rfl⟩
  activate := activate
  activateHalts := activate
  dequeue := fun _ _ => ⟨rfl, rfl, rfl⟩
  own := fun _ _ _ => ⟨rfl, rfl, rfl⟩
  declare := fun _ _ => ⟨rfl, rfl, rfl⟩
  addFunction := fun _ _ _ _ => ⟨rfl, rfl, rfl⟩
  register := fun _ _ => ⟨rfl, rfl, rfl⟩

end SameMarks

end Session

/-! ### Bodies inside bodies -/

namespace Gen

/-- What is done where a body would be begun, or the pending ones gone through, while a function is
active. -/
structure Refusals where
  begin : (symbol active : String) → Gen Unit
  drain : (active : String) → Gen Unit

namespace Refusals

def standard : Refusals where
  begin symbol active :=
    fail (.unsupported s!"cannot begin '{symbol}' while '{active}' is still being emitted")
  drain active :=
    fail (.unsupported s!"pending generations drained while '{active}' is being emitted")

variable (r : Refusals)

def whileActive (symbol : String) (x : Gen Unit) : Gen Unit := do
  match (← get).active with
  | some active => r.begin symbol active
  | none =>
    modify fun s => { s with active := some symbol }
    try x
    finally modify fun s => { s with active := none }

def emitBody (sig : Signature) (body : List Stmt) (σ : Substitution) : Gen Unit :=
  r.whileActive sig.symbol (emitFunction sig body σ)

def emitDeclared (f : FunctionDecl) (symbol : String) (receiver : Option String)
    (σ : Substitution) : Gen Unit :=
  r.emitBody
    { symbol
      params := f.params
      returnType := f.returnType
      receiver
      location := f.location }
    f.body σ

def emitLambda (l : LiftedLambda) (symbol : String) (σ : Substitution) : Gen Unit :=
  r.emitBody
    { symbol
      params := l.params
      returnType := l.returnType
      captures := some { envType := l.envType, fields := l.captures }
      location := l.location }
    l.body σ

def emitPending (p : Pending) : Gen Unit :=
  match p.source with
  | .function template => do
    let f ← orFail ((← get).decls.functions.find? template) (.undefinedFunction template)
    locating f.location (r.emitDeclared f p.symbol none p.substitution)
  | .method owner method => do
    let m ← declaredMethod owner method
    let receiver := if m.isStatic then none else some owner
    locating m.location (r.emitDeclared m p.symbol receiver p.substitution)
  | .lambda l => locating l.location (r.emitLambda l p.symbol p.substitution)

def generatePending (p : Pending) : Gen Unit := do
  unless p.symbol ∈ (← get).emitted do
    if (← beginInstance "" [] p.symbol) = .fresh then
      r.emitPending p
      completeInstance p.symbol

def drainWithin : Nat → Gen Unit
  | 0 => throw .exhausted
  | n + 1 => do
    match (← get).pending.pop? with
    | none => return
    | some (p, rest) =>
      modify fun s => { s with pending := rest }
      r.generatePending p
      drainWithin n

def drainAll : Gen Unit := do
  match (← get).active with
  | some active => r.drain active
  | none => r.drainWithin maxBodies

def generateDecl : Decl → Gen Unit
  | .struct s => unless s.isTemplate do generateType .struct s.name s.methods
  | .enum e => unless e.isTemplate do generateType .enum e.name e.methods
  | .function f => unless f.isGeneric do r.emitDeclared f (← functionSymbol f) none {}
  | .external _ | .typeAlias _ => pure ()

def generate (m : Module) : Gen Unit := do
  modify fun s => m.decls.foldl Session.register s
  injectRuntime
  m.decls.forM fun
    | .external e => locating e.location (declareExternal e)
    | _ => pure ()
  m.decls.forM fun d => do
    locating d.location (r.generateDecl d)
    r.drainAll
  r.drainAll

theorem standard_drainWithin (n : Nat) : standard.drainWithin n = Gen.drainWithin n := by
  induction n with
  | zero => rfl
  | succ n ih =>
    rw [drainWithin, Gen.drainWithin, ih]
    rfl

theorem standard_drainAll : standard.drainAll = Gen.drain := by
  rw [drainAll, Gen.drain, standard_drainWithin]
  rfl

theorem standard_generate (m : Module) : standard.generate m = Gen.generate m := by
  rw [generate, Gen.generate, standard_drainAll]
  rfl

end Refusals

def SameIdle {α : Type} (x y : Gen α) : Prop := ∀ s : Session, s.active = none → x s = y s

namespace SameIdle

open Session (SameMarks)

variable {α β : Type}

theorem rfl {x : Gen α} : SameIdle x x := fun _ _ => Eq.refl _

theorem bind {x y : Gen α} {k k' : α → Gen β} (first : SameIdle x y) (moves : Moves SameMarks y)
    (rest : ∀ a, SameIdle (k a) (k' a)) : SameIdle (x >>= k) (y >>= k') := by
  intro s idle
  simp only [Bind.bind, EStateM.bind, first s idle]
  cases run : y s with
  | ok a s₁ => exact rest a s₁ ((moves.of_ok run).active.trans idle)
  | error e s₁ => exact Eq.refl _

theorem after {x : Gen α} {k k' : α → Gen β} (moves : Moves SameMarks x)
    (rest : ∀ a, SameIdle (k a) (k' a)) : SameIdle (x >>= k) (x >>= k') :=
  rfl.bind moves rest

theorem ite {c : Prop} [Decidable c] {x y x' y' : Gen α} (yes : SameIdle x x')
    (no : SameIdle y y') : SameIdle (if c then x else y) (if c then x' else y') := by
  split
  · exact yes
  · exact no

theorem locating {x y : Gen α} (l : Location) (h : SameIdle x y) :
    SameIdle (Gen.locating l x) (Gen.locating l y) := by
  intro s idle
  rw [Gen.locating, Gen.locating, Gen.tryCatch_run, Gen.tryCatch_run, h s idle]

theorem forM {x y : α → Gen PUnit} (moves : ∀ a, Moves SameMarks (y a))
    (h : ∀ a, SameIdle (x a) (y a)) (items : List α) : SameIdle (items.forM x) (items.forM y) := by
  induction items with
  | nil => exact rfl
  | cons a rest ih => exact (h a).bind (moves a) fun _ => ih

end SameIdle

namespace Refusals

open Session (SameMarks)
open Session.SameMarks (generates)

variable (r : Refusals)

theorem whileActive_idle (symbol : String) (x : Gen Unit) :
    SameIdle (r.whileActive symbol x) (Gen.whileActive symbol x) := by
  intro s idle
  simp only [whileActive, Gen.whileActive, Gen.get_bind, idle]

theorem emitPending_idle (p : Pending) : SameIdle (r.emitPending p) (Gen.emitPending p) := by
  unfold emitPending Gen.emitPending
  cases p.source with
  | function template =>
    exact .after .get fun _ => .after (.orFail _ _) fun _ => .locating _ (r.whileActive_idle _ _)
  | method owner method =>
    exact .after (Session.Emits.declaredMethod_keeps _ _) fun _ =>
      .locating _ (r.whileActive_idle _ _)
  | lambda l => exact .locating _ (r.whileActive_idle _ _)

theorem generatePending_idle (p : Pending) :
    SameIdle (r.generatePending p) (Gen.generatePending p) := by
  refine .after .get fun _ => .ite .rfl ?_
  refine .after (generates.beginInstance _ _ _) fun _ => .ite ?_ .rfl
  exact (r.emitPending_idle p).bind (generates.emitPending p) fun _ => .rfl

theorem drainWithin_idle (n : Nat) : SameIdle (r.drainWithin n) (Gen.drainWithin n) := by
  induction n with
  | zero => exact .rfl
  | succ n ih =>
    refine .after .get fun s => ?_
    cases s.pending.pop? with
    | none => exact .rfl
    | some next =>
      refine .after (.modify fun s => generates.dequeue s _) fun _ => ?_
      exact (r.generatePending_idle _).bind (generates.generatePending _) fun _ => ih

theorem drainAll_idle : SameIdle r.drainAll Gen.drain := by
  intro s idle
  simp only [drainAll, Gen.drain, Gen.get_bind, idle]
  exact r.drainWithin_idle _ s idle

theorem generateDecl_idle (d : Decl) : SameIdle (r.generateDecl d) (Gen.generateDecl d) := by
  cases d with
  | function f =>
    exact .ite .rfl (.after (Gen.functionSymbol_keeps _) fun _ => r.whileActive_idle _ _)
  | struct s => exact .rfl
  | enum e => exact .rfl
  | external e => exact .rfl
  | typeAlias a => exact .rfl

theorem generate_idle (m : Module) : SameIdle (r.generate m) (Gen.generate m) := by
  refine .after (.modify fun s => generates.registerAll m.decls s) fun _ => ?_
  refine .after generates.injectRuntime fun _ => .after (.forM fun d _ => ?_) fun _ => ?_
  · cases d with
    | external e => exact (generates.declareExternal e).locating _
    | _ => exact .pure _
  · have decl (d : Decl) : Moves SameMarks (do locating d.location (Gen.generateDecl d); Gen.drain) :=
      ((generates.generateDecl d).locating _).bind fun _ => generates.drain
    refine SameIdle.bind (.forM decl (fun d => ?_) m.decls) (.forM fun d _ => decl d)
      fun _ => r.drainAll_idle
    exact ((r.generateDecl_idle d).locating _).bind ((generates.generateDecl d).locating _)
      fun _ => r.drainAll_idle

end Refusals

/-- Whatever is asked of a session, and whether it succeeds or not, the same work is under way
afterwards. A generation never gets to begin a body inside another one, or to go through the pending
bodies there: what it would do in that case makes no difference. -/
theorem marks_restored :
    (∀ {α : Type} {x : Gen α}, x.Operation → ∀ s : Session, s.SameMarks (x.after s)) ∧
    (∀ m, Refusals.standard.generate m = Gen.generate m) ∧
    ∀ (m : Module) (s : Session), s.active = none →
      ((Gen.generate m).after s).active = none ∧
        ∀ r : Refusals, r.generate m s = Gen.generate m s := by
  refine ⟨fun operation => (Session.SameMarks.generates.operation operation).after,
    Refusals.standard_generate, fun m s idle => ⟨?_, fun r => r.generate_idle m s idle⟩⟩
  have kept := (Session.SameMarks.generates.operation (.generate m)).after s
  exact kept.active.trans idle

/-- A function that reads what it does not have, and a struct that holds itself. -/
def brokenModule : Module where
  name := "main"
  decls :=
    [.function
      { name := "f", returnType := .i32, body := [.ret (some (.var { ty := .i32 } "missing")) {}] },
     .struct { name := "Own", fields := [⟨"inner", .ofName "Own"⟩] }]

theorem marks_restored_broken :
    let s := brokenModule.decls.foldl Session.register {}
    (∃ h s', Gen.structLayout "Own" s = .error h s' ∧ s.SameMarks s') ∧
    ∃ h s', Gen.generate brokenModule {} = .error h s' ∧ s'.active = none ∧
      ∀ r : Refusals, r.generate brokenModule {} = .error h s' := by
  intro s
  obtain ⟨restored, -, idle⟩ := marks_restored
  obtain ⟨h, own⟩ := error_of_run' (x := Gen.structLayout "Own") (s := s) (by decide +kernel)
  obtain ⟨h', failed⟩ := error_of_run' (x := Gen.generate brokenModule) (s := {}) (by decide +kernel)
  obtain ⟨ended, same⟩ := idle brokenModule {} rfl
  exact ⟨⟨h, _, own, restored (.structLayout "Own") s⟩,
    h', _, failed, ended, fun r => (same r).trans failed⟩

end Gen

end Backend
