import Backend.Proofs.Session.Function

/-!
Sessions that can be reached: from the empty session by registering declarations and by any
operations, whether they succeed or not. What the questions of a body may do to a session, and what
a generation does besides, is all that happens on the way.
-/

namespace Backend

/-- What a session can be asked to do. -/
inductive Gen.Operation : {α : Type} → Gen α → Prop where
  | resolve (ty : TypeRef) (σ : Substitution) : Operation (Gen.resolve ty σ)
  | sizeInBits (ty : TypeRef) (σ : Substitution) : Operation (Gen.sizeInBits ty σ)
  | extent (ty : IrType) : Operation (Gen.extent ty)
  | sizeOf (ty : IrType) : Operation (Gen.sizeOf ty)
  | packedSize (fields : List IrType) : Operation (Gen.packedSize fields)
  | structLayout (name : String) : Operation (Gen.structLayout name)
  | enumLayout (name : String) : Operation (Gen.enumLayout name)
  | dispatchLayout (name : String) : Operation (Gen.dispatchLayout name)
  | dispatchSlot? (owner method : String) : Operation (Gen.dispatchSlot? owner method)
  | findMethod (name method : String) : Operation (Gen.findMethod name method)
  | lookupMethod (name method : String) : Operation (Gen.lookupMethod name method)
  | methodSymbol (owner : String) (m : FunctionDecl) (typeArgs : List TypeRef) :
    Operation (Gen.methodSymbol owner m typeArgs)
  | functionSymbol (f : FunctionDecl) : Operation (Gen.functionSymbol f)
  | instantiate (kind : DeclKind) (base : String) (args : List TypeRef) (σ : Substitution) :
    Operation (Gen.instantiate kind base args σ)
  | instantiateFunction (name : String) (typeArgs : List TypeRef) (σ : Substitution) :
    Operation (Gen.instantiateFunction name typeArgs σ)
  | instantiateMethod (owner : String) (m : FunctionDecl) (typeArgs : List TypeRef)
    (σ : Substitution) : Operation (Gen.instantiateMethod owner m typeArgs σ)
  | emitFunction (sig : Signature) (body : List Stmt) (σ : Substitution) :
    Operation (Gen.emitFunction sig body σ)
  | injectRuntime : Operation Gen.injectRuntime
  | generate (m : Module) : Operation (Gen.generate m)
  | drain : Operation Gen.drain

/-- What `Gen.generate` does once the declarations are registered. -/
def Gen.generateRegistered (m : Module) : Gen Unit := do
  injectRuntime
  m.decls.forM fun
    | .external e => locating e.location (declareExternal e)
    | _ => pure ()
  m.decls.forM fun d => do
    locating d.location (generateDecl d)
    drain
  drain

inductive Session.Reached : Session → Prop where
  | start (options : Options) (collector : Option Collector) :
    Reached (.ofOptions options collector)
  | register {s : Session} (d : Decl) (h : Reached s) : Reached (s.register d)
  | step {α : Type} {x : Gen α} {s : Session} (operation : x.Operation) (h : Reached s) :
    Reached (x.after s)

open Gen (Keeps)

/-- What the emission of bodies does to the session beside their questions. -/
structure Session.Emits (C : Session.Course) : Prop extends Session.Replies C where
  tell : ∀ call, call.struct? = none → Keeps C (Gen.tell call)
  internString : ∀ text, Keeps C (Gen.internString text)
  freshLambda : Keeps C Gen.freshLambda
  environment : ∀ name types,
    Keeps C (Gen.modifyOutput fun o => o.addTypeDef (.struct name types))
  queueLambda : ∀ symbol body f, Keeps C (Emit.queueLambda symbol body f)
  instantiate : ∀ kind base args σ, Keeps C (Gen.instantiate kind base args σ)
  queueMethods : ∀ owner methods σ, Keeps C (queueMethods owner methods σ)
  beginInstance : ∀ base args name, Keeps C (Gen.beginInstance base args name)
  completeInstance : ∀ name, Keeps C (Gen.completeInstance name)
  /-- A function is active while its body is emitted. -/
  activate : ∀ {s s' symbol}, s.active = none → C.goes { s with active := some symbol } s' →
    C.goes s { s' with active := none }
  activateHalts : ∀ {fatal s s' symbol}, s.active = none →
    C.halts fatal { s with active := some symbol } s' → C.halts fatal s { s' with active := none }
  dequeue : ∀ s pending, C.goes s { s with pending }
  own : ∀ s name σ, C.goes s { s with ownerSubst := s.ownerSubst.insert name σ }
  declare : ∀ s d, C.goes s { s with output := s.output.declare d }
  addFunction : ∀ s f symbol, s.Wrote f →
    C.goes s { s with output := s.output.addFunction f, emitted := symbol :: s.emitted }

/-- What a generation does to the session. -/
structure Session.Generates (C : Session.Course) : Prop extends Session.Emits C where
  register : ∀ s d, C.goes s (s.register d)

namespace Session.Emits

variable {C : Session.Course} [C.Lawful] (emits : Session.Emits C)

include emits

omit emits in
theorem declaredMethod_keeps (owner method : String) :
    Keeps C (Gen.declaredMethod owner method) := by
  refine Keeps.get.bind fun s => ?_
  dsimp only
  split
  · exact Keeps.bind (.pure _) fun _ => .orFail _ _
  · exact Keeps.bind (.pure _) fun _ => .orFail _ _
  · exact Keeps.bind (.fail _) fun _ => .orFail _ _

theorem injectRuntime : Keeps C Gen.injectRuntime :=
  Keeps.bind (.forM fun d _ => .modifyOutput fun s => emits.declare s d) fun _ s =>
    (emits.internString _ s).bind fun _ s₁ run reached =>
      .of_ok rfl (Session.Course.Lawful.trans reached (emits.addFunction s₁ _ _ (.runtime run)))

theorem generateType (kind : DeclKind) (name : String) (methods : List FunctionDecl) :
    Keeps C (Gen.generateType kind name methods) :=
  (emits.define _ _).bind fun _ => Keeps.bind (.modify fun s => emits.own s _ _) fun _ =>
    emits.queueMethods _ _ _

theorem declareExternal (e : ExternDecl) : Keeps C (Gen.declareExternal e) :=
  (emits.resolve _ _).bind fun _ => (emits.resolveAll _ _).bind fun _ =>
    .modifyOutput fun s => emits.declare s _

variable [C.Recovers]

theorem answers : Session.Answers C where
  toReplies := emits.toReplies
  tell := emits.tell
  internString := emits.internString
  freshLambda := emits.freshLambda
  environment := emits.environment
  describeFunction := Session.describeFunction_keeps emits.define emits.tell
  queueLambda := fun _ _ => emits.queueLambda _

theorem emitBody (sig : Signature) (body : List Stmt) (σ : Substitution) :
    Keeps C (Gen.emitBody sig body σ) := by
  have emitted := emits.answers.emitFunction emits.addFunction sig body σ
  refine fun s => .reading ?_
  cases idle : s.active with
  | some active => exact .fail (Session.Course.Lawful.refl s) _
  | none => exact .around (emitted _) (emits.activate idle) (emits.activateHalts idle)

theorem emitPending (p : Pending) : Keeps C (Gen.emitPending p) := by
  unfold Gen.emitPending
  split
  · exact Keeps.get.bind fun _ => (Keeps.orFail _ _).bind fun f =>
      (emits.emitBody _ _ _).locating _
  · exact (declaredMethod_keeps _ _).bind fun m => (emits.emitBody _ _ _).locating _
  · exact (emits.emitBody _ _ _).locating _

theorem generatePending (p : Pending) : Keeps C (Gen.generatePending p) := by
  refine Keeps.get.bind fun _ => .ite (.pure _) ?_
  refine (emits.beginInstance _ _ _).bind fun _ => .ite ?_ (.pure _)
  exact (emits.emitPending p).bind fun _ => emits.completeInstance _

theorem drainWithin (n : Nat) : Keeps C (Gen.drainWithin n) := by
  induction n with
  | zero => exact .throw _
  | succ n ih =>
    refine Keeps.get.bind fun s => ?_
    split
    · exact .pure _
    · exact Keeps.bind (.modify fun s => emits.dequeue s _) fun _ =>
        (emits.generatePending _).bind fun _ => ih

theorem drain : Keeps C Gen.drain := by
  refine Keeps.get.bind fun s => ?_
  split
  · exact .fail _
  · exact emits.drainWithin _

theorem generateDecl (d : Decl) : Keeps C (Gen.generateDecl d) := by
  cases d with
  | struct s => exact .ite (.pure _) (emits.generateType _ _ _)
  | enum e => exact .ite (.pure _) (emits.generateType _ _ _)
  | function f =>
    exact .ite (.pure _) ((Gen.functionSymbol_keeps _).bind fun _ => emits.emitBody _ _ _)
  | external e => exact .pure _
  | typeAlias a => exact .pure _

theorem generateRegistered (m : Module) : Keeps C (Gen.generateRegistered m) := by
  refine emits.injectRuntime.bind fun _ => Keeps.bind (.forM fun d _ => ?_) fun _ => ?_
  · cases d with
    | external e => exact (emits.declareExternal e).locating _
    | _ => exact .pure _
  · refine Keeps.bind (.forM fun d _ => ?_) fun _ => emits.drain
    exact ((emits.generateDecl d).locating _).bind fun _ => emits.drain

end Session.Emits

namespace Session.Generates

variable {C : Session.Course} [C.Lawful] (generates : Session.Generates C)

include generates

theorem registerAll (decls : List Decl) (s : Session) :
    C.goes s (decls.foldl Session.register s) := by
  induction decls generalizing s with
  | nil => exact Session.Course.Lawful.refl s
  | cons d rest ih => exact Session.Course.Lawful.trans (generates.register s d) (ih _)

theorem operation [C.Recovers] {α : Type} {x : Gen α} (op : x.Operation) : Keeps C x := by
  cases op with
  | resolve ty σ => exact generates.resolve ty σ
  | sizeInBits ty σ =>
    exact (generates.resolve ty σ).bind fun _ => (generates.sizeOf _).bind fun _ => .word _
  | extent ty => exact generates.extent ty
  | sizeOf ty => exact generates.sizeOf ty
  | packedSize fields => exact Resolution.packedSize_keeps generates.define fields
  | structLayout name => exact generates.structLayout name
  | enumLayout name => exact generates.enumLayout name
  | dispatchLayout name => exact generates.dispatchLayout name
  | dispatchSlot? owner method => exact generates.dispatchSlot? owner method
  | findMethod name method => exact Resolution.findMethod_keeps generates.resolve name method
  | lookupMethod name method => exact generates.lookupMethod name method
  | methodSymbol owner m typeArgs => exact Gen.methodSymbol_keeps owner m typeArgs
  | functionSymbol f => exact Gen.functionSymbol_keeps f
  | instantiate kind base args σ => exact generates.instantiate kind base args σ
  | instantiateFunction name typeArgs σ => exact generates.instantiateFunction name typeArgs σ
  | instantiateMethod owner m typeArgs σ => exact generates.instantiateMethod owner m typeArgs σ
  | emitFunction sig body σ => exact generates.answers.emitFunction generates.addFunction sig body σ
  | injectRuntime => exact generates.injectRuntime
  | generate m =>
    exact fun s => .behind (generates.registerAll m.decls s) (generates.generateRegistered m _)
  | drain => exact generates.drain

omit generates in
theorem reached {R : Session → Session → Prop} [IsPreorder Session R]
    (generates : Session.Generates (.always R)) {s : Session} (h : s.Reached) :
    ∃ options collector, R (.ofOptions options collector) s := by
  induction h with
  | start options collector => exact ⟨options, collector, refl_of R _⟩
  | register d _ ih =>
    obtain ⟨options, collector, moved⟩ := ih
    exact ⟨options, collector, trans_of R moved (generates.register _ d)⟩
  | step operation _ ih =>
    obtain ⟨options, collector, moved⟩ := ih
    exact ⟨options, collector, trans_of R moved ((generates.operation operation).after _)⟩

end Session.Generates

end Backend
