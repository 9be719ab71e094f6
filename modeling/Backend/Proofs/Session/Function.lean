import Backend.Generate
import Backend.Proofs.Emission.Course

/-!
Bodies of functions, as the session sees them. The lowering changes the session only by what it
asks it for; so whatever the questions may do to the session, a whole body may do.
-/

namespace Backend

open Gen (Keeps Moves)

/-- The questions of a body keep to the course. -/
structure Session.Answers (C : Session.Course) : Prop extends Session.Replies C where
  tell : ∀ call, call.struct? = none → Keeps C (Gen.tell call)
  internString : ∀ text, Keeps C (Gen.internString text)
  freshLambda : Keeps C Gen.freshLambda
  environment : ∀ name types, Keeps C (Gen.modifyOutput fun o => o.addTypeDef (.struct name types))
  describeFunction : ∀ name ret location, Keeps C (Gen.describeFunction name ret location)
  queueLambda : ∀ (symbol : String) (id : Nat) body f,
    Keeps C (Emit.queueLambda (symbol ++ s!"_lambda_{id}") body f)

/-- The function has just been written in the session. -/
inductive Session.Wrote : Session → FunctionDef → Prop where
  | body {sig : Signature} {body : List Stmt} {σ : Substitution} {s₀ s : Session} {fn : FunctionDef}
    {f : Frame}
    (run : Emit.functionDef sig body { symbol := sig.symbol, subst := σ } s₀ = .ok (fn, f) s) :
    Wrote s fn
  | runtime {text : String} {s₀ s : Session} {format : Operand}
    (run : Gen.internString text s₀ = .ok format s) : Wrote s (Gen.panicFunction format)

theorem Session.describeFunction_keeps {C : Session.Course} [C.Lawful] [C.Recovers]
    (define : ∀ kind name, Keeps C (Gen.define kind name))
    (tell : ∀ call, call.struct? = none → Keeps C (Gen.tell call)) (name : String) (ret : IrType)
    (location : Location) : Keeps C (Gen.describeFunction name ret location) := by
  refine Keeps.get.bind fun _ => .ite ?_ (.pure _)
  exact (Resolution.describeType_keeps define tell ret).bind fun _ =>
    (tell _ rfl).bind fun _ => tell _ rfl

/-- The session keeps to the course, and the frame stays one of the same substitution. -/
def Emit.Course.along (C : Session.Course) : Emit.Course :=
  ⟨fun p q => q.1.subst = p.1.subst ∧ C.goes p.2 q.2, C.halts⟩

instance (C : Session.Course) [C.Lawful] : (Emit.Course.along C).Lawful where
  refl p := ⟨rfl, Session.Course.Lawful.refl p.2⟩
  trans h h' := ⟨h'.1.trans h.1, Session.Course.Lawful.trans h.2 h'.2⟩
  stop := Session.Course.Lawful.stop
  after h := Session.Course.Lawful.after h.2

namespace Emit.Goes

variable {α : Type} {C : Session.Course} {x : Emit α} {Q : α → Prop}

theorem keeps (h : Goes (.along C) x Q) (f : Frame) : Gen.Keeps C (x f) := by
  intro s
  have gone := h f s
  rw [Gen.KeepsFrom]
  cases run : x f s with
  | ok r s' => rw [run] at gone; exact gone.1.2
  | error e s' => rw [run] at gone; exact gone

theorem asking {x : Gen α} (h : Gen.Keeps C x) (f : Frame) :
    Gen.Keeps ((Emit.Course.along C).asking f) x := by
  intro s
  have kept := h s
  rw [Gen.KeepsFrom] at kept ⊢
  cases run : x s with
  | ok a s' => rw [run] at kept; exact ⟨rfl, kept⟩
  | error e s' => rw [run] at kept; exact kept

theorem asked {x : Gen α} (h : Gen.Keeps C x) : Runs (.along C) (liftM x : Emit α) := ask (asking h)

end Emit.Goes

namespace Session.Answers

open Emit (Goes Runs)

variable {C : Session.Course} [C.Lawful] (answers : Session.Answers C)

include answers

theorem steps : Emit.Steps (.along C) where
  same := fun h => ⟨h.subst, Session.Course.Lawful.refl _⟩
  push := ⟨rfl, Session.Course.Lawful.refl _⟩
  replies := fun f => {
    resolve := fun ty σ => Goes.asking (answers.resolve ty σ) f
    define := fun kind name => Goes.asking (answers.define kind name) f
    dispatchLayout := fun name => Goes.asking (answers.dispatchLayout name) f
    instantiateFunction := fun name typeArgs σ =>
      Goes.asking (answers.instantiateFunction name typeArgs σ) f
    instantiateMethod := fun owner m typeArgs σ =>
      Goes.asking (answers.instantiateMethod owner m typeArgs σ) f }
  tell := fun f call other => Goes.asking (answers.tell call other) f
  internString := fun f text => Goes.asking (answers.internString text) f
  freshLambda := Goes.asking answers.freshLambda
  environment := fun f name types => Goes.asking (answers.environment name types) f
  queueLambda := fun symbol id body f s => ⟨⟨rfl, answers.queueLambda symbol id body f s⟩, trivial⟩

theorem closes : Emit.Closes fun _ => .along C :=
  answers.steps.closes ⟨rfl, Session.Course.Lawful.refl _⟩

theorem functionDef (sig : Signature) (body : List Stmt) :
    Runs (.along C) (Emit.functionDef sig body) := by
  refine Goes.get.andThen fun _ => Goes.andThen (.ite (.pure trivial) (answers.steps.resolve _)) ?_
  refine fun _ => (answers.steps.receiverParam _).andThen fun _ => ?_
  refine (answers.steps.incomingParams _).andThen fun _ => ?_
  refine (Goes.asked (answers.describeFunction _ _ _)).andThen fun _ => ?_
  refine Goes.andThen (answers.steps.modify fun _ => ⟨rfl, rfl, rfl, rfl, rfl⟩) fun _ => ?_
  exact (answers.closes.functionBody _ _ body).andThen fun _ => Goes.get.andThen fun _ => .pure trivial

theorem emitFunction (add : ∀ s f symbol, s.Wrote f →
      C.goes s { s with output := s.output.addFunction f, emitted := symbol :: s.emitted })
    (sig : Signature) (body : List Stmt) (σ : Substitution) :
    Keeps C (Gen.emitFunction sig body σ) := fun s =>
  ((answers.functionDef sig body).keeps _ s).bind fun _ s₁ run reached =>
    .of_ok rfl (Session.Course.Lawful.trans reached (add s₁ _ _ (.body run)))

end Session.Answers

def Session.Course.free : Session.Course := .always fun _ _ => True

instance : Session.Course.free.Lawful :=
  ⟨fun _ => trivial, fun _ _ => trivial, fun _ _ => trivial, fun _ _ => trivial⟩

theorem Session.Answers.free : Session.Answers .free := by
  have free {α : Type} (x : Gen α) : Keeps .free x := by
    intro s
    rw [Gen.KeepsFrom]
    split <;> exact True.intro
  exact ⟨⟨fun _ _ => free _, fun _ _ => free _, fun _ => free _, fun _ _ _ => free _,
    fun _ _ _ _ => free _⟩, fun _ _ => free _, fun _ => free _, free _, fun _ _ => free _,
    fun _ _ _ => free _, fun _ _ _ _ => free _⟩

theorem Expr.subst_kept (e : Expr) {f f' : Frame} {s s' : Session} {v : Value}
    (run : e.code.value f s = .ok (v, f') s') : f'.subst = f.subst :=
  ((e.code_yields.value.runs (b := true) Session.Answers.free.closes).ok run).1.1

end Backend
