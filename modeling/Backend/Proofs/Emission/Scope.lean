import Backend.Proofs.Emission.Course

/-!
Scopes and loops. Code leaves the loops around it as they were, and the names too unless it declares
one. Main statement: `Stmt.emit_lexical`, statements are emitted as if each loop handed its labels
down to its body and every other statement handed down what it was given, and no function is emitted
of which a jump leaves no loop.
-/

namespace Backend

namespace Emit

variable {α β : Type} {b : Bool} {loop : Option LoopLabels}

/-! ### What stays in scope -/

/-- The loops are the same; so are the names, unless some may be left bound. -/
def Lexical (b : Bool) (f f' : Frame) : Prop :=
  f'.loops = f.loops ∧ (b = false → f'.locals = f.locals)

instance : IsPreorder Frame (Lexical b) where
  refl _ := ⟨rfl, fun _ => rfl⟩
  trans _ _ _ h h' := ⟨h'.1.trans h.1, fun none => (h'.2 none).trans (h.2 none)⟩

theorem inScope_run (x : Emit α) (f : Frame) (s : Session) :
    inScope x f s = match x f s with
      | .ok r s' => .ok (r.1, { r.2 with locals := f.locals }) s'
      | .error e s' => .error e s' := by
  change (x f >>= fun r => pure (r.1, { r.2 with locals := f.locals }) : Gen (α × Frame)) s = _
  cases run : x f s with
  | ok r s' => exact Gen.bind_of_ok run
  | error e s' => exact Gen.bind_of_error run

theorem inLoop_run (labels : LoopLabels) (x : Emit Unit) (f : Frame) (s : Session) :
    inLoop labels x f s = match x { f with loops := labels :: f.loops } s with
      | .ok r s' => .ok ((), { r.2 with loops := f.loops }) s'
      | .error e s' => .error e s' := by
  change (x { f with loops := labels :: f.loops } >>= fun r =>
    pure ((), { r.2 with loops := f.loops }) : Gen (Unit × Frame)) s = _
  cases run : x { f with loops := labels :: f.loops } s with
  | ok r s' => exact Gen.bind_of_ok run
  | error e s' => exact Gen.bind_of_error run

theorem lexical_closes : Closes fun b => .framed (Lexical b) where
  steps b := .framed (fun h => ⟨h.loops, fun _ => h.locals⟩) ⟨rfl, fun _ => rfl⟩
  bindLocal _ _ := .of_ok fun _ _ => ⟨_, _, rfl, ⟨rfl, nofun⟩, trivial⟩
  inScope {α b b' x} h f s := by
    have gone := h f s
    rw [inScope_run]
    cases run : x f s with
    | ok r s' =>
      rw [run] at gone
      exact ⟨⟨gone.1.1, fun _ => rfl⟩, trivial⟩
    | error e s' => trivial
  inLoop {b x} labels h f s := by
    have gone := h { f with loops := labels :: f.loops } s
    rw [inLoop_run]
    cases run : x { f with loops := labels :: f.loops } s with
    | ok r s' =>
      rw [run] at gone
      exact ⟨⟨rfl, gone.1.2⟩, trivial⟩
    | error e s' => trivial

/-- The code leaves the loops as they were. -/
abbrev KeepsLoops (x : Emit α) : Prop := Runs (.framed (Lexical true)) x

theorem KeepsLoops.ok {x : Emit α} {f f' : Frame} {s s' : Session} {a : α} (h : KeepsLoops x)
    (run : x f s = .ok (a, f') s') : f'.loops = f.loops :=
  (Goes.ok h run).1.1

theorem letVar_locals {name : String} {ty : TypeRef} {value : Option Expr} {f f' : Frame}
    {s s' : Session} (run : letVar name ty (value.map Expr.code) f s = .ok ((), f') s') :
    ∃ l, l.ty = ty ∧ f'.locals = f.locals.insert name l := by
  have steps : Steps (.framed (Lexical false)) := lexical_closes.steps false
  have yields (ir : IrType) : Yields false [] (initialValue ir (value.map Expr.code))
      fun v => [v.operand] := initialValue_yields ir (optionCode_yields value)
  obtain ⟨ir, f₁, s₁, resolved, rest₁⟩ := bind_ok run
  obtain ⟨slot, f₂, s₂, allocated, rest₂⟩ := bind_ok rest₁
  obtain ⟨v, f₃, s₃, initial, rest₃⟩ := bind_ok rest₂
  obtain ⟨_, f₄, s₄, stored, bound⟩ := bind_ok rest₃
  have same₁ := ((steps.resolve ty).ok resolved).1.2 rfl
  have same₂ := ((steps.alloca ir).ok allocated).1.2 rfl
  have same₃ := (((yields ir).runs lexical_closes).ok initial).1.2 rfl
  have same₄ := ((steps.emit _).ok stored).1.2 rfl
  obtain ⟨rfl, -⟩ := modify_ok bound
  exact ⟨_, rfl, by rw [same₄, same₃, same₂, same₁]⟩

/-! ### Loops that are handed down -/

def jumpOut (keyword : String) (target : LoopLabels → Label) : Option LoopLabels → Emit Unit
  | some labels => terminate (.jump (target labels))
  | none => fail (.outsideLoop keyword)

/-- A loop whose body is given the labels of the loop. -/
def whileWith (condition : Code) (body : LoopLabels → Emit Unit) : Emit Unit := do
  let conditionLabel ← freshLabel "while.cond"
  let bodyLabel ← freshLabel "while.body"
  let endLabel ← freshLabel "while.end"
  startBlock conditionLabel
  let test ← condition.condition
  terminate (.branch test bodyLabel endLabel)
  let labels : LoopLabels := { leave := endLabel, again := conditionLabel }
  inBlock bodyLabel conditionLabel (inLoop labels (body labels))
  startBlock endLabel

/-- The same is emitted wherever `loop` is the loop around. -/
def Agrees (loop : Option LoopLabels) (x y : Emit α) : Prop :=
  ∀ f s, f.loops.head? = loop → x f s = y f s

def CasesAgree (loop : Option LoopLabels) :
    List (Int × Emit Unit) → List (Int × Emit Unit) → Prop :=
  List.Forall₂ fun c c' => c.1 = c'.1 ∧ Agrees loop c.2 c'.2 ∧ KeepsLoops c.2

end Emit

open Emit

mutual

/-- The emission of a statement around which `loop` is the innermost loop. -/
def Stmt.emitIn (loop : Option LoopLabels) : Stmt → Emit Unit
  | .ifElse condition thenBlock elseBlock l =>
    placed l (ifElse condition.code (inScope (emitStmtsIn loop thenBlock))
      (emitOptionalIn loop elseBlock))
  | .whileLoop condition body l =>
    placed l (whileWith condition.code fun labels => inScope (emitStmtsIn (some labels) body))
  | .breakLoop l => placed l (jumpOut "break" LoopLabels.leave loop)
  | .continueLoop l => placed l (jumpOut "continue" LoopLabels.again loop)
  | .switch scrutinee cases default l =>
    placed l (switch scrutinee.code (emitCasesIn loop cases) (emitOptionalIn loop default))
  | .block body => inScope (emitStmtsIn loop body)
  | stmt => stmt.emit

def emitStmtsIn (loop : Option LoopLabels) : List Stmt → Emit Unit
  | [] => pure ()
  | stmt :: rest => do
    stmt.emitIn loop
    emitStmtsIn loop rest

def emitOptionalIn (loop : Option LoopLabels) : Option (List Stmt) → Option (Emit Unit)
  | none => none
  | some body => some (inScope (emitStmtsIn loop body))

def emitCasesIn (loop : Option LoopLabels) : List SwitchCase → List (Int × Emit Unit)
  | [] => []
  | .mk value body :: rest => (value, inScope (emitStmtsIn loop body)) :: emitCasesIn loop rest

end

mutual

/-- Whether a jump stands in a statement, outside any loop of it. -/
def Stmt.strays : Stmt → Bool
  | .breakLoop _ | .continueLoop _ => true
  | .ifElse _ thenBlock elseBlock _ => strayStmts thenBlock || strayOptional elseBlock
  | .switch _ cases default _ => strayCases cases || strayOptional default
  | .block body => strayStmts body
  | .letVar .. | .expr _ | .ret .. | .whileLoop .. => false

def strayStmts : List Stmt → Bool
  | [] => false
  | stmt :: rest => stmt.strays || strayStmts rest

def strayOptional : Option (List Stmt) → Bool
  | none => false
  | some body => strayStmts body

def strayCases : List SwitchCase → Bool
  | [] => false
  | .mk _ body :: rest => strayStmts body || strayCases rest

end

namespace Emit

variable {α β : Type} {loop : Option LoopLabels}

theorem steps_loops : Steps (.framed (Lexical true)) := lexical_closes.steps true

theorem stmt_keepsLoops (stmt : Stmt) : KeepsLoops stmt.emit :=
  (stmt.emit_acts (Bool.le_true _)).runs lexical_closes

theorem emitStmts_keepsLoops (body : List Stmt) : KeepsLoops (inScope (emitStmts body)) :=
  lexical_closes.emitBlock body

theorem emitCases_keepLoops (cases : List SwitchCase) :
    ∀ c ∈ emitCases cases, KeepsLoops c.2 := by
  induction cases with
  | nil => exact List.forall_mem_nil _
  | cons c rest ih =>
    obtain ⟨_, body⟩ := c
    exact List.forall_mem_cons.mpr ⟨emitStmts_keepsLoops body, ih⟩

theorem value_keepsLoops (e : Expr) : KeepsLoops e.code.value :=
  e.code_yields.value.runs lexical_closes

theorem condition_keepsLoops (e : Expr) : KeepsLoops e.code.condition :=
  e.code_yields.condition.runs lexical_closes

/-! ### Code that agrees -/

namespace Agrees

variable {x y : Emit α} {k k' : α → Emit β}

theorem rfl {x : Emit α} : Agrees loop x x := fun _ _ _ => Eq.refl _

theorem bind (first : Agrees loop x y) (keeps : KeepsLoops x)
    (rest : ∀ a, Agrees loop (k a) (k' a)) : Agrees loop (x >>= k) (y >>= k') := by
  intro f s inside
  change (x f >>= fun r => k r.1 r.2 : Gen (β × Frame)) s = (y f >>= fun r => k' r.1 r.2) s
  cases run : x f s with
  | ok r s₁ =>
    rw [Gen.bind_of_ok run, Gen.bind_of_ok ((first f s inside).symm.trans run)]
    exact rest r.1 r.2 s₁ (by rw [keeps.ok run, inside])
  | error e s₁ =>
    rw [Gen.bind_of_error run, Gen.bind_of_error ((first f s inside).symm.trans run)]

theorem after (keeps : KeepsLoops x) (rest : ∀ a, Agrees loop (k a) (k' a)) :
    Agrees loop (x >>= k) (x >>= k') :=
  rfl.bind keeps rest

theorem placed {x y : Emit Unit} (h : Agrees loop x y) (l : Location) :
    Agrees loop (placed l x) (placed l y) := by
  refine .after (steps_loops.setLocation l) fun _ f s inside => ?_
  rw [locating, locating, Gen.locating, Gen.locating, Gen.tryCatch_run, Gen.tryCatch_run,
    h f s inside]

theorem inScope (h : Agrees loop x y) : Agrees loop (inScope x) (inScope y) := by
  intro f s inside
  rw [inScope_run, inScope_run, h f s inside]

theorem inLoop {x y : Emit Unit} {labels : LoopLabels} (h : Agrees (some labels) x y) :
    Agrees loop (inLoop labels x) (inLoop labels y) := by
  intro f s _
  rw [inLoop_run, inLoop_run, h _ s (Eq.refl _)]

theorem inBlock {x y : Emit Unit} (h : Agrees loop x y) (keeps : KeepsLoops x)
    (label next : Label) : Agrees loop (inBlock label next x) (inBlock label next y) :=
  .after (steps_loops.startBlock _) fun _ => h.bind keeps fun _ => .rfl

theorem ifElse {condition : Code} (test : KeepsLoops condition.condition) {x y : Emit Unit}
    (h : Agrees loop x y) (keeps : KeepsLoops x) {other other' : Option (Emit Unit)}
    (otherwise : Option.Rel (fun x y => Agrees loop x y ∧ KeepsLoops x) other other') :
    Agrees loop (ifElse condition x other) (ifElse condition y other') := by
  refine .after test fun _ => .after (steps_loops.freshLabel _) fun _ => ?_
  refine .after (steps_loops.freshLabel _) fun _ => ?_
  cases otherwise with
  | none =>
    refine .after (steps_loops.terminate _) fun _ => ?_
    exact (h.inBlock keeps _ _).bind (steps_loops.inBlock _ _ keeps) fun _ => .rfl
  | some other =>
    refine .after (steps_loops.freshLabel _) fun _ => .after (steps_loops.terminate _) fun _ => ?_
    refine (h.inBlock keeps _ _).bind (steps_loops.inBlock _ _ keeps) fun _ => ?_
    exact (other.1.inBlock other.2 _ _).bind (steps_loops.inBlock _ _ other.2) fun _ => .rfl

theorem whileLoop {condition : Code} (test : KeepsLoops condition.condition) {x : Emit Unit}
    {y : LoopLabels → Emit Unit} (h : ∀ labels, Agrees (some labels) x (y labels))
    (keeps : KeepsLoops x) : Agrees loop (whileLoop condition x) (whileWith condition y) := by
  refine .after (steps_loops.freshLabel _) fun _ => .after (steps_loops.freshLabel _) fun _ => ?_
  refine .after (steps_loops.freshLabel _) fun _ => .after (steps_loops.startBlock _) fun _ => ?_
  refine .after test fun _ => .after (steps_loops.terminate _) fun _ => ?_
  have looped (labels : LoopLabels) := lexical_closes.inLoop (b := true) labels keeps
  exact (Agrees.inBlock (.inLoop (h _)) (looped _) _ _).bind (steps_loops.inBlock _ _ (looped _))
    fun _ => .rfl

theorem loopJump (keyword : String) (target : LoopLabels → Label) :
    Agrees loop (loopJump keyword target) (jumpOut keyword target loop) := by
  intro f s inside
  subst inside
  rw [Emit.loopJump, get_bind]
  cases f.loops <;> rfl

/-- The labels of the cases do not depend on what the cases do. -/
theorem labelCases {cases cases' : List (Int × Emit Unit)} (h : CasesAgree loop cases cases')
    {k k' : List (Int × Label × Emit Unit) → Emit β}
    (rest : ∀ labels : List Label, labels.length = cases.length →
      Agrees loop (k (List.zipWith (fun c label => (c.1, label, c.2)) cases labels))
        (k' (List.zipWith (fun c label => (c.1, label, c.2)) cases' labels))) :
    Agrees loop (labelCases cases >>= k) (labelCases cases' >>= k') := by
  induction h generalizing k k' with
  | nil => exact rest [] (Eq.refl _)
  | @cons c c' cases cases' first _ ih =>
    simp only [Emit.labelCases, bind_assoc, pure_bind]
    refine .after (steps_loops.freshLabel _) fun label => ih fun labels same => ?_
    exact rest (label :: labels) (by rw [List.length_cons, same, List.length_cons])

theorem switchCases {cases cases' : List (Int × Emit Unit)} (h : CasesAgree loop cases cases')
    (v : Value) (endLabel defaultLabel : Label) :
    Agrees loop (switchCases v endLabel defaultLabel cases)
      (switchCases v endLabel defaultLabel cases') := by
  refine labelCases h fun labels same => ?_
  have targets : (List.zipWith (fun c label => (c.1, label, c.2)) cases labels).map
      (fun c => (c.1, c.2.1)) =
      (List.zipWith (fun c label => (c.1, label, c.2)) cases' labels).map
        fun c => (c.1, c.2.1) := by
    clear same
    induction h generalizing labels with
    | nil => exact Eq.refl _
    | cons first _ ih =>
      cases labels with
      | nil => exact Eq.refl _
      | cons label labels => simp only [List.zipWith_cons_cons, List.map_cons, first.1, ih]
  simp only [targets]
  refine .after (steps_loops.terminate _) fun _ => ?_
  clear same targets
  induction h generalizing labels with
  | nil => exact .rfl
  | cons first _ ih =>
    cases labels with
    | nil => exact .rfl
    | cons label labels =>
      exact (first.2.1.inBlock first.2.2 _ _).bind (steps_loops.inBlock _ _ first.2.2) fun _ => ih _

theorem switch {scrutinee : Code} (value : KeepsLoops scrutinee.value)
    {cases cases' : List (Int × Emit Unit)} (h : CasesAgree loop cases cases')
    (keeps : ∀ c ∈ cases, KeepsLoops c.2) {other other' : Option (Emit Unit)}
    (otherwise : Option.Rel (fun x y => Agrees loop x y ∧ KeepsLoops x) other other') :
    Agrees loop (switch scrutinee cases other) (switch scrutinee cases' other') := by
  have chosen (v : Value) (endLabel defaultLabel : Label) :=
    steps_loops.switchCases v endLabel defaultLabel keeps
  refine .after value fun v => ?_
  split
  · refine .after (steps_loops.freshLabel _) fun _ => ?_
    cases otherwise with
    | none => exact (switchCases h _ _ _).bind (chosen _ _ _) fun _ => .rfl
    | some other =>
      refine .after (steps_loops.freshLabel _) fun _ => ?_
      refine (switchCases h _ _ _).bind (chosen _ _ _) fun _ => ?_
      exact (other.1.inBlock other.2 _ _).bind (steps_loops.inBlock _ _ other.2) fun _ => .rfl
  · exact .rfl

end Agrees

mutual

theorem emit_agrees (loop : Option LoopLabels) :
    (stmt : Stmt) → Agrees loop stmt.emit (stmt.emitIn loop)
  | .letVar .. | .expr _ | .ret .. => .rfl
  | .ifElse condition thenBlock elseBlock l =>
    .placed (.ifElse (condition_keepsLoops condition) (emitStmts_agree loop thenBlock).inScope
      (emitStmts_keepsLoops thenBlock) (emitOptional_agrees loop elseBlock)) l
  | .whileLoop condition body l =>
    .placed (.whileLoop (condition_keepsLoops condition)
      (fun labels => (emitStmts_agree (some labels) body).inScope) (emitStmts_keepsLoops body)) l
  | .breakLoop l => .placed (.loopJump _ _) l
  | .continueLoop l => .placed (.loopJump _ _) l
  | .switch scrutinee cases default l =>
    .placed (.switch (value_keepsLoops scrutinee) (emitCases_agree loop cases)
      (emitCases_keepLoops cases) (emitOptional_agrees loop default)) l
  | .block body => (emitStmts_agree loop body).inScope

theorem emitStmts_agree (loop : Option LoopLabels) :
    (body : List Stmt) → Agrees loop (emitStmts body) (emitStmtsIn loop body)
  | [] => .rfl
  | stmt :: rest =>
    (emit_agrees loop stmt).bind (stmt_keepsLoops stmt) fun _ => emitStmts_agree loop rest

theorem emitOptional_agrees (loop : Option LoopLabels) : (body : Option (List Stmt)) →
    Option.Rel (fun x y => Agrees loop x y ∧ KeepsLoops x) (emitOptional body)
      (emitOptionalIn loop body)
  | none => .none
  | some body => .some ⟨(emitStmts_agree loop body).inScope, emitStmts_keepsLoops body⟩

theorem emitCases_agree (loop : Option LoopLabels) :
    (cases : List SwitchCase) → CasesAgree loop (emitCases cases) (emitCasesIn loop cases)
  | [] => .nil
  | .mk _ body :: rest =>
    .cons ⟨rfl, (emitStmts_agree loop body).inScope, emitStmts_keepsLoops body⟩
      (emitCases_agree loop rest)

end

/-! ### Jumps outside any loop -/

/-- If the code is emitted outside any loop, then `P` holds. -/
def Outside (x : Emit α) (P : Prop) : Prop :=
  ∀ f s r s', f.loops = [] → x f s = .ok r s' → P

namespace Outside

variable {x : Emit α} {k : α → Emit β} {P Q : Prop}

theorem imp (h : Outside x P) (imp : P → Q) : Outside x Q :=
  fun f s r s' outside run => imp (h f s r s' outside run)

theorem first (h : Outside x P) : Outside (x >>= k) P := by
  intro f s r s' outside run
  obtain ⟨a, f₁, s₁, ran, -⟩ := bind_ok run
  exact h f s _ s₁ outside ran

theorem bind {R : α → Prop} (keeps : Goes (.framed (Lexical Bool.true)) x R)
    (h : ∀ a, R a → Outside (k a) P) : Outside (x >>= k) P := by
  intro f s r s' outside run
  obtain ⟨a, f₁, s₁, ran, rest⟩ := bind_ok run
  obtain ⟨same, got⟩ := keeps.ok ran
  exact h a got f₁ s₁ r s' (same.1.trans outside) rest

theorem later (keeps : KeepsLoops x) (h : ∀ a, Outside (k a) P) : Outside (x >>= k) P :=
  bind keeps fun a _ => h a

theorem and (h : Outside x P) (h' : Outside x Q) : Outside x (P ∧ Q) :=
  fun f s r s' outside run => ⟨h f s r s' outside run, h' f s r s' outside run⟩

theorem forM {x : α → Emit PUnit} {xs : List α} {a : α} (member : a ∈ xs)
    (keeps : ∀ a ∈ xs, KeepsLoops (x a)) (h : Outside (x a) P) : Outside (xs.forM x) P := by
  induction xs with
  | nil => cases member
  | cons first rest ih =>
    obtain ⟨here, others⟩ := List.forall_mem_cons.mp keeps
    cases member with
    | head => exact Outside.first h
    | tail _ member => exact later here fun _ => ih member others

theorem placed {x : Emit Unit} (h : Outside x P) (l : Location) : Outside (placed l x) P :=
  later (steps_loops.setLocation l) fun _ f s r s' outside run =>
    h f s r s' outside (Gen.locating_ok run)

theorem inScope (h : Outside x P) : Outside (inScope x) P := by
  intro f s r s' outside run
  rw [inScope_run] at run
  cases ran : x f s with
  | ok r₁ s₁ => exact h f s r₁ s₁ outside ran
  | error e s₁ => rw [ran] at run; cases run

theorem inBlock {x : Emit Unit} (h : Outside x P) (label next : Label) :
    Outside (inBlock label next x) P :=
  later (steps_loops.startBlock _) fun _ => first h

section

variable {x y : Emit Unit} {condition : Code} (test : KeepsLoops condition.condition)

include test

theorem ifElse_then (h : Outside x P) (other : Option (Emit Unit)) :
    Outside (ifElse condition x other) P := by
  refine later test fun _ => later (steps_loops.freshLabel _) fun _ => ?_
  refine later (steps_loops.freshLabel _) fun _ => ?_
  cases other with
  | none => exact later (steps_loops.terminate _) fun _ => first (h.inBlock _ _)
  | some other =>
    refine later (steps_loops.freshLabel _) fun _ => later (steps_loops.terminate _) fun _ => ?_
    exact first (h.inBlock _ _)

theorem ifElse_else (keeps : KeepsLoops x) (h : Outside y P) :
    Outside (ifElse condition x (some y)) P := by
  refine later test fun _ => later (steps_loops.freshLabel _) fun _ => ?_
  refine later (steps_loops.freshLabel _) fun _ => later (steps_loops.freshLabel _) fun _ => ?_
  refine later (steps_loops.terminate _) fun _ => ?_
  exact later (steps_loops.inBlock _ _ keeps) fun _ => first (h.inBlock _ _)

end

theorem loopJump (keyword : String) (target : LoopLabels → Label) :
    Outside (loopJump keyword target) False := by
  intro f s r s' outside run
  rw [Agrees.loopJump keyword target f s rfl, outside] at run
  cases run

section

variable {cases : List (Int × Emit Unit)} (keeps : ∀ c ∈ cases, KeepsLoops c.2)

include keeps

theorem switchCases {c : Int × Emit Unit} (member : c ∈ cases) (h : Outside c.2 P) (v : Value)
    (endLabel defaultLabel : Label) :
    Outside (switchCases v endLabel defaultLabel cases) P := by
  refine bind (steps_loops.labelCases cases) fun labelled same => ?_
  refine later (steps_loops.terminate _) fun _ => ?_
  obtain ⟨c', member', body⟩ := List.mem_map.mp (same ▸ List.mem_map_of_mem (f := Prod.snd) member)
  refine forM member' (fun c member => steps_loops.inBlock _ _ ?_) ((body ▸ h).inBlock _ _)
  obtain ⟨c', member', body⟩ := List.mem_map.mp (same ▸ List.mem_map_of_mem member)
  exact body ▸ keeps c' member'

variable {scrutinee : Code} (value : KeepsLoops scrutinee.value)

include value

theorem switch_case {c : Int × Emit Unit} (member : c ∈ cases) (h : Outside c.2 P)
    (other : Option (Emit Unit)) : Outside (switch scrutinee cases other) P := by
  refine later value fun v => ?_
  split
  · refine later (steps_loops.freshLabel _) fun _ => ?_
    cases other with
    | none => exact first (switchCases keeps member h _ _ _)
    | some other =>
      exact later (steps_loops.freshLabel _) fun _ => first (switchCases keeps member h _ _ _)
  · exact fun _ _ _ _ _ run => nomatch run

theorem switch_default {y : Emit Unit} (h : Outside y P) :
    Outside (switch scrutinee cases (some y)) P := by
  refine later value fun v => ?_
  split
  · refine later (steps_loops.freshLabel _) fun _ => later (steps_loops.freshLabel _) fun _ => ?_
    exact later (steps_loops.switchCases _ _ _ keeps) fun _ => first (h.inBlock _ _)
  · exact fun _ _ _ _ _ run => nomatch run

end

end Outside

mutual

theorem emit_outside : (stmt : Stmt) → Outside stmt.emit (stmt.strays = false)
  | .letVar .. | .expr _ | .ret .. | .whileLoop .. => fun _ _ _ _ _ _ => rfl
  | .ifElse condition thenBlock elseBlock l => by
    have inThen :=
      (emitStmts_outside thenBlock).inScope.ifElse_then (condition_keepsLoops condition)
      (emitOptional elseBlock)
    have inElse : Outside (ifElse condition.code (inScope (emitStmts thenBlock))
        (emitOptional elseBlock)) (strayOptional elseBlock = false) :=
      emitOptional_outside elseBlock fun same h =>
        same ▸ h.ifElse_else (condition_keepsLoops condition) (emitStmts_keepsLoops thenBlock)
    exact ((inThen.and inElse).placed l).imp Bool.or_eq_false_iff.mpr
  | .breakLoop l => ((Outside.loopJump _ _).placed l).imp False.elim
  | .continueLoop l => ((Outside.loopJump _ _).placed l).imp False.elim
  | .switch scrutinee cases default l => by
    have keeps := emitCases_keepLoops cases
    have inCases : Outside (switch scrutinee.code (emitCases cases) (emitOptional default))
        (strayCases cases = false) :=
      emitCases_outside cases fun member h =>
        h.switch_case keeps (value_keepsLoops scrutinee) member _
    have inDefault : Outside (switch scrutinee.code (emitCases cases) (emitOptional default))
        (strayOptional default = false) :=
      emitOptional_outside default fun same h =>
        same ▸ h.switch_default keeps (value_keepsLoops scrutinee)
    exact ((inCases.and inDefault).placed l).imp Bool.or_eq_false_iff.mpr
  | .block body => (emitStmts_outside body).inScope

theorem emitStmts_outside : (body : List Stmt) → Outside (emitStmts body) (strayStmts body = false)
  | [] => fun _ _ _ _ _ _ => rfl
  | stmt :: rest =>
    ((emit_outside stmt).first.and
      (.later (stmt_keepsLoops stmt) fun _ => emitStmts_outside rest)).imp Bool.or_eq_false_iff.mpr

/-- What a body emits is part of `x`. -/
theorem emitOptional_outside : (body : Option (List Stmt)) → {x : Emit Unit} →
    (∀ {y P}, emitOptional body = some y → Outside y P → Outside x P) →
      Outside x (strayOptional body = false)
  | none, _, _ => fun _ _ _ _ _ _ => rfl
  | some body, _, part => part rfl (emitStmts_outside body).inScope

/-- What a case emits is part of `x`. -/
theorem emitCases_outside : (cases : List SwitchCase) → {x : Emit Unit} →
    (∀ {c P}, c ∈ emitCases cases → Outside c.2 P → Outside x P) →
      Outside x (strayCases cases = false)
  | [], _, _ => fun _ _ _ _ _ _ => rfl
  | .mk _ body :: rest, _, part =>
    ((part List.mem_cons_self (emitStmts_outside body).inScope).and
      (emitCases_outside rest fun member => part (List.mem_cons_of_mem _ member))).imp
        Bool.or_eq_false_iff.mpr

end

/-! ### Functions -/

/-- The body of a function, whose statements are in no loop. -/
def lexicalBody (incoming : List Incoming) (captures : Option Captures) (body : List Stmt) :
    Emit Unit := do
  incoming.forM fun p => declareLocal p.name p.ty ⟨.reg (.named p.register), p.ir⟩
  unpackOptional captures
  inScope (emitStmtsIn none body)
  unless (← get).terminated do
    defaultReturn

theorem functionBody_agrees (incoming : List Incoming) (captures : Option Captures)
    (body : List Stmt) :
    Agrees none (functionBody incoming captures body) (lexicalBody incoming captures body) :=
  .after (lexical_closes.incoming incoming) fun _ =>
  .after (lexical_closes.unpackOptional captures) fun _ =>
    (emitStmts_agree none body).inScope.bind (emitStmts_keepsLoops body) fun _ => .rfl

theorem functionDef_outside (sig : Signature) (body : List Stmt) :
    Outside (functionDef sig body) (strayStmts body = false) := by
  have inBody (incoming : List Incoming) :
      Outside (functionBody incoming sig.captures body) (strayStmts body = false) :=
    .later (lexical_closes.incoming incoming) fun _ =>
    .later (lexical_closes.unpackOptional _) fun _ =>
      .first (emitStmts_outside body).inScope
  refine .later .get fun _ => .later (.ite (.pure trivial) (steps_loops.resolve _)) fun _ => ?_
  refine .later (steps_loops.receiverParam _) fun _ => ?_
  refine .later (steps_loops.incomingParams _) fun _ => .later (.ask (framed_keeps _)) fun _ => ?_
  refine .later (steps_loops.modify fun _ => ⟨rfl, rfl, rfl, rfl, rfl⟩) fun _ => .first (inBody _)

theorem terminate_ok {t : Terminator} {f f' : Frame} {s s' : Session}
    (run : terminate t f s = .ok ((), f') s') :
    f'.location = f.location ∧ f'.body.toList = f.body.toList ++ gap f ++ [.term t f.location] := by
  cases ended : f.terminated with
  | false =>
    have same : f = { f with terminated := false } := by rw [← ended]
    rw [same] at run ⊢
    cases run
    simp [gap]
  | true =>
    have same : f = { f with terminated := true } := by rw [← ended]
    rw [same] at run ⊢
    cases run
    simp [gap]

/-- A jump is written behind what there is, with the label of the innermost loop. -/
theorem loopJump_ok {keyword : String} {target : LoopLabels → Label} {f f' : Frame} {s s' : Session}
    (run : loopJump keyword target f s = .ok ((), f') s') :
    ∃ labels, f.loops.head? = some labels ∧ f'.body.toList =
      f.body.toList ++ gap f ++ [.term (.jump (target labels)) f'.location] := by
  rw [loopJump, get_bind] at run
  cases isLoop : f.loops with
  | nil =>
    rw [isLoop] at run
    exact (fail_ok run).elim
  | cons labels outer =>
    rw [isLoop] at run
    obtain ⟨location, lines⟩ := terminate_ok run
    exact ⟨labels, rfl, location ▸ lines⟩

theorem placed_loopJump_ok {l : Location} {keyword : String} {target : LoopLabels → Label}
    {f f' : Frame} {s s' : Session}
    (run : placed l (loopJump keyword target) f s = .ok ((), f') s') :
    ∃ labels, f.loops.head? = some labels ∧ f'.body.toList =
      f.body.toList ++ gap f ++ [.term (.jump (target labels)) f'.location] := by
  obtain ⟨_, f₁, s₁, located, jumped⟩ := bind_ok run
  obtain ⟨now, f₂, s₂, got, told⟩ := bind_ok located
  obtain ⟨rfl, rfl, rfl⟩ := get_ok got
  obtain ⟨id, f₃, s₃, asked, set⟩ := bind_ok told
  obtain ⟨rfl, rfl⟩ := modify_ok set
  obtain rfl : f₃ = f₂ := by
    cases isScope : f₂.scope with
    | none =>
      rw [isScope] at asked
      exact (pure_ok asked).2.1
    | some scope =>
      rw [isScope] at asked
      exact (lift_ok asked).1
  obtain ⟨labels, innermost, lines⟩ := loopJump_ok (Gen.locating_ok jumped)
  exact ⟨labels, innermost, lines⟩

end Emit

open Emit

/-- A statement leaves the loops around it as they were, and the names too but for the one it
declares. A jump is written with the label of the loop that stands around it in the text: there is
none around the body of a function, only a loop adds one, and where there is none the function is not
generated. -/
theorem Stmt.emit_lexical :
    (∀ (e : Expr) {f f' : Frame} {s s' : Session},
      ((∃ v, e.code.value f s = .ok (v, f') s') ∨ (∃ p, e.code.lvalue f s = .ok (p, f') s') ∨
        ∃ p, e.code.place f s = .ok (p, f') s') →
      f'.loops = f.loops ∧ f'.locals = f.locals) ∧
    (∀ (stmt : Stmt) {f f' : Frame} {s s' : Session}, stmt.emit f s = .ok ((), f') s' →
      f'.loops = f.loops ∧
      match stmt with
      | .letVar name ty _ _ => ∃ l, l.ty = ty ∧ f'.locals = f.locals.insert name l
      | _ => f'.locals = f.locals) ∧
    (∀ (l : Location) {f f' : Frame} {s s' : Session},
      ((Stmt.breakLoop l).emit f s = .ok ((), f') s' → ∃ labels, f.loops.head? = some labels ∧
        f'.body.toList = f.body.toList ++ gap f ++ [.term (.jump labels.leave) f'.location]) ∧
      ((Stmt.continueLoop l).emit f s = .ok ((), f') s' → ∃ labels, f.loops.head? = some labels ∧
        f'.body.toList = f.body.toList ++ gap f ++ [.term (.jump labels.again) f'.location])) ∧
    (∀ (stmt : Stmt) (f : Frame) (s : Session), stmt.emit f s = stmt.emitIn f.loops.head? f s) ∧
    (∀ (incoming : List Incoming) (captures : Option Captures) (body : List Stmt) (f : Frame)
      (s : Session), f.loops = [] →
      functionBody incoming captures body f s = lexicalBody incoming captures body f s) ∧
    ∀ (sig : Signature) (body : List Stmt) (σ : Substitution) (s : Session),
      strayStmts body = true → ∃ h s', Gen.emitFunction sig body σ s = .error h s' := by
  refine ⟨fun e f f' s s' ran => ?_, fun stmt f f' s s' ran => ⟨(stmt_keepsLoops stmt).ok ran, ?_⟩,
    fun l f f' s s' => ⟨placed_loopJump_ok, placed_loopJump_ok⟩, fun stmt f s => emit_agrees _ stmt f s rfl, fun incoming captures body f s outside => ?_,
    fun sig body σ s strays => ?_⟩
  · have kept : Lexical false f f' := by
      obtain ⟨v, ran⟩ | ⟨p, ran⟩ | ⟨p, ran⟩ := ran
      · exact ((e.code_yields.value.runs lexical_closes).ok ran).1
      · exact ((e.code_yields.lvalue.runs lexical_closes).ok ran).1
      · exact ((e.code_yields.place.runs lexical_closes).ok ran).1
    exact ⟨kept.1, kept.2 rfl⟩
  · have kept (none : stmt.declares = false) : f'.locals = f.locals :=
      (((stmt.emit_acts (b := false) none.le).runs lexical_closes).ok ran).1.2 rfl
    cases stmt with
    | letVar name ty value l =>
      obtain ⟨_, f₁, s₁, placed, declared⟩ := bind_ok ran
      have same : f₁.locals = f.locals :=
        (((lexical_closes.steps false).setLocation l).ok placed).1.2 rfl
      obtain ⟨l, typed, bound⟩ := letVar_locals (Gen.locating_ok declared)
      exact ⟨l, typed, same ▸ bound⟩
    | _ => exact kept rfl
  · exact functionBody_agrees incoming captures body f s (by rw [outside]; rfl)
  · cases ran : functionDef sig body { symbol := sig.symbol, subst := σ } s with
    | error h s' => exact ⟨h, s', Gen.bind_of_error ran⟩
    | ok r s' =>
      have never := functionDef_outside sig body _ s r s' rfl ran
      rw [strays] at never
      cases never

/-- Two loops, one in the other. -/
def innerLoop : LoopLabels := ⟨.fresh "while.end" 5, .fresh "while.cond" 3⟩

def loopFrame : Frame :=
  { symbol := "f", subst := {}, loops := [innerLoop, ⟨.fresh "while.end" 2, .fresh "while.cond" 0⟩] }

theorem Stmt.emit_lexical_nested :
    (∃ f s, (Stmt.breakLoop {}).emit loopFrame {} = .ok ((), f) s ∧ f.loops = loopFrame.loops ∧
      f.locals = loopFrame.locals ∧
      f.body.toList = [.term (.jump (.fresh "while.end" 5)) f.location]) ∧
    ∃ h s, Gen.emitFunction { symbol := "f", returnType := .void }
      [.ifElse (.ofBool true) [.continueLoop {}] none {}] {} {} = .error h s := by
  obtain ⟨-, statements, jumps, -, -, strays⟩ := Stmt.emit_lexical
  refine ⟨?_, strays _ _ _ _ rfl⟩
  have succeeds : Gen.succeeds ((Stmt.breakLoop {}).emit loopFrame) {} = true := by decide +kernel
  obtain ⟨⟨_, f⟩, s, run⟩ := Gen.exists_ok succeeds
  obtain ⟨loops, locals⟩ := statements _ run
  obtain ⟨labels, first, lines⟩ := (jumps {}).1 run
  cases first
  exact ⟨f, s, run, loops, locals, lines⟩

end Backend
