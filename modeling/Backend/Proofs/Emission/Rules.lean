import Backend.Lowering.Function
import Backend.Proofs.Flow.Shape

/-!
How bodies are put together. The lowering of every construct is made of a few kinds of steps.
`Emit.Yields b os x R` says that `x` is made of them, reads only constants and `os`, and makes `R`
readable by its result; unless `b` is true it leaves no name bound. `Emit.Acts b os x` says the same
of statements, which may close the block they stand in. What holds of these rules holds of all code,
by induction over them.
-/

namespace Backend

/-- What a body asks the session for. -/
inductive Gen.Question : {α : Type} → Gen α → Prop where
  | resolve (ty : TypeRef) (σ : Substitution) : Question (Gen.resolve ty σ)
  | resolveAll (types : List TypeRef) (σ : Substitution) : Question (Gen.resolveAll types σ)
  | substitute (σ : Substitution) (ty : TypeRef) : Question (Gen.substitute σ ty)
  | ownerType (owner : String) : Question (Resolution.ownerType owner)
  | sizeOf (ty : IrType) : Question (Gen.sizeOf ty)
  | aggregate (types : List IrType) : Question (Gen.aggregate types)
  | structLayout (name : String) : Question (Gen.structLayout name)
  | enumLayout (name : String) : Question (Gen.enumLayout name)
  | dispatchLayout (name : String) : Question (Gen.dispatchLayout name)
  | dispatchSlot? (owner method : String) : Question (Gen.dispatchSlot? owner method)
  | lookupMethod (name method : String) : Question (Gen.lookupMethod name method)
  | methodType (owner : String) (m : FunctionDecl) (σ : Substitution) :
    Question (Gen.methodType owner m σ)
  | resolveSignature (params : List TypeRef) (ret : TypeRef) (σ : Substitution) :
    Question (Gen.resolveSignature params ret σ)
  | functionTarget (name : String) (typeArgs : List TypeRef) (σ : Substitution) :
    Question (Gen.functionTarget name typeArgs σ)
  | methodTarget (owner : String) (m : FunctionDecl) (typeArgs : List TypeRef) (σ : Substitution) :
    Question (Gen.methodTarget owner m typeArgs σ)
  | environment (name : String) (types : List IrType) :
    Question (Gen.modifyOutput fun o => o.addTypeDef (.struct name types))

/-! ### Operands that can be read -/

/-- The operands that an instruction computes with. The symbol of a function that is called is none
of them. -/
def Instr.reads : Instr → List Operand
  | .call _ _ (.global _) args => args.map Value.operand
  | i => i.operands

@[simp] theorem IrType.zero_ne_reg (ty : IrType) (r : Register) : ty.zero ≠ .reg r := by
  cases ty <;> simp [IrType.zero]

@[simp] theorem IrType.zero_ne_global (ty : IrType) (symbol : String) : ty.zero ≠ .global symbol := by
  cases ty <;> simp [IrType.zero]

@[simp] theorem floatOperand_ne_reg (x : Binary64) (ty : IrType) (r : Register) :
    floatOperand x ty ≠ .reg r := by
  cases ty <;> simp [floatOperand]

@[simp] theorem floatOperand_ne_global (x : Binary64) (ty : IrType) (symbol : String) :
    floatOperand x ty ≠ .global symbol := by
  cases ty <;> simp [floatOperand]

@[simp] theorem IrType.zero_ne_stringStart (ty : IrType) (i n : Nat) : ty.zero ≠ .stringStart i n := by
  cases ty <;> simp [IrType.zero]

@[simp] theorem floatOperand_ne_stringStart (x : Binary64) (ty : IrType) (i n : Nat) :
    floatOperand x ty ≠ .stringStart i n := by
  cases ty <;> simp [floatOperand]

instance : Nonempty Register := ⟨.temp 0⟩

/-- The operand is one of these, or a constant that refers to nothing else. -/
def Known (os : List Operand) (o : Operand) : Prop :=
  o ∈ os ∨ (∀ r, o ≠ .reg r) ∧ (∀ symbol, o ≠ .global symbol) ∧ ∀ i n, o ≠ .stringStart i n

def AllKnown (os os' : List Operand) : Prop := ∀ o ∈ os', Known os o

section

variable {os os' : List Operand} {o : Operand}

@[simp low] theorem known_of_constant (register : ∀ r, o ≠ .reg r)
    (function : ∀ symbol, o ≠ .global symbol) (text : ∀ i n, o ≠ .stringStart i n) : Known os o :=
  .inr ⟨register, function, text⟩

@[simp] theorem known_cons {first : Operand} : Known (first :: os) o ↔ o = first ∨ Known os o := by
  simp only [Known, List.mem_cons, or_assoc]

@[simp] theorem known_append : Known (os' ++ os) o ↔ o ∈ os' ∨ Known os o := by
  simp only [Known, List.mem_append, or_assoc]

@[simp] theorem allKnown_nil : AllKnown os [] := List.forall_mem_nil _

@[simp] theorem allKnown_cons : AllKnown os (o :: os') ↔ Known os o ∧ AllKnown os os' :=
  List.forall_mem_cons

theorem AllKnown.later (h : AllKnown os os') (more : List Operand) : AllKnown (more ++ os) os' :=
  fun o member => known_append.mpr (.inr (h o member))

theorem allKnown_call {callee : Operand} {args : List Value}
    {ty : IrType} (h : AllKnown os (callee :: args.map Value.operand)) (dst : Option Register) :
    AllKnown os (Instr.call dst ty callee args).reads := by
  cases callee with
  | global symbol => exact (allKnown_cons.mp h).2
  | _ => exact h

end

namespace Emit

/-! ### The rules of expressions -/

inductive Yields : {α : Type} → Bool → List Operand → Emit α → (α → List Operand) → Prop where
  | weaken {b : Bool} {α : Type} {os os' : List Operand} {x : Emit α} {R : α → List Operand}
      (h : Yields b os x R) (known : AllKnown os' os) : Yields b os' x R
  | bind {b : Bool} {α β : Type} {os : List Operand} {x : Emit α} {k : α → Emit β}
      {R : α → List Operand} {R' : β → List Operand} (first : Yields b os x R)
      (rest : ∀ a, Yields b (R a ++ os) (k a) R') : Yields b os (x >>= k) R'
  | pure {b : Bool} {α : Type} {os : List Operand} {a : α} {R : α → List Operand}
      (known : AllKnown os (R a)) : Yields b os (pure a) R
  | fail {b : Bool} {α : Type} {os : List Operand} {R : α → List Operand} (cause : Cause) :
      Yields b os (fail cause : Emit α) R
  | get {b : Bool} {os : List Operand} : Yields b os (get : Emit Frame) fun _ => []
  | session {b : Bool} {os : List Operand} : Yields b os (getThe Session : Emit Session) fun _ => []
  | ask {b : Bool} {α : Type} {os : List Operand} {x : Gen α} (question : x.Question) :
      Yields b os (liftM x : Emit α) fun _ => []
  | internString {b : Bool} {os : List Operand} (text : String) :
      Yields b os (liftM (Gen.internString text) : Emit Operand) fun o => [o]
  | emit {b : Bool} {os : List Operand} {i : Instr} (plain : i.isPhi = false) (dst : i.dst? = none)
      (known : AllKnown os i.reads) : Yields b os (emit i) fun _ => []
  | emitValue {b : Bool} {os : List Operand} {i : Register → Instr} (ty : IrType)
      (plain : ∀ r, (i r).isPhi = false ∧ (i r).dst? = some r)
      (known : ∀ r, AllKnown os (i r).reads) : Yields b os (emitValue ty i) fun v => [v.operand]
  | alloca {b : Bool} {os : List Operand} (ty : IrType) : Yields b os (alloca ty) fun r => [.reg r]
  | findLocal? {b : Bool} {os : List Operand} (name : String) :
      Yields b os (findLocal? name) fun found => found.toList.map fun l => .reg l.slot
  /-- A variable in a slot of its own, which is filled before the name stands for it. -/
  | bindSlot {os : List Operand} {fill : Register → Emit Unit} {l : Register → Local} (ty : IrType)
      (name : String) (slot : ∀ r, (l r).slot = r)
      (filled : ∀ r, Yields true (.reg r :: os) (fill r) fun _ => []) :
      Yields true os (do let r ← alloca ty; fill r; bindLocal name (l r)) fun _ => []
  | inScope {b b' : Bool} {α : Type} {os : List Operand} {x : Emit α} {R : α → List Operand}
      (h : Yields b os x R) : Yields b' os (inScope x) R
  | and {b : Bool} {lhs rhs : Code} (left : Yields b [] lhs.condition fun o => [o])
      (right : Yields b [] rhs.condition fun o => [o]) :
      Yields b [] (shortCircuit "and" true lhs rhs) fun v => [v.operand]
  | or {b : Bool} {lhs rhs : Code} (left : Yields b [] lhs.condition fun o => [o])
      (right : Yields b [] rhs.condition fun o => [o]) :
      Yields b [] (shortCircuit "or" false lhs rhs) fun v => [v.operand]
  | ternary {b : Bool} {condition thenValue elseValue : Code} (ty : TypeRef)
      (test : Yields b [] condition.condition fun o => [o])
      (onTrue : ∀ target, Yields b [] (thenValue.coerced target) fun v => [v.operand])
      (onFalse : ∀ target, Yields b [] (elseValue.coerced target) fun v => [v.operand]) :
      Yields b [] (ternary condition thenValue elseValue ty) fun v => [v.operand]
  | matchSwitch {b : Bool} {os : List Operand} {layout : EnumLayout} {base : Operand}
      {result : MatchResult} {tag : Value} {arms : List ArmCode} (name : String)
      (known : Known os tag.operand)
      (body : ∀ arm ∈ arms,
        Yields b os (inScope do bindArm layout base arm; arm.body.value) fun v => [v.operand])
      (keep : ∀ arm ∈ arms, ∀ v : Value,
        Yields b (v.operand :: os) (keepResult result v arm.body.ty) fun _ => []) :
      Yields b os (matchSwitch name layout base result tag arms) fun _ => []
  | functionRef {b : Bool} {os : List Operand} (name : String) (typeArgs : List TypeRef) :
      Yields b os (functionRef name typeArgs) fun v => [v.operand]
  | lambda {b : Bool} {os : List Operand} {captures : List Field} (info : ExprInfo)
      (params : List Field) (body : List Stmt)
      (environment : ∀ name types, Yields b [] (makeEnvironment name captures types) fun o => [o]) :
      Yields b os (lambda info params body captures) fun v => [v.operand]

/-! ### The rules of statements -/

inductive Acts : {α : Type} → Bool → List Operand → Emit α → Prop where
  | step {b : Bool} {α : Type} {os : List Operand} {x : Emit α} {R : α → List Operand}
      (h : Yields b os x R) : Acts b os x
  | anywhere {b : Bool} {α : Type} {os : List Operand} {x : Emit α} (h : Acts b [] x) : Acts b os x
  | bind {b : Bool} {α β : Type} {os : List Operand} {x : Emit α} {k : α → Emit β}
      {R : α → List Operand} (first : Yields b os x R) (rest : ∀ a, Acts b (R a ++ os) (k a)) :
      Acts b os (x >>= k)
  | andThen {b : Bool} {α β : Type} {os : List Operand} {x : Emit α} {k : α → Emit β}
      (first : Acts b os x) (rest : ∀ a, Acts b os (k a)) : Acts b os (x >>= k)
  | inScope {b b' : Bool} {α : Type} {os : List Operand} {x : Emit α} (h : Acts b os x) :
      Acts b' os (inScope x)
  | placed {b : Bool} {x : Emit Unit} (location : Location) (h : Acts b [] x) :
      Acts b [] (placed location x)
  | terminate {b : Bool} {os : List Operand} {t : Terminator} (leaves : t.targets = [])
      (known : AllKnown os t.operands) : Acts b os (terminate t)
  | ifElse {b : Bool} {condition : Code} {thenBlock : Emit Unit} {elseBlock : Option (Emit Unit)}
      (test : Yields b [] condition.condition fun o => [o]) (onTrue : Acts b [] thenBlock)
      (onFalse : ∀ x ∈ elseBlock, Acts b [] x) : Acts b [] (ifElse condition thenBlock elseBlock)
  | whileLoop {b : Bool} {condition : Code} {body : Emit Unit}
      (test : Yields b [] condition.condition fun o => [o]) (h : Acts b [] body) :
      Acts b [] (whileLoop condition body)
  | loopJump {b : Bool} (keyword : String) {target : LoopLabels → Label}
      (either : ∀ labels, target labels = labels.leave ∨ target labels = labels.again) :
      Acts b [] (loopJump keyword target)
  | switchOn {b : Bool} {os : List Operand} {v : Value} {cases : List (Int × Emit Unit)}
      {default : Option (Emit Unit)} (known : Known os v.operand)
      (each : ∀ c ∈ cases, Acts b [] c.2) (otherwise : ∀ x ∈ default, Acts b [] x) :
      Acts b os (switchOn v cases default)

/-! ### Rules made of rules -/

variable {b : Bool} {α β : Type} {os : List Operand}

namespace Yields

variable {R : α → List Operand}

theorem anywhere {x : Emit α} (h : Yields b [] x R) : Yields b os x R := h.weaken allKnown_nil

theorem ite {c : Prop} [Decidable c] {x y : Emit α} (yes : Yields b os x R) (no : Yields b os y R) :
    Yields b os (if c then x else y) R := by
  split
  · exact yes
  · exact no

theorem orFail (value : Option α) (cause : Cause) :
    Yields b os (orFail value cause : Emit α) fun _ => [] := by
  cases value with
  | none => exact fail cause
  | some a => exact pure allKnown_nil

theorem discard {x : Emit α} (h : Yields b os x R) : Yields b os (discard x) fun _ => [] :=
  h.bind fun _ => pure allKnown_nil

theorem mapM {x : α → Emit β} {R : β → List Operand} (xs : List α)
    (h : ∀ a ∈ xs, Yields b [] (x a) R) : Yields b os (xs.mapM x) fun bs => bs.flatMap R := by
  induction xs generalizing os with
  | nil => exact pure allKnown_nil
  | cons a rest ih =>
    rw [List.mapM_cons]
    refine (h a List.mem_cons_self).anywhere.bind fun b => ?_
    refine (ih fun a member => h a (List.mem_cons_of_mem _ member)).bind fun bs => pure ?_
    intro o member
    rw [List.flatMap_cons] at member
    rcases List.mem_append.mp member with first | later
    · exact known_append.mpr (.inr (known_append.mpr (.inl first)))
    · exact known_append.mpr (.inl later)

theorem forM {x : α → Emit PUnit} (xs : List α) (h : ∀ a ∈ xs, Yields b os (x a) fun _ => []) :
    Yields b os (xs.forM x) fun _ => [] := by
  induction xs with
  | nil => exact pure allKnown_nil
  | cons a rest ih =>
    exact bind (h a List.mem_cons_self) fun _ =>
      ih fun a member => h a (List.mem_cons_of_mem _ member)

theorem load (ty : IrType) {address : Operand} (known : Known os address) :
    Yields b os (load ty address) fun v => [v.operand] :=
  emitValue ty (fun _ => ⟨rfl, rfl⟩) fun _ => allKnown_cons.mpr ⟨known, allKnown_nil⟩

theorem store {v : Value} {address : Operand} (value : Known os v.operand)
    (known : Known os address) : Yields b os (store v address) fun _ => [] :=
  emit rfl rfl (by simp [Instr.reads, Instr.operands, value, known])

theorem slotAddress (base : IrType) {start : Operand} (slot : Nat) (ty : IrType)
    (known : Known os start) : Yields b os (slotAddress base start slot ty) fun v => [v.operand] :=
  emitValue _ (fun _ => ⟨rfl, rfl⟩) fun _ => by simp [Instr.reads, Instr.operands, known]

theorem insertAt {aggregate elem : Value} (position : Nat) (whole : Known os aggregate.operand)
    (known : Known os elem.operand) :
    Yields b os (insertAt aggregate elem position) fun v => [v.operand] :=
  emitValue _ (fun _ => ⟨rfl, rfl⟩) fun _ => by simp [Instr.reads, Instr.operands, whole, known]

theorem resolve (ty : TypeRef) : Yields b os (resolve ty) fun _ => [] :=
  get.bind fun _ => ask (.resolve _ _)

theorem concrete (ty : TypeRef) : Yields b os (concrete ty) fun _ => [] :=
  get.bind fun _ => ask (.substitute _ _)

theorem declareLocal (name : String) (ty : TypeRef) {value : Value} (known : Known os value.operand) :
    Yields true os (declareLocal name ty value) fun _ => [] :=
  bindSlot value.ty name (fun _ => rfl) fun _ => store (by simp [known]) (by simp)

end Yields

theorem Acts.pure (a : α) : Acts b os (pure a : Emit α) :=
  .step (Yields.pure (R := fun _ => []) allKnown_nil)

theorem Acts.fail (cause : Cause) : Acts b os (fail cause : Emit α) :=
  .step (Yields.fail (R := fun _ => []) cause)

theorem Acts.ite {c : Prop} [Decidable c] {x y : Emit α} (yes : Acts b os x) (no : Acts b os y) :
    Acts b os (if c then x else y) := by
  split
  · exact yes
  · exact no

end Emit

end Backend
