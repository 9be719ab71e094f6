import Backend.Proofs.Lowering.Syntax
import Backend.Proofs.Session.Beside

/-!
Two runs of the lowering beside each other. The lowering reads types only by asking the session,
so if the right session answers as the left one does, the right run does what the left run does. A
`Pairing` says what stands on the right for types, substitutions and sessions; it is lawful if the
answers agree.
-/

namespace Backend

abbrev Frame.retyped (f : Frame) (σ : Substitution) (locals : Table Local) : Frame :=
  { f with subst := σ, locals }

/-! ### Tables with the same names -/

namespace Table

variable {α β : Type} {R : α → β → Prop} {t : Table α} {t' : Table β}

def Related (R : α → β → Prop) (t : Table α) (t' : Table β) : Prop :=
  List.Forall₂ (fun e e' => e'.1 = e.1 ∧ R e.2 e'.2) t.entries t'.entries

theorem Related.find? (h : Related R t t') (key : String) :
    Option.Rel R (t.find? key) (t'.find? key) := by
  unfold Related at h
  unfold Table.find?
  generalize t.entries = es, t'.entries = es' at h ⊢
  induction h with
  | nil => exact .none
  | cons head _ ih =>
    rw [lookup, lookup, head.1]
    split
    · exact .some head.2
    · exact ih

theorem Related.insert (h : Related R t t') (key : String) {v : α} {v' : β} (value : R v v') :
    Related R (t.insert key v) (t'.insert key v') := by
  unfold Related at h ⊢
  unfold Table.insert
  generalize t.entries = es, t'.entries = es' at h ⊢
  induction h with
  | nil => exact .cons ⟨rfl, value⟩ .nil
  | cons head tail ih =>
    simp only [insertEntry, head.1]
    split
    · exact .cons ⟨rfl, value⟩ tail
    · exact .cons head ih

end Table

def TypeRef.isFunction : TypeRef → Bool
  | .function .. => true
  | _ => false

structure Pairing extends Beside where
  left : Substitution
  right : Substitution
  /-- The type on the right for a type of the body on the left. -/
  image : TypeRef → TypeRef
  /-- Types that may occur in a body. -/
  allows : TypeRef → Bool
  /-- Names that may be called. -/
  calls : String → Bool
  /-- What may be found as a method of an owner on both sides. -/
  method : String → FunctionDecl → FunctionDecl → Prop
  /-- The function that is emitted. -/
  symbol : String

namespace Pairing

variable {α β γ δ : Type}

def Reads (p : Pairing) (ty : IrType) (t t' : TypeRef) : Prop :=
  p.OnSession (fun a a' => ty.isNumber = true → a'.isUnsigned = a.isUnsigned)
    (Gen.substitute p.left t) (Gen.substitute p.right t')

structure Locals (p : Pairing) (l l' : Local) : Prop where
  slot : l'.slot = l.slot
  ir : l'.ir = l.ir
  reads : p.Reads l.ir l.ty l'.ty

/-- Frames that differ in their substitutions and in the types of their locals. -/
structure Frames (p : Pairing) (f f' : Frame) : Prop where
  subst : f.subst = p.left
  symbol : f.symbol = p.symbol
  same : f' = f.retyped p.right f'.locals
  locals : Table.Related p.Locals f.locals f'.locals

def OnBody (p : Pairing) (V : α → β → Prop) (x : Emit α) (y : Emit β) : Prop :=
  ∀ ⦃f f'⦄, p.Frames f f' →
    p.OnSession (fun r r' => V r.1 r'.1 ∧ p.Frames r.2 r'.2) (x f) (y f')

variable {p : Pairing} {V : α → β → Prop} {W : γ → δ → Prop}

/-! ### Steps inside a body -/

namespace OnBody

theorem bind {x : Emit α} {y : Emit β} {k : α → Emit γ} {k' : β → Emit δ} (first : p.OnBody V x y)
    (rest : ∀ a a', V a a' → p.OnBody W (k a) (k' a')) : p.OnBody W (x >>= k) (y >>= k') :=
  fun _ _ frames => (first frames).bind fun r r' ⟨related, frames⟩ => rest r.1 r'.1 related frames

theorem andThen {x y : Emit α} {k : α → Emit γ} {k' : α → Emit δ} (first : p.OnBody Eq x y)
    (rest : ∀ a, p.OnBody W (k a) (k' a)) : p.OnBody W (x >>= k) (y >>= k') :=
  first.bind fun a _ same => same ▸ rest a

theorem pure {a : α} {a' : β} (h : V a a') : p.OnBody V (pure a) (pure a') :=
  fun _ _ frames => Beside.OnSession.pure ⟨h, frames⟩

theorem fail {cause cause' : Cause} : p.OnBody V (fail cause : Emit α) (fail cause' : Emit β) :=
  fun _ _ _ => Beside.OnSession.fail

theorem orFail {value : Option α} {value' : Option β} {cause cause' : Cause}
    (h : Option.Rel V value value') :
    p.OnBody V (orFail value cause : Emit α) (orFail value' cause' : Emit β) := by
  cases h with
  | none => exact fail
  | some related => exact pure related

theorem orFail_same {value : Option α} {cause cause' : Cause} :
    p.OnBody Eq (Backend.orFail value cause : Emit α) (Backend.orFail value cause') := by
  cases value with
  | none => exact fail
  | some a => exact pure rfl

theorem lift {x : Gen α} {y : Gen β} (h : p.OnSession V x y) :
    p.OnBody V (liftM x : Emit α) (liftM y : Emit β) :=
  fun _ _ frames => h.bind fun _ _ related => Beside.OnSession.pure ⟨related, frames⟩

theorem reading {k : Frame → Emit γ} {k' : Frame → Emit δ}
    (h : ∀ f locals, p.Frames f (f.retyped p.right locals) →
      p.OnBody W (k f) (k' (f.retyped p.right locals))) :
    p.OnBody W (get >>= k) (get >>= k') := by
  intro f f' frames
  have same := frames.same
  rw [same] at frames ⊢
  exact h f f'.locals frames frames

theorem readingSession {k : Session → Emit γ} {k' : Session → Emit δ}
    (h : ∀ s s', p.sessions s s' → p.OnBody W (k s) (k' s')) :
    p.OnBody W (getThe Session >>= k) (getThe Session >>= k') :=
  fun _ _ frames s s' paired => h s s' paired frames paired

theorem ofFrame {x : Emit α} {value : Frame → α} {g : Frame → Frame}
    (run : ∀ f s, x f s = .ok (value f, g f) s)
    (same : ∀ f σ locals, g (f.retyped σ locals) = (g f).retyped σ locals)
    (result : ∀ f σ locals, value (f.retyped σ locals) = value f)
    (symbol : ∀ f, (g f).symbol = f.symbol) : p.OnBody Eq x x := by
  intro f f' frames s s' paired
  have kept : g f = (g f).retyped f.subst f.locals := same f f.subst f.locals
  have moved : g f' = (g f).retyped p.right f'.locals := by
    rw [frames.same]
    exact same f p.right f'.locals
  rw [run, run]
  refine .done ⟨?_, ?_⟩ paired
  · rw [frames.same]
    exact (result f p.right f'.locals).symm
  · exact {
      subst := (congrArg Frame.subst kept).trans frames.subst
      symbol := (symbol f).trans frames.symbol
      same := by rw [moved]
      locals := by
        rw [kept, moved]
        exact frames.locals }

theorem modify {g : Frame → Frame}
    (same : ∀ f σ locals, g (f.retyped σ locals) = (g f).retyped σ locals)
    (symbol : ∀ f, (g f).symbol = f.symbol) :
    p.OnBody Eq (modify g : Emit Unit) (modify g) :=
  ofFrame (fun _ _ => rfl) same (fun _ _ _ => rfl) symbol

theorem ite {c : Prop} [Decidable c] {x y : Emit α} {x' y' : Emit β} (yes : p.OnBody V x x')
    (no : p.OnBody V y y') : p.OnBody V (if c then x else y) (if c then x' else y') := by
  split
  · exact yes
  · exact no

theorem discard {x : Emit α} {y : Emit β} (h : p.OnBody V x y) :
    p.OnBody Eq (discard x) (discard y) :=
  h.bind fun _ _ _ => pure rfl

theorem mapM {x : α → Emit γ} {y : β → Emit δ} {xs : List α} {ys : List β}
    (h : List.Forall₂ (fun a a' => p.OnBody W (x a) (y a')) xs ys) :
    p.OnBody (List.Forall₂ W) (xs.mapM x) (ys.mapM y) := by
  induction h with
  | nil => exact pure .nil
  | cons head _ ih =>
    rw [List.mapM_cons, List.mapM_cons]
    exact head.bind fun _ _ first => ih.bind fun _ _ rest => pure (.cons first rest)

theorem mapM_same {x : α → Emit γ} {y : β → Emit γ} {xs : List α} {ys : List β}
    (h : List.Forall₂ (fun a a' => p.OnBody Eq (x a) (y a')) xs ys) :
    p.OnBody Eq (xs.mapM x) (ys.mapM y) := by
  intro f f' frames
  refine (mapM h frames).imp fun r r' ⟨same, frames⟩ => ⟨?_, frames⟩
  rwa [List.forall₂_eq_eq_eq] at same

theorem forM {x : α → Emit PUnit} {y : β → Emit PUnit} {xs : List α} {ys : List β}
    (h : List.Forall₂ (fun a a' => p.OnBody Eq (x a) (y a')) xs ys) :
    p.OnBody Eq (xs.forM x) (ys.forM y) := by
  induction h with
  | nil => exact pure rfl
  | cons head _ ih => exact head.andThen fun _ => ih

end OnBody

/-! ### Steps that say nothing about types -/

abbrev Same (p : Pairing) (x : Emit α) : Prop := p.OnBody Eq x x

theorem freshReg_same : p.Same Emit.freshReg :=
  .ofFrame (fun _ _ => rfl) (fun _ _ _ => rfl) (fun _ _ _ => rfl) fun _ => rfl

theorem freshLabel_same (stem : String) : p.Same (Emit.freshLabel stem) :=
  .ofFrame (fun _ _ => rfl) (fun _ _ _ => rfl) (fun _ _ _ => rfl) fun _ => rfl

theorem pushLine_same (line : Line) : p.Same (Emit.pushLine line) :=
  .modify (fun _ _ _ => rfl) fun _ => rfl

theorem enter_same (label : Label) : p.Same (Emit.enter label) :=
  .modify (fun _ _ _ => rfl) fun _ => rfl

theorem reopen_same : p.Same Emit.reopen :=
  .reading fun _ _ _ => .ite ((freshLabel_same _).andThen fun _ => enter_same _) (.pure rfl)

theorem emit_same (i : Instr) : p.Same (Emit.emit i) :=
  reopen_same.andThen fun _ => .reading fun _ _ _ => pushLine_same _

theorem emitValue_same (ty : IrType) (i : Register → Instr) : p.Same (Emit.emitValue ty i) :=
  freshReg_same.andThen fun _ => (emit_same _).andThen fun _ => .pure rfl

theorem terminate_same (t : Terminator) : p.Same (Emit.terminate t) :=
  reopen_same.andThen fun _ => .reading fun _ _ _ => (pushLine_same _).andThen fun _ =>
    .modify (fun _ _ _ => rfl) fun _ => rfl

theorem startBlock_same (label : Label) : p.Same (Emit.startBlock label) :=
  .reading fun _ _ _ => .ite (enter_same _) ((pushLine_same _).andThen fun _ => enter_same _)

theorem jumpTo_same (label : Label) : p.Same (Emit.jumpTo label) :=
  .reading fun _ _ _ => .ite (.pure rfl) (terminate_same _)

theorem alloca_same (ty : IrType) : p.Same (Emit.alloca ty) :=
  freshReg_same.andThen fun _ => OnBody.andThen (.modify (fun _ _ _ => rfl) fun _ => rfl) fun _ =>
    .pure rfl

theorem load_same (ty : IrType) (address : Operand) : p.Same (Emit.load ty address) :=
  emitValue_same _ _

theorem load_typed (ty : IrType) (address : Operand) :
    p.OnBody (fun v v' => v' = v ∧ v.ty = ty) (Emit.load ty address) (Emit.load ty address) :=
  freshReg_same.andThen fun _ => (emit_same _).andThen fun _ => .pure ⟨rfl, rfl⟩

theorem store_same (v : Value) (address : Operand) : p.Same (Emit.store v address) := emit_same _

theorem slotAddress_same (base : IrType) (start : Operand) (slot : Nat) (ty : IrType) :
    p.Same (Emit.slotAddress base start slot ty) := emitValue_same _ _

theorem insertAt_same (aggregate elem : Value) (position : Nat) :
    p.Same (Emit.insertAt aggregate elem position) := emitValue_same _ _

theorem locating_pairs {x : Emit α} {y : Emit β} (l : Location) (h : p.OnBody V x y) :
    p.OnBody V (Emit.locating l x) (Emit.locating l y) :=
  fun _ _ frames => (h frames).locating l

/-! ### Local variables -/

theorem findLocal?_pairs (name : String) :
    p.OnBody (Option.Rel p.Locals) (Emit.findLocal? name) (Emit.findLocal? name) :=
  .reading fun _ _ frames => .pure (frames.locals.find? name)

theorem Frames.withLocals {f f' : Frame} (frames : p.Frames f f') {locals locals' : Table Local}
    (h : Table.Related p.Locals locals locals') :
    p.Frames { f with locals } { f' with locals := locals' } where
  subst := frames.subst
  symbol := frames.symbol
  same := by
    have same := frames.same
    rw [same]
  locals := h

theorem modify_pairs {g g' : Frame → Frame} (h : ∀ f f', p.Frames f f' → p.Frames (g f) (g' f')) :
    p.OnBody Eq (modify g : Emit Unit) (modify g') :=
  fun f f' frames _ _ paired => .done ⟨rfl, h f f' frames⟩ paired

theorem bindLocal_pairs (name : String) {l l' : Local} (h : p.Locals l l') :
    p.OnBody Eq (Emit.bindLocal name l) (Emit.bindLocal name l') :=
  modify_pairs fun _ _ frames => frames.withLocals (frames.locals.insert name h)

theorem declareLocal_pairs (name : String) {ty ty' : TypeRef} {value : Value}
    (h : p.Reads value.ty ty ty') :
    p.OnBody Eq (Emit.declareLocal name ty value) (Emit.declareLocal name ty' value) :=
  (alloca_same _).andThen fun _ => (store_same _ _).andThen fun _ =>
    bindLocal_pairs name ⟨rfl, rfl, h⟩

theorem inScope_pairs {x y : Emit α} (h : p.OnBody Eq x y) :
    p.OnBody Eq (Emit.inScope x) (Emit.inScope y) :=
  .reading fun _ _ saved => h.andThen fun _ =>
    (modify_pairs fun _ _ frames => frames.withLocals saved.locals).andThen fun _ => .pure rfl

/-! ### Laws -/

/-- What two source types are once their parameters are replaced. -/
inductive Concrete (p : Pairing) : TypeRef → TypeRef → Prop
  | function {params params' ret variadic} (allowed : p.allows ret = true) :
      Concrete p (.function params ret variadic) (.function params' (p.image ret) variadic)
  | other {t t'} (left : t.isFunction = false) (right : t'.isFunction = false)
      (sign : t'.isUnsigned = t.isUnsigned) : Concrete p t t'

/-- Variants that differ in the source types of their payloads. -/
structure Variants (p : Pairing) (v v' : VariantLayout) : Prop where
  tag : v'.tag = v.tag
  payload : v'.payload = v.payload
  reads : List.Forall₂ (fun field field' => field'.1 = field.1 ∧ p.Reads field.1 field.2 field'.2)
    (v.payload.zip v.sources) (v'.payload.zip v'.sources)

structure Enums (p : Pairing) (l l' : EnumLayout) : Prop where
  name : l'.name = l.name
  dataSize : l'.dataSize = l.dataSize
  variants : Table.Related p.Variants l.variants l'.variants

/-- An external function that may be called. -/
structure Externs (p : Pairing) (e e' : ExternDecl) : Prop where
  name : e'.name = e.name
  variadic : e'.variadic = e.variadic
  signature : p.Answers (Gen.resolveSignature (e.params.map Field.ty) e.returnType p.left)
    (Gen.resolveSignature (e'.params.map Field.ty) e'.returnType p.right)

/-- What decides how a method is called. -/
structure Methods (m m' : FunctionDecl) : Prop where
  name : m'.name = m.name
  isStatic : m'.isStatic = m.isStatic
  isVirtual : m'.isVirtual = m.isVirtual

/-- What a body asks for without naming a type of its own. -/
structure Questions (b : Beside) (method : String → FunctionDecl → FunctionDecl → Prop) : Prop where
  enums : ∀ {s s'}, b.sessions s s' → ∀ name,
    s'.decls.enums.contains name = s.decls.enums.contains name
  functions : ∀ {s s'}, b.sessions s s' → ∀ name,
    s'.decls.functions.contains name = s.decls.functions.contains name
  structLayout : ∀ name, b.Answers (Gen.structLayout name) (Gen.structLayout name)
  extent : ∀ ty, b.Answers (Gen.extent ty) (Gen.extent ty)
  dispatchLayout : ∀ name, b.Answers (Gen.dispatchLayout name) (Gen.dispatchLayout name)
  lookupMethod : ∀ owner name,
    b.OnSession (fun m m' => m'.1 = m.1 ∧ method m.1 m.2 m'.2) (Gen.lookupMethod owner name)
      (Gen.lookupMethod owner name)
  methods : ∀ {owner m m'}, method owner m m' → Methods m m'
  methodType : ∀ {owner m m'}, method owner m m' →
    b.Answers (Gen.methodType owner m {}) (Gen.methodType owner m' {})
  methodSignature : ∀ {owner m m'}, method owner m m' →
    b.Answers (Gen.resolveSignature m.paramTypes m.returnType {})
      (Gen.resolveSignature m'.paramTypes m'.returnType {})
  internString : ∀ text, b.Answers (Gen.internString text) (Gen.internString text)
  describeFunction : ∀ name ret location,
    b.Answers (Gen.describeFunction name ret location) (Gen.describeFunction name ret location)
  describeLocation : ∀ location scope,
    b.Answers (Gen.describeLocation location scope) (Gen.describeLocation location scope)
  freshLambda : b.Answers Gen.freshLambda Gen.freshLambda
  defineEnvironment : ∀ name types,
    b.Answers (Gen.modifyOutput fun o => o.addTypeDef (.struct name types))
      (Gen.modifyOutput fun o => o.addTypeDef (.struct name types))

/-- Whatever a body asks the session for, it is told the same on both sides. -/
structure Lawful (p : Pairing) : Prop extends Questions p.toBeside p.method where
  externs : ∀ {s s'}, p.sessions s s' → ∀ {name}, p.calls name = true →
    Option.Rel p.Externs (s.decls.externs.find? name) (s'.decls.externs.find? name)
  resolve : ∀ {t}, p.allows t = true →
    p.Answers (Gen.resolve t p.left) (Gen.resolve (p.image t) p.right)
  substitute : ∀ {t}, p.allows t = true →
    p.OnSession p.Concrete (Gen.substitute p.left t) (Gen.substitute p.right (p.image t))
  receiver : ∀ owner ty,
    p.Reads (.ptr ty) (.pointerTo (.ofName owner) 1) (.pointerTo (.ofName owner) 1)
  enumLayout : ∀ name, p.OnSession p.Enums (Gen.enumLayout name) (Gen.enumLayout name)
  functionTarget : ∀ name {typeArgs}, typeArgs.all p.allows = true →
    p.Answers (Gen.functionTarget name typeArgs p.left)
      (Gen.functionTarget name (typeArgs.map p.image) p.right)
  methodTarget : ∀ {owner m m' typeArgs}, p.method owner m m' → typeArgs.all p.allows = true →
    p.Answers (Gen.methodTarget owner m typeArgs p.left)
      (Gen.methodTarget owner m' (typeArgs.map p.image) p.right)
  queueLambda : ∀ (id : Nat) {l : LiftedLambda}, l.all p.allows p.calls = true →
    p.OnBody Eq (Emit.queueLambda (p.symbol ++ s!"_lambda_{id}") l)
      (Emit.queueLambda (p.symbol ++ s!"_lambda_{id}") (l.mapTypes p.image))

def AddsFunction (p : Pairing) : Prop :=
  ∀ f : FunctionDef,
    p.Answers
      (modify fun s =>
        { s with output := s.output.addFunction f, emitted := p.symbol :: s.emitted })
      (modify fun s =>
        { s with output := s.output.addFunction f, emitted := p.symbol :: s.emitted })

theorem Concrete.isUnsigned {t t' : TypeRef} (h : p.Concrete t t') :
    t'.isUnsigned = t.isUnsigned := by
  cases h with
  | function allowed => rfl
  | other left right sign => exact sign

end Pairing

end Backend
