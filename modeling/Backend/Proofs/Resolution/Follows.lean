import Backend.Proofs.Retyping.Normal

/-!
Steps that can be taken again with fewer resolutions under way. The depth of resolution only bounds
a step and the queue of bodies is only written, so a step that succeeds also does so from a session
with less depth and another queue (`Gen.Follows`). Where the two runs are of different steps, they
differ in how deep they nest. Where they are of one step with two resolvers, they are the two sides
of a walk on which every type stays as it is (`Gen.Follows.of_pairs`).
-/

namespace Backend

/-! ### Normal declarations -/

def FunctionDecl.signatureNormal (f : FunctionDecl) : Bool :=
  TypeRef.allNormal f.paramTypes && f.returnType.isNormal

def StructDecl.isNormal (d : StructDecl) : Bool :=
  d.parent.all TypeRef.isNormal && TypeRef.allNormal (d.fields.map Field.ty) &&
    d.methods.all FunctionDecl.signatureNormal

def EnumDecl.isNormal (d : EnumDecl) : Bool :=
  d.variants.all (fun v => TypeRef.allNormal v.payloadTypes) &&
    d.methods.all FunctionDecl.signatureNormal

def ExternDecl.types (e : ExternDecl) : List TypeRef := e.returnType :: e.params.map Field.ty

/-- The types of parents, fields, payloads, parameters and results are normal, and so are the targets
of aliases. Of the types in bodies nothing is said. -/
structure Declarations.Normal (d : Declarations) : Prop where
  structs : ∀ decl ∈ d.structs.values, decl.isNormal = true
  enums : ∀ decl ∈ d.enums.values, decl.isNormal = true
  functions : ∀ decl ∈ d.functions.values, decl.signatureNormal = true
  externs : ∀ decl ∈ d.externs.values, TypeRef.allNormal decl.types = true
  aliases : ∀ decl ∈ d.aliases.values, decl.target.isNormal = true

/-! ### Sessions with the same types -/

theorem FunctionDecl.retype_id : FunctionDecl.retype id = id := funext fun f => by
  rw [retype, mapStmts_id, Field.mapType_id, List.map_id]
  rfl

theorem StructDecl.retype_id : StructDecl.retype id = id := funext fun d => by
  rw [retype, Field.mapType_id, FunctionDecl.retype_id, List.map_id, List.map_id, Option.map_id]
  rfl

theorem Variant.retype_id : Variant.retype id = id := funext fun v => by
  have payloads : Payload.retype id = id := funext fun p => by
    cases p <;> simp only [Payload.retype, Field.mapType_id, List.map_id, id_eq]
  rw [retype, payloads, Option.map_id]
  rfl

theorem EnumDecl.retype_id : EnumDecl.retype id = id := funext fun d => by
  rw [retype, Variant.retype_id, FunctionDecl.retype_id, List.map_id, List.map_id]
  rfl

theorem ExternDecl.retype_id : ExternDecl.retype id = id := funext fun e => by
  rw [retype, Field.mapType_id, List.map_id]
  rfl

theorem EnumLayout.retype_id : EnumLayout.retype id = id := funext fun l => by
  have variants : VariantLayout.retype id = id := funext fun v => by
    rw [VariantLayout.retype, List.map_id]
    rfl
  rw [retype, variants, Table.map_id]
  rfl

theorem InstanceRecord.retype_id : InstanceRecord.retype id = id := funext fun r => by
  rw [retype, List.map_id]
  rfl

def Session.moved (s : Session) (depth : Nat) (queue : PendingQueue) : Session :=
  { s with resolveDepth := depth, pending := queue }

theorem Session.retype_id (s : Session) (depth : Nat) (queue : PendingQueue) :
    s.retype id depth queue = s.moved depth queue := by
  have owners : Substitution.retype id = id := funext normalTypes.retype_id
  have same : s.decls.retype id = s.decls := by
    rw [Declarations.retype, StructDecl.retype_id, EnumDecl.retype_id, FunctionDecl.retype_id,
      ExternDecl.retype_id, normalTypes.aliases_retype_id]
    simp only [Table.map_id]
  rw [retype, same, Layouts.retype, EnumLayout.retype_id, InstanceRecord.retype_id, owners]
  simp only [Table.map_id]
  rfl

def BodySource.isDeclared : BodySource → Bool
  | .lambda _ => false
  | _ => true

theorem Pending.retype_id {p : Pending} (declared : p.source.isDeclared = true) :
    p.retype id = p := by
  obtain ⟨symbol, source, σ⟩ := p
  rw [retype, normalTypes.retype_id]
  cases source with
  | lambda l => cases declared
  | _ => rfl

/-! ### Sessions in which a substitution can be carried out beforehand -/

/-- A payload's type is normal, and if its source is a parameter the payload is no number, so that
its sign does not matter. This concerns only sessions in which bodies are emitted (`B`). -/
def Settled (B : Prop) (σ : Substitution) (source : TypeRef) (ty : IrType) : Prop :=
  B → source.isNormal = true ∧
    ∀ name hint, source = .named name [] hint → σ.find? name ≠ none → ty.isNumber = false

/-- Types stay as they are, and what is asked for is so on both sides. -/
abbrev shallower (B : Prop) (σ : Substitution) (D : Declarations) (left right : Nat)
    (queues : PendingQueue → PendingQueue → Prop) : Walk where
  toRetyping := {
    normalTypes D.aliases with
    payload := Settled B σ
    depths := fun l r => l = left ∧ r = right
    limit := fun _ => True
    limit_retold := fun _ _ => trivial }
  emits := false
  bodies := B
  externs := (· = D.externs)
  queues

structure Session.Steady (B : Prop) (σ : Substitution) (s : Session) : Prop where
  /-- All types are normal. No collector listens, since what it is told depends on failures, and so
  on the depth. -/
  holds : (shallower B σ s.decls 0 0 Eq).Holds s
  undeclared : B → ∀ name, σ.find? name ≠ none → s.decls.aliases.find? name = none
  targets : ∀ a ∈ s.decls.aliases.values, ∀ name ∈ a.target.simpleNames,
    name ∈ a.typeParams ∨ σ.find? name = none

/-- The session after a step that asks for `asked`. -/
structure Session.Goes (B : Prop) (σ : Substitution) (s s' : Session) (asked : List Pending) :
    Prop where
  steady : s'.Steady B σ
  depth : s'.resolveDepth = s.resolveDepth
  externs : s'.decls.externs = s.decls.externs
  aliases : s'.decls.aliases = s.decls.aliases
  queue : s'.pending = s.pending ++ asked
  declared : ∀ p ∈ asked, p.source.isDeclared = true

section

variable {B : Prop} {σ : Substitution} {s s₁ s₂ : Session} {D D' : Declarations}
  {left left' right right' : Nat} {queues queues' : PendingQueue → PendingQueue → Prop}

theorem Walk.Holds.between (h : (shallower B σ D left right queues).Holds s)
    (aliases : s.decls.aliases = D'.aliases) (externs : s.decls.externs = D'.externs) :
    (shallower B σ D' left' right' queues').Holds s :=
  { h with decls := { h.decls with external := externs }, aliases }

theorem Walk.Sessions.moved (h : (shallower B σ D left right queues).Sessions s s₁) :
    s₁ = s.moved right s₁.pending := by
  have same : s₁ = s.retype id s₁.resolveDepth s₁.pending := h.same
  rw [Session.retype_id, h.depth.2] at same
  exact same

theorem shallower_admits {τ : Substitution} :
    (shallower B σ D left right queues).Admits τ ↔ τ.Normal :=
  @normalTypes.admits_iff D.aliases τ

/-- Bodies that are asked for on both sides can be added. -/
def Growing (queues : PendingQueue → PendingQueue → Prop) : Prop :=
  ∀ q q' p, queues q q' → p.source.isDeclared = true → queues (q ++ [p]) (q' ++ [p])

theorem Growing.append (grows : Growing queues) {q q' : PendingQueue} (h : queues q q')
    {asked : List Pending} (declared : ∀ p ∈ asked, p.source.isDeclared = true) :
    queues (q ++ asked) (q' ++ asked) := by
  induction asked generalizing q q' with
  | nil => rwa [List.append_nil, List.append_nil]
  | cons p rest ih =>
    rw [List.forall_mem_cons] at declared
    rw [List.append_cons, List.append_cons q']
    exact ih (grows _ _ _ h declared.1) declared.2

theorem shallower_lawful (grows : Growing queues) : (shallower B σ D left right queues).Lawful :=
  { @normalTypes.lawful D.aliases with
    fits := fun _ => .of_eq rfl
    receiver := fun {τ owner} _ => .of_eq (by
      change ((τ.retype id).apply _).fits = _
      rw [normalTypes.retype_id])
    push := fun {q q' p} paired waits => by
      have declared : p.source.isDeclared = true := by
        cases source : p.source with
        | lambda l => cases (waits.2 l source).1
        | _ => rfl
      change queues (q ++ [p]) (q' ++ [p.retype id])
      rw [Pending.retype_id declared]
      exact grows _ _ _ paired declared
    caught := .inl trivial }

theorem shallower_structural : (shallower B σ D left right queues).Structural :=
  { @normalTypes.structural D.aliases with }

theorem all_param (names : List String) : (names.all fun _ => true) = true :=
  List.all_eq_true.mpr fun _ _ => rfl

theorem allTypes_isNormal (fields : List Field) :
    Field.allTypes TypeRef.isNormal fields = TypeRef.allNormal (fields.map Field.ty) := by
  rw [TypeRef.allNormal_eq_all, List.all_map]
  rfl

theorem shallower_function {f : FunctionDecl} :
    (shallower B σ D left right queues).function f = f.signatureNormal := by
  simp only [normalTypes, Walk.function, Retyping.signature, FunctionDecl.signatureNormal,
    FunctionDecl.paramTypes, allTypes_isNormal, all_param, Bool.not_false, Bool.true_or,
    Bool.true_and, Bool.and_true]

theorem shallower_struct {d : StructDecl} :
    (shallower B σ D left right queues).struct d = d.isNormal := by
  simp only [normalTypes, Walk.struct, StructDecl.isNormal, allTypes_isNormal, all_param,
    Bool.true_and, funext fun f => @shallower_function B σ D left right queues f]

theorem shallower_enum {d : EnumDecl} :
    (shallower B σ D left right queues).enum d = d.isNormal := by
  simp only [normalTypes, Walk.enum, EnumDecl.isNormal, all_param, Bool.true_and,
    TypeRef.allNormal_eq_all, funext fun f => @shallower_function B σ D left right queues f]

theorem Declarations.Normal.declares (normal : D.Normal) :
    (shallower B σ D left right queues).Declares D := by
  refine ⟨fun d member => shallower_struct.trans (normal.structs d member),
    fun d member => shallower_enum.trans (normal.enums d member),
    fun f member => shallower_function.trans (normal.functions f member), fun e member => ?_,
    fun a member => ?_, fun _ _ => rfl, fun _ _ => rfl, rfl⟩
  · have all := normal.externs e member
    simp only [ExternDecl.types, TypeRef.allNormal, Bool.and_eq_true] at all
    simp only [normalTypes, Retyping.external, allTypes_isNormal, Bool.and_eq_true]
    exact ⟨all.2, all.1⟩
  · simp only [normalTypes, Retyping.typeAlias, all_param, Bool.true_and]
    exact normal.aliases a member

namespace Session

theorem Steady.of_holds (steady : s.Steady B σ)
    (h : (shallower B σ s.decls left right queues).Holds s₁) : s₁.Steady B σ where
  holds := h.between rfl rfl
  undeclared := by rw [h.aliases]; exact steady.undeclared
  targets := by rw [h.aliases]; exact steady.targets

theorem Goes.rfl (steady : s.Steady B σ) : s.Goes B σ s [] where
  steady
  depth := Eq.refl _
  externs := Eq.refl _
  aliases := Eq.refl _
  queue := (List.append_nil _).symm
  declared := fun _ member => nomatch member

theorem Goes.trans {first second : List Pending} (h₁ : s.Goes B σ s₁ first)
    (h₂ : s₁.Goes B σ s₂ second) : s.Goes B σ s₂ (first ++ second) where
  steady := h₂.steady
  depth := h₂.depth.trans h₁.depth
  externs := h₂.externs.trans h₁.externs
  aliases := h₂.aliases.trans h₁.aliases
  queue := by rw [h₂.queue, h₁.queue, List.append_assoc]
  declared := by
    intro p member
    rcases List.mem_append.mp member with member | member
    · exact h₁.declared p member
    · exact h₂.declared p member

theorem Goes.moved {asked : List Pending} (h : s.Goes B σ s₁ asked) :
    s₁.moved s.resolveDepth (s.pending ++ asked) = s₁ := by
  rw [← h.queue, ← h.depth]
  rfl

end Session

end

namespace Gen

variable {α β : Type} {σ : Substitution}

/-- Whatever `x` gives, `y` gives with at most the same depth and from any queue. -/
def Follows (B : Prop) (σ : Substitution) (post : α → Prop) (x y : Gen α) : Prop :=
  ∀ ⦃s a s'⦄, x s = .ok a s' → s.Steady B σ →
    post a ∧ ∃ asked, s.Goes B σ s' asked ∧
      ∀ depth ≤ s.resolveDepth, ∀ queue,
        y (s.moved depth queue) = .ok a (s'.moved depth (queue ++ asked))

abbrev Agrees (B : Prop) (σ : Substitution) (x y : Gen α) : Prop :=
  Follows B σ (fun _ => True) x y

namespace Follows

variable {B : Prop} {P : α → Prop} {Q : β → Prop} {s : Session} {depth : Nat}

theorem bind {x y : Gen α} {k k' : α → Gen β} (first : Follows B σ P x y)
    (rest : ∀ a, P a → Follows B σ Q (k a) (k' a)) : Follows B σ Q (x >>= k) (y >>= k') := by
  intro s b s' run steady
  obtain ⟨a, s₁, ran, later⟩ := bind_ok run
  obtain ⟨holds, asked, goes, again⟩ := first ran steady
  obtain ⟨result, more, goesOn, after⟩ := rest a holds later goes.steady
  refine ⟨result, asked ++ more, goes.trans goesOn, fun depth le queue => ?_⟩
  rw [bind_of_ok (again depth le queue), after depth (by rw [goes.depth]; exact le),
    List.append_assoc]

theorem pure {a : α} (h : P a) : Follows B σ P (pure a) (pure a) := by
  intro s b s' run steady
  obtain ⟨rfl, rfl⟩ := pure_ok run
  refine ⟨h, [], .rfl steady, fun depth le queue => ?_⟩
  rw [List.append_nil]
  rfl

theorem throw {h : Halt} {y : Gen α} : Follows B σ P (throw h) y := fun _ _ _ run => nomatch run

theorem fail {cause : Cause} {y : Gen α} : Follows B σ P (fail cause) y := throw

theorem weaken {P' : α → Prop} {x y : Gen α} (h : Follows B σ P x y) (sub : ∀ a, P a → P' a) :
    Follows B σ P' x y :=
  fun _ _ _ run steady => (h run steady).imp_left (sub _)

theorem trans {x y z : Gen α} (first : Follows B σ P x y) (second : Agrees B σ y z) :
    Follows B σ P x z := by
  intro s a s' run steady
  obtain ⟨holds, asked, goes, again⟩ := first run steady
  have middle := again s.resolveDepth (Nat.le_refl _) s.pending
  rw [goes.moved] at middle
  exact ⟨holds, (second middle steady).2⟩

theorem orFail {value : Option α} {cause : Cause} (h : ∀ a, value = some a → P a) :
    Follows B σ P (orFail value cause) (orFail value cause) := by
  cases value with
  | none => exact fail
  | some a => exact pure (h a rfl)

theorem ite {p : Prop} [Decidable p] {x y x' y' : Gen α} (yes : p → Follows B σ P x x')
    (no : ¬p → Follows B σ P y y') : Follows B σ P (if p then x else y) (if p then x' else y') := by
  split
  case isTrue h => exact yes h
  case isFalse h => exact no h

theorem reads {k k' : Session → Gen α} (same : ∀ s depth queue, k' (s.moved depth queue) = k' s)
    (rest : ∀ s, s.Steady B σ → Follows B σ P (k s) (k' s)) :
    Follows B σ P (get >>= k) (get >>= k') := by
  intro s a s' run steady
  obtain ⟨now, s₁, got, later⟩ := bind_ok run
  cases got
  obtain ⟨result, asked, goes, again⟩ := rest s steady later steady
  refine ⟨result, asked, goes, fun depth le queue => ?_⟩
  rw [bind_of_ok (x := get) rfl, same]
  exact again depth le queue

theorem mapM {R : α → β → Prop} {x y : α → Gen β} (xs : List α)
    (h : ∀ a ∈ xs, Follows B σ (R a) (x a) (y a)) :
    Follows B σ (List.Forall₂ R xs) (xs.mapM x) (xs.mapM y) := by
  induction xs with
  | nil => exact pure .nil
  | cons a rest ih =>
    rw [List.mapM_cons, List.mapM_cons]
    refine (h a List.mem_cons_self).bind fun b head => ?_
    exact (ih fun a member => h a (List.mem_cons_of_mem _ member)).bind fun bs tail =>
      pure (.cons head tail)

/-! ### The two sides of a walk -/

/-- The walk from a session to the same one with less depth. -/
abbrev walk (B : Prop) (σ : Substitution) (s : Session) (depth : Nat)
    (queues : PendingQueue → PendingQueue → Prop) : Walk :=
  shallower B σ s.decls s.resolveDepth depth queues

/-- What was asked for since the queues were `base` and `base'` is the same. -/
def Appended (base base' q q' : PendingQueue) : Prop :=
  ∃ asked : List Pending, q = base ++ asked ∧ q' = base' ++ asked ∧
    ∀ p ∈ asked, p.source.isDeclared = true

theorem appended_grows (base base' : PendingQueue) : Growing (Appended base base') := by
  rintro _ _ p ⟨asked, rfl, rfl, all⟩ declared
  refine ⟨asked ++ [p], List.append_assoc _ _ _, List.append_assoc _ _ _, ?_⟩
  rw [List.forall_mem_append, List.forall_mem_singleton]
  exact ⟨all, declared⟩

theorem of_pairs {x y : Gen α}
    (h : ∀ s depth queues, Growing queues → s.Steady B σ → depth ≤ s.resolveDepth →
      (walk B σ s depth queues).beside.OnSession (fun a a' => a' = a ∧ P a) x y) :
    Follows B σ P x y := by
  intro s a s' run steady
  have ends (depth : Nat) (le : depth ≤ s.resolveDepth) (queue : PendingQueue) :
      P a ∧ ∃ asked, s.Goes B σ s' asked ∧
        y (s.moved depth queue) = .ok a (s'.moved depth (queue ++ asked)) := by
    have start : (walk B σ s depth (Appended s.pending queue)).Sessions s (s.moved depth queue) := {
      same := (s.retype_id depth queue).symm
      depth := ⟨rfl, rfl⟩
      queue := ⟨[], (List.append_nil _).symm, (List.append_nil _).symm, fun _ member => by cases member⟩
      holds := steady.holds.between rfl rfl }
    have ends := h s depth _ (appended_grows _ _) steady le start
    rw [run] at ends
    generalize y (s.moved depth queue) = result at ends
    cases ends with
    | done value paired =>
      obtain ⟨rfl, post⟩ := value
      obtain ⟨asked, left, right, declared⟩ := paired.queue
      refine ⟨post, asked, ⟨steady.of_holds paired.holds, paired.depth.1,
        paired.holds.decls.external, paired.holds.aliases, left, declared⟩, ?_⟩
      rw [paired.moved, right]
    | overflow never => exact never.elim
  -- what is asked for can be read off the session on the left
  obtain ⟨post, asked, goes, -⟩ := ends s.resolveDepth (Nat.le_refl _) s.pending
  refine ⟨post, asked, goes, fun depth le queue => ?_⟩
  obtain ⟨-, asked', goes', again⟩ := ends depth le queue
  rw [List.append_cancel_left (goes.queue.symm.trans goes'.queue)]
  exact again

theorem pairs {x y : Gen α} (h : Follows B σ P x y)
    {queues : PendingQueue → PendingQueue → Prop} (grows : Growing queues)
    (steady : s.Steady B σ) (le : depth ≤ s.resolveDepth) :
    (walk B σ s depth queues).beside.OnSession (fun a a' => a' = a ∧ P a) x y := by
  intro t t' paired
  cases run : x t with
  | error halt t₁ => exact .limit trivial
  | ok a t₁ =>
    obtain ⟨post, asked, goes, again⟩ := h run (steady.of_holds paired.holds)
    have ran := again depth (by rw [paired.depth.1]; exact le) t'.pending
    rw [← paired.moved] at ran
    rw [ran]
    refine .done ⟨rfl, post⟩ {
      same := (t₁.retype_id _ _).symm
      depth := ⟨goes.depth.trans paired.depth.1, rfl⟩
      queue := ?_
      holds := goes.steady.holds.between (goes.aliases.trans paired.holds.aliases)
        (goes.externs.trans paired.holds.decls.external) }
    change queues t₁.pending (t'.pending ++ asked)
    rw [goes.queue]
    exact grows.append paired.queue goes.declared

end Follows

theorem Agrees.of_pairs {B : Prop} {x y : Gen α}
    (h : ∀ s depth queues, Growing queues → s.Steady B σ → depth ≤ s.resolveDepth →
      (Follows.walk B σ s depth queues).beside.Answers x y) : Agrees B σ x y :=
  Follows.of_pairs fun s depth queues grows steady le =>
    (h s depth queues grows steady le).imp fun _ _ same => ⟨same.symm, trivial⟩

end Gen

/-! ### Sessions over a module with normal types -/

theorem Session.NormalOver.steady {m : Module} {s : Session} (normal : m.isNormal = true)
    (h : s.NormalOver m) {σ : Substitution}
    (primitive : ∀ name p, Primitive.ofName? name = some p → σ.find? name = none)
    (undeclared : ∀ name, σ.find? name ≠ none → m.declarations.aliases.find? name = none)
    (targets : ∀ a ∈ m.declarations.aliases.values, ∀ name ∈ a.target.simpleNames,
      name ∈ a.typeParams ∨ σ.find? name = none) : s.Steady True σ := by
  have holds := (h.holds normal).1
  have function {f : FunctionDecl}
      (allowed : (normalTypes m.declarations.aliases).walk.function f = true) :
      (shallower True σ s.decls 0 0 Eq).function f = true := by
    have signature := Walk.signature_of_function allowed
    exact Bool.and_eq_true_iff.mpr ⟨signature, rfl⟩
  have methods {fs : List FunctionDecl}
      (all : fs.all (normalTypes m.declarations.aliases).walk.function = true) :
      fs.all (shallower True σ s.decls 0 0 Eq).function = true :=
    List.all_eq_true.mpr fun f member => function (List.all_eq_true.mp all f member)
  refine ⟨⟨{ holds.decls with structs := ?_, enums := ?_, functions := ?_, external := rfl }, rfl, ?_,
    holds.owners, holds.quiet⟩, ?_, ?_⟩
  · intro d member
    have all := holds.decls.structs d member
    rw [Walk.struct, Bool.and_eq_true] at all ⊢
    exact ⟨all.1, methods all.2⟩
  · intro d member
    have all := holds.decls.enums d member
    rw [Walk.enum, Bool.and_eq_true] at all ⊢
    exact ⟨all.1, methods all.2⟩
  · exact fun f member => function (holds.decls.functions f member)
  · intro l member _ v known
    obtain ⟨sources, payloads⟩ := holds.payloads l member trivial v known
    refine ⟨sources, fun p inside _ => ⟨?_, fun name hint same param => ?_⟩⟩
    · have source : p.2 ∈ v.sources := (List.of_mem_zip inside).2
      exact List.all_eq_true.mp sources p.2 source
    · refine payloads p inside name hint same ?_ (undeclared name param)
      cases found : Primitive.ofName? name with
      | none => rfl
      | some q => exact absurd (primitive name q found) param
  · rw [holds.aliases]
    exact fun _ => undeclared
  · rw [holds.aliases]
    exact targets

end Backend
