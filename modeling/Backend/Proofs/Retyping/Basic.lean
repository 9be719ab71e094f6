import Backend.Proofs.Lowering.Body

/-!
The same program with other types. A function on types is carried over to declarations, layouts and
whole sessions. A `Retyping` says which types may occur, and a `Walk` what is asked of the sessions
on both sides, so that generation can be followed from a session to the session with its types
replaced.
-/

namespace Backend

variable {α β : Type}

namespace Table

def map (f : α → β) (t : Table α) : Table β := ⟨t.entries.map fun e => (e.1, f e.2)⟩

@[simp] theorem find?_map (f : α → β) (t : Table α) (key : String) :
    (t.map f).find? key = (t.find? key).map f := by
  unfold find? map
  induction t.entries with
  | nil => rfl
  | cons e rest ih =>
    rw [List.map_cons, lookup, lookup, ih]
    dsimp only
    split <;> rfl

@[simp] theorem contains_map (f : α → β) (t : Table α) (key : String) :
    (t.map f).contains key = t.contains key := by
  rw [contains, contains, find?_map, Option.isSome_map]

@[simp] theorem size_map (f : α → β) (t : Table α) : (t.map f).size = t.size := List.length_map _

theorem map_insert (f : α → β) (t : Table α) (key : String) (v : α) :
    (t.insert key v).map f = (t.map f).insert key (f v) := by
  unfold insert map
  refine congrArg Table.mk ?_
  induction t.entries with
  | nil => rfl
  | cons e rest ih =>
    rw [insertEntry, List.map_cons, insertEntry]
    split
    · rfl
    · rw [List.map_cons, ih]

theorem map_foldl_insert (f : α → β) (es : List (String × α)) (t : Table α) :
    (es.foldl (fun t e => t.insert e.1 e.2) t).map f =
      (es.map fun e => (e.1, f e.2)).foldl (fun t e => t.insert e.1 e.2) (t.map f) := by
  induction es generalizing t with
  | nil => rfl
  | cons e rest ih => rw [List.foldl_cons, ih, map_insert]; rfl

theorem map_id (t : Table α) : t.map id = t := by
  unfold map
  simp

theorem related_map (R : α → β → Prop) (f : α → β) (t : Table α) (h : ∀ a ∈ t.values, R a (f a)) :
    Related R t (t.map f) := by
  unfold Related map
  refine List.forall₂_map_right_iff.mpr (List.forall₂_same.mpr fun e member => ⟨rfl, ?_⟩)
  exact h e.2 (List.mem_map_of_mem member)

end Table

/-! ### Type parameters -/

/-- Names of the type parameters of a declaration and of its methods. -/
def Decl.paramNames : Decl → List String
  | .struct d => d.typeParams ++ d.methods.flatMap FunctionDecl.typeParams
  | .enum d => d.typeParams ++ d.methods.flatMap FunctionDecl.typeParams
  | .function f => f.typeParams
  | .external _ => []
  | .typeAlias a => a.typeParams

def Module.paramNames (m : Module) : List String := m.decls.flatMap Decl.paramNames

/-! ### Declarations with other types -/

section

variable (g : TypeRef → TypeRef)

abbrev Substitution.retype (σ : Substitution) : Substitution := σ.map g

def FunctionDecl.retype (f : FunctionDecl) : FunctionDecl :=
  { f with
    params := f.params.map (Field.mapType g)
    returnType := g f.returnType
    body := mapStmts g f.body }

def StructDecl.retype (d : StructDecl) : StructDecl :=
  { d with
    parent := d.parent.map g
    fields := d.fields.map (Field.mapType g)
    methods := d.methods.map (FunctionDecl.retype g) }

def Payload.retype : Payload → Payload
  | .tuple types => .tuple (types.map g)
  | .struct fields => .struct (fields.map (Field.mapType g))

def Variant.retype (v : Variant) : Variant := { v with payload := v.payload.map (Payload.retype g) }

def EnumDecl.retype (d : EnumDecl) : EnumDecl :=
  { d with
    variants := d.variants.map (Variant.retype g)
    methods := d.methods.map (FunctionDecl.retype g) }

def ExternDecl.retype (e : ExternDecl) : ExternDecl :=
  { e with params := e.params.map (Field.mapType g), returnType := g e.returnType }

def AliasDecl.retype (a : AliasDecl) : AliasDecl := { a with target := g a.target }

abbrev AliasTable.retype (aliases : AliasTable) : AliasTable := aliases.map (AliasDecl.retype g)

def Decl.retype : Decl → Decl
  | .struct d => .struct (d.retype g)
  | .enum d => .enum (d.retype g)
  | .function d => .function (d.retype g)
  | .external d => .external (d.retype g)
  | .typeAlias d => .typeAlias (d.retype g)

def Module.retype (m : Module) : Module := { m with decls := m.decls.map (Decl.retype g) }

/-! ### Sessions with other types -/

def Declarations.retype (d : Declarations) : Declarations where
  structs := d.structs.map (StructDecl.retype g)
  enums := d.enums.map (EnumDecl.retype g)
  functions := d.functions.map (FunctionDecl.retype g)
  externs := d.externs.map (ExternDecl.retype g)
  aliases := d.aliases.retype g

def VariantLayout.retype (v : VariantLayout) : VariantLayout :=
  { v with sources := v.sources.map g }

def EnumLayout.retype (l : EnumLayout) : EnumLayout :=
  { l with variants := l.variants.map (VariantLayout.retype g) }

def Layouts.retype (l : Layouts) : Layouts := { l with enums := l.enums.map (EnumLayout.retype g) }

def InstanceRecord.retype (r : InstanceRecord) : InstanceRecord := { r with args := r.args.map g }

def BodySource.retype : BodySource → BodySource
  | .function template => .function template
  | .method owner name => .method owner name
  | .lambda l => .lambda (l.mapTypes g)

def Pending.retype (p : Pending) : Pending :=
  { p with source := p.source.retype g, substitution := p.substitution.retype g }

def Session.retype (s : Session) (depth : Nat) (queue : PendingQueue) : Session :=
  { s with
    decls := s.decls.retype g
    layouts := s.layouts.retype g
    ownerSubst := s.ownerSubst.map (Substitution.retype g)
    instances := s.instances.map (InstanceRecord.retype g)
    pending := queue
    resolveDepth := depth }

end

/-! ### Which types may occur -/

structure Retyping where
  type : TypeRef → TypeRef
  /-- Types that may occur. -/
  allows : TypeRef → Bool
  /-- Names that type parameters may have. -/
  param : String → Bool
  /-- What a type in the payload of a variant may be laid out as. -/
  payload : TypeRef → IrType → Prop
  aliases : AliasTable
  /-- How deep resolutions may be nested on the left and on the right. -/
  depths : Nat → Nat → Prop
  /-- No debug information is collected. -/
  quiet : Prop
  /-- Names that a type with some parameters may be declared under. -/
  named : String → List String → Bool
  limit : Halt → Prop
  limit_retold : ∀ {h h'}, limit h → h.Retold h' → limit h'
  overflows : Prop

namespace Retyping

variable (R : Retyping)

def Admits (σ : Substitution) : Prop := ∀ e ∈ σ.entries, R.param e.1 = true ∧ R.allows e.2 = true

def signature (f : FunctionDecl) : Bool :=
  f.typeParams.all R.param && Field.allTypes R.allows f.params && R.allows f.returnType

def function (f : FunctionDecl) : Bool :=
  R.signature f && allStmts R.allows (fun _ => true) f.body

def struct (d : StructDecl) : Bool :=
  d.typeParams.all R.param && d.parent.all R.allows && Field.allTypes R.allows d.fields &&
    d.methods.all R.function

def enum (d : EnumDecl) : Bool :=
  d.typeParams.all R.param && d.variants.all (fun v => v.payloadTypes.all R.allows) &&
    d.methods.all R.function

def external (e : ExternDecl) : Bool := Field.allTypes R.allows e.params && R.allows e.returnType

def typeAlias (a : AliasDecl) : Bool := a.typeParams.all R.param && R.allows a.target

def decl : Decl → Bool
  | .struct d => R.struct d && R.named d.name d.typeParams
  | .enum d => R.enum d && R.named d.name d.typeParams
  | .function d => R.function d
  | .external d => R.external d
  | .typeAlias d => R.typeAlias d

def Lambda (l : LiftedLambda) : Prop := l.all R.allows (fun _ => true) = true

def Waits (p : Pending) : Prop :=
  R.Admits p.substitution ∧ ∀ l, p.source = .lambda l → R.Lambda l

/-- Nothing is changed that holds types. -/
structure Alike (s s' : Session) : Prop where
  decls : s'.decls = s.decls
  enums : s'.layouts.enums = s.layouts.enums
  owners : s'.ownerSubst = s.ownerSubst
  pending : s'.pending = s.pending
  options : s'.options = s.options
  collector : s'.collector = s.collector

end Retyping

/-! ### Sessions on both sides -/

/-- A retyping along a generation. -/
structure Walk extends Retyping where
  /-- The bodies of functions are emitted, so that their types count. -/
  emits : Bool
  /-- What only bodies ask for is known: the sources of payloads and the owners of methods. -/
  bodies : Prop
  externs : Table ExternDecl → Prop
  /-- What waits on the left and on the right. -/
  queues : PendingQueue → PendingQueue → Prop

/-- Whole generations, in which the same bodies wait on both sides. -/
abbrev Retyping.walk (R : Retyping) : Walk where
  toRetyping := R
  emits := true
  bodies := True
  externs := fun _ => True
  queues := fun q q' => q' = q.map (Pending.retype R.type) ∧ ∀ p ∈ q, R.Waits p

namespace Walk

open Retyping

variable (R : Walk)

def function (f : FunctionDecl) : Bool :=
  R.signature f && (!R.emits || allStmts R.allows (fun _ => true) f.body)

def struct (d : StructDecl) : Bool :=
  d.typeParams.all R.param && d.parent.all R.allows && Field.allTypes R.allows d.fields &&
    d.methods.all R.function

def enum (d : EnumDecl) : Bool :=
  d.typeParams.all R.param && d.variants.all (fun v => v.payloadTypes.all R.allows) &&
    d.methods.all R.function

structure Declares (d : Declarations) : Prop where
  structs : ∀ decl ∈ d.structs.values, R.struct decl = true
  enums : ∀ decl ∈ d.enums.values, R.enum decl = true
  functions : ∀ decl ∈ d.functions.values, R.function decl = true
  externs : ∀ decl ∈ d.externs.values, R.external decl = true
  typeAliases : ∀ decl ∈ d.aliases.values, R.typeAlias decl = true
  structNames : ∀ e ∈ d.structs.entries, R.named e.1 e.2.typeParams = true
  enumNames : ∀ e ∈ d.enums.entries, R.named e.1 e.2.typeParams = true
  external : R.externs d.externs

def Payloads (variants : Table VariantLayout) : Prop :=
  R.bodies → ∀ v ∈ variants.values, v.sources.all R.allows = true ∧
    ∀ field ∈ v.payload.zip v.sources, R.payload field.2 field.1

/-- Lambdas wait only where bodies are emitted. -/
def Waits (p : Pending) : Prop :=
  R.Admits p.substitution ∧ ∀ l, p.source = .lambda l → R.emits = true ∧ R.Lambda l

/-- All types of the session are types that may occur. -/
structure Holds (s : Session) : Prop where
  decls : R.Declares s.decls
  aliases : s.decls.aliases = R.aliases
  payloads : ∀ l ∈ s.layouts.enums.values, R.Payloads l.variants
  owners : R.bodies → ∀ σ ∈ s.ownerSubst.values, R.Admits σ
  quiet : R.quiet → s.activeCollector? = none

/-- The right session is the left one with its types replaced. -/
structure Sessions (s s' : Session) : Prop where
  same : s' = s.retype R.type s'.resolveDepth s'.pending
  depth : R.depths s.resolveDepth s'.resolveDepth
  queue : R.queues s.pending s'.pending
  holds : R.Holds s

abbrev beside : Beside := ⟨R.Sessions, R.limit, R.limit_retold, R.overflows⟩

/-- What may be done to types without changing what they stand for. -/
structure Lawful : Prop where
  apply : ∀ {t σ}, R.allows t = true → R.Admits σ →
    R.allows (σ.apply t) = true ∧ (σ.retype R.type).apply (R.type t) = R.type (σ.apply t)
  fits : ∀ {t}, R.allows t = true → R.beside.Bounds t.fits (R.type t).fits
  isIdentity : ∀ {params args}, params.all R.param = true → args.all R.allows = true →
    isIdentity params (args.map R.type) = isIdentity params args
  encode : ∀ {t}, R.allows t = true →
    (R.aliases.retype R.type).encode (R.type t) = R.aliases.encode t
  expands : ∀ {t}, R.allows t = true →
    (R.aliases.retype R.type).expands (R.type t) = R.aliases.expands t
  /-- A function type stays one. -/
  function : ∀ {params ret variadic}, R.allows (.function params ret variadic) = true →
    R.allows ret = true ∧
      ∃ params', R.type (.function params ret variadic) = .function params' (R.type ret) variadic
  other : ∀ {t}, R.allows t = true → t.isFunction = false → (R.type t).isFunction = false
  sign : ∀ {t}, R.allows t = true → (R.type t).isUnsigned = t.isUnsigned
  /-- The type of a receiver is made by the lowering itself. -/
  receiver : ∀ {σ owner}, R.Admits σ →
    R.beside.Bounds (σ.apply (.pointerTo (.ofName owner) 1)).fits
      ((σ.retype R.type).apply (.pointerTo (.ofName owner) 1)).fits
  /-- Instances have names that types may be declared under. -/
  instanceName : ∀ {base params args}, R.named base params = true → params.length = args.length →
    R.named (R.aliases.genericName base args) [] = true
  push : ∀ {q q' p}, R.queues q q' → R.Waits p → R.queues (q.push p) (q'.push (p.retype R.type))
  /-- Failures are caught only for the sake of a collector. -/
  caught : R.quiet ∨ R.beside.Strict

/-! ### Steps on sessions -/

section

variable {R}

theorem Holds.alike {s s' : Session} (h : R.Holds s) (same : Alike s s') : R.Holds s' where
  decls := by rw [same.decls]; exact h.decls
  aliases := by rw [same.decls]; exact h.aliases
  payloads := by rw [same.enums]; exact h.payloads
  owners := by rw [same.owners]; exact h.owners
  quiet := by
    unfold Session.activeCollector?
    rw [same.options, same.collector]
    exact h.quiet

variable {γ δ : Type} {W : γ → δ → Prop}

theorem reads {k : Session → Gen γ} {k' : Session → Gen δ}
    (h : ∀ s depth queue, R.Holds s →
      R.beside.OnSession W (k s) (k' (s.retype R.type depth queue))) :
    R.beside.OnSession W (get >>= k) (get >>= k') :=
  .reading fun s s' paired => by
    have rest := h s s'.resolveDepth s'.pending paired.holds
    rwa [← paired.same] at rest

theorem updates {u u' : Session → Session}
    (same : ∀ s depth queue, u' (s.retype R.type depth queue) = (u s).retype R.type depth queue)
    (kept : ∀ s, (u s).resolveDepth = s.resolveDepth ∧ (u s).pending = s.pending)
    (holds : ∀ s, R.Holds s → R.Holds (u s)) :
    R.beside.Answers (modify u : Gen Unit) (modify u') := by
  refine .update fun s s' paired => ?_
  have moved : u' s' = (u s).retype R.type s'.resolveDepth s'.pending := by
    rw [paired.same]
    exact same s _ _
  rw [moved]
  obtain ⟨depth, pending⟩ := kept s
  exact ⟨rfl, by rw [depth]; exact paired.depth, by rw [pending]; exact paired.queue,
    holds s paired.holds⟩

theorem updates_alike {u u' : Session → Session}
    (same : ∀ s depth queue, u' (s.retype R.type depth queue) = (u s).retype R.type depth queue)
    (depth : ∀ s, (u s).resolveDepth = s.resolveDepth) (alike : ∀ s, Alike s (u s)) :
    R.beside.Answers (modify u : Gen Unit) (modify u') :=
  updates same (fun s => ⟨depth s, (alike s).pending⟩) fun s holds => holds.alike (alike s)

theorem modifyOutput_pairs (f : Output → Output) :
    R.beside.Answers (Gen.modifyOutput f) (Gen.modifyOutput f) :=
  updates_alike (fun _ _ _ => rfl) (fun _ => rfl) fun _ => by constructor <;> rfl

theorem orFail_map {f : γ → δ} {P : γ → Prop} {value : Option γ} {cause cause' : Cause}
    (h : ∀ a, value = some a → P a) :
    R.beside.OnSession (fun a a' => a' = f a ∧ P a) (orFail value cause : Gen γ)
      (orFail (value.map f) cause' : Gen δ) := by
  cases value with
  | none => exact .fail
  | some a => exact .pure ⟨rfl, h a rfl⟩

theorem orFail_same {value : Option γ} {cause cause' : Cause} :
    R.beside.Answers (orFail value cause : Gen γ) (orFail value cause') := by
  cases value with
  | none => exact .fail
  | some a => exact .pure rfl

end

end Walk

end Backend
