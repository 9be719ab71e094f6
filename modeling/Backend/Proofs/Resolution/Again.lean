import Backend.Proofs.Session.Marks
import Backend.Proofs.Session.Over

/-!
Types that are resolved again. Names keep their meaning, instances stay on record and types that
have been declared stay so; a type that was resolved once therefore gets the same answer ever after,
and the session is left as it is. `Gen.Recalled` says this of a step, and it is put together along
the steps of a resolution.
-/

namespace Backend

open Gen (Moves Keeps)

variable {kind : DeclKind} {args : List TypeRef} {s s' : Session} {n name : String} {t : Template}

theorem Output.mem_addForward {o : Output} :
    n ∈ (o.addForward name).forwards ↔ n ∈ o.forwards ∨ n = name := by
  unfold addForward
  split
  case isTrue member =>
    exact ⟨.inl, fun known => known.elim id fun same => same ▸ member⟩
  case isFalse => rw [List.mem_append, List.mem_singleton]

namespace Session

/-- What has been found in `s` is found again in `s'`. -/
structure Recalls (D : Declarations) (s s' : Session) : Prop where
  onward : Onward D s s'
  resolveDepth : s'.resolveDepth = s.resolveDepth
  forwards : s.output.forwards ⊆ s'.output.forwards

namespace Recalls

variable {D : Declarations} {s s' : Session}

instance : IsPreorder Session (Recalls D) where
  refl s := ⟨refl_of _ s, rfl, List.Subset.refl _⟩
  trans _ _ _ h h' := ⟨trans_of _ h.onward h'.onward, h'.resolveDepth.trans h.resolveDepth,
    List.Subset.trans h.forwards h'.forwards⟩

theorem of_same (decls : s'.decls = s.decls) (instances : s'.instances = s.instances)
    (resolveDepth : s'.resolveDepth = s.resolveDepth)
    (forwards : s'.output.forwards = s.output.forwards) : Recalls D s s' :=
  ⟨.of_same decls instances, resolveDepth, forwards ▸ List.Subset.refl _⟩

theorem around {s₀ s₀' : Session} (h : Recalls D s₀ s₀') (before : Recalls D s s₀)
    (after : Recalls D s₀' s') : Recalls D s s' :=
  trans_of _ (trans_of _ before h) after

theorem settles (h : Recalls D s s') (rests : s.RestsOn D) (separate : s'.Separate D) :
    s.decls.Settles s'.decls :=
  (h.onward.settles separate rests).2

theorem forward (s : Session) (name : String) :
    Recalls D s { s with output := s.output.addForward name } := by
  exact ⟨.of_same rfl rfl, rfl, fun n member => Output.mem_addForward.mpr (.inl member)⟩

theorem request (base : String) (args : List TypeRef) (body : Pending) :
    Moves (Recalls D) (Gen.requestBody base args body) := by
  intro s
  have run := Gen.requestBody_run base args body s
  exact .of_ok run ⟨(Onward.request base args body).of_ok run, rfl, List.Subset.refl _⟩

theorem tell (call : DebugCall) : Moves (Recalls D) (Gen.tell call) :=
  .tell (fun _ _ => of_same rfl rfl rfl rfl) call

theorem nest (h : Recalls D { s with resolveDepth := s.resolveDepth + 1 } s') :
    Recalls D s { s' with resolveDepth := s'.resolveDepth - 1 } := by
  refine ⟨h.onward.congr rfl rfl rfl rfl, ?_, h.forwards⟩
  change s'.resolveDepth - 1 = s.resolveDepth
  rw [h.resolveDepth, Nat.add_sub_cancel]

theorem mark (h : Recalls D { s with defining := name :: s.defining } s') :
    Recalls D s { s' with defining := s'.defining.erase name } :=
  ⟨h.onward.congr rfl rfl rfl rfl, h.resolveDepth, h.forwards⟩

theorem withInstance {kind : DeclKind} {t : Template} {base : String} {args : List TypeRef}
    {name : String} (makes : s.Makes kind t base args name) :
    Recalls D s (s.withInstance t base args name) :=
  ⟨.withInstance makes, rfl, List.Subset.refl _⟩

theorem completed (s : Session) (name : String) :
    Recalls D s { s with instances := InstanceTable.complete s.instances name } :=
  ⟨.completed s name, rfl, List.Subset.refl _⟩

theorem lays : Session.Lays (.always (Recalls D)) where
  forward := forward
  request := fun _ => (request _ _ _) _
  nest := nest
  nestHalts := nest
  mark := fun _ => mark
  markHalts := fun _ => mark
  slots := fun _ _ _ h => h.around (refl_of _ _) (of_same rfl rfl rfl rfl)
  struct := fun level _ _ _ _ h => level.finishes
    ((Resolution.describeStruct_keeps level.define tell
      (fun _ _ _ => of_same rfl rfl rfl rfl) _ _ _).from
      (h.around (refl_of _ _) (of_same rfl rfl rfl rfl)))
    fun _ _ h h' => h'.around h (of_same rfl rfl rfl rfl)
  enum := fun _ _ _ _ _ h => h.around (refl_of _ _) (of_same rfl rfl rfl rfl)
  make := fun makes _ _ h => h.around (withInstance makes) (completed _ _)
  makeHalts := fun makes h => trans_of (Recalls D) (withInstance makes) h
  begin := fun _ => ⟨.begun _ _ _ _, rfl, List.Subset.refl _⟩

end Recalls

end Session

/-! ### Steps that are taken again -/

open Session (Recalls)

namespace Gen

variable {D : Declarations} {α β : Type}

/-- Once the step has given an answer it gives the same one ever after, and changes nothing. -/
structure Recalled (D : Declarations) (x : Gen α) : Prop where
  moves : Moves (Recalls D) x
  again : ∀ {s s' c : Session} {a : α}, s.RestsOn D → x s = .ok a s' → s'.Recalls D c →
    c.Separate D → x c = .ok a c

namespace Recalled

theorem of_moves {x : Gen α} (moves : Moves (Recalls D) x)
    (again : Moves (Recalls D) x → ∀ {s s' c : Session} {a : α}, s.RestsOn D → x s = .ok a s' →
      s'.Recalls D c → c.Separate D → x c = .ok a c) : Recalled D x :=
  ⟨moves, again moves⟩

theorem pure (a : α) : Recalled D (pure a : Gen α) where
  moves := .pure a
  again _ run _ _ := by rw [(pure_ok run).1]; rfl

theorem throw (h : Halt) : Recalled D (throw h : Gen α) where
  moves := .throw h
  again _ run := nomatch run

theorem ite {p : Prop} [Decidable p] {x y : Gen α} (yes : Recalled D x) (no : Recalled D y) :
    Recalled D (if p then x else y) := by
  split
  · exact yes
  · exact no

theorem bind {x : Gen α} {k : α → Gen β} (first : Recalled D x) (rest : ∀ a, Recalled D (k a)) :
    Recalled D (x >>= k) where
  moves := first.moves.bind fun a => (rest a).moves
  again := by
    intro s s' c b rests run recalls separate
    obtain ⟨a, s₁, ran, ran'⟩ := bind_ok run
    have onwards := trans_of _ ((rest a).moves.of_ok ran') recalls
    have rests₁ := ((first.moves.of_ok ran).onward.settles (onwards.onward.separate separate) rests).1
    rw [bind_of_ok (first.again rests ran onwards separate)]
    exact (rest a).again rests₁ ran' recalls separate

theorem mapM {x : α → Gen β} (h : ∀ a, Recalled D (x a)) (xs : List α) :
    Recalled D (xs.mapM x) := by
  induction xs with
  | nil => exact pure []
  | cons a rest ih =>
    rw [List.mapM_cons]
    exact (h a).bind fun _ => ih.bind fun _ => pure _

theorem substitute (σ : Substitution) (ty : TypeRef) : Recalled D (Gen.substitute σ ty) :=
  .ite (pure _) (throw _)

theorem substituteAll (σ : Substitution) (types : List TypeRef) :
    Recalled D (Gen.substituteAll σ types) :=
  .ite (pure _) (throw _)

theorem checkArity (decl : String) (params : List String) (args : List TypeRef) :
    Recalled D (Backend.checkArity decl params args) :=
  .ite (pure _) (throw _)

theorem orFail (value : Option α) (cause : Cause) : Recalled D (orFail value cause : Gen α) := by
  cases value with
  | none => exact throw _
  | some a => exact pure a

theorem aliases {k : AliasTable → Gen β} (h : ∀ table, Recalled D (k table)) :
    Recalled D (do k (← get).decls.aliases) where
  moves := Keeps.get.bind fun _ => (h _).moves
  again := by
    intro s s' c b rests run recalls separate
    have ran : k s.decls.aliases s = .ok b s' := run
    have whole := trans_of _ ((h _).moves.of_ok ran) recalls
    change k c.decls.aliases c = .ok b c
    rw [(whole.settles rests separate).aliases]
    exact (h _).again rests ran recalls separate

theorem naming (types : List TypeRef) (name : AliasTable → String) :
    Recalled D (Gen.naming types name) :=
  aliases (k := fun table => if types.all table.expands then Pure.pure (name table) else
    MonadExcept.throw .overflow) fun _ => .ite (pure _) (throw _)

theorem template (kind : DeclKind) (name : String) : Recalled D (Template.find kind name) where
  moves := (Session.Lays.find kind name)
  again := by
    intro s s' c t rests run recalls separate
    obtain ⟨found, rfl⟩ := Template.find_ok run
    exact Template.find_of_template? ((recalls.settles rests separate).template? found)

theorem addForward (name : String) :
    Recalled D (Gen.modifyOutput fun o => o.addForward name) where
  moves := .modifyOutput fun s => Recalls.forward s name
  again := by
    intro s s' c _ rests run recalls separate
    cases run
    have member : name ∈ c.output.forwards :=
      recalls.forwards (Output.mem_addForward.mpr (.inr rfl))
    change EStateM.Result.ok () { c with output := c.output.addForward name } = _
    rw [Output.addForward, if_pos member]

end Recalled

end Gen

/-! ### Resolution -/

namespace Resolution

open Gen (Recalled)
open Session (Onward)

variable {D : Declarations} {levels : Nat}

theorem makeInstance_started (started : s.instances.Started n)
    (run : makeInstance (resolveWithin levels) kind t args name s = .ok () s') :
    s'.instances.Started n := by
  obtain ⟨methods, s₁, declared, rest₁⟩ := Gen.bind_ok run
  obtain ⟨_, s₂, owned, rest₂⟩ := Gen.bind_ok rest₁
  obtain ⟨_, s₃, defined, rest₃⟩ := Gen.bind_ok rest₂
  obtain ⟨_, s₄, queued, completed⟩ := Gen.bind_ok rest₃
  cases owned
  cases completed
  have started₁ : s₁.instances.Started n := by
    rw [t.declare_run] at declared
    split at declared
    · cases declared
      exact started
    · cases declared
  have lays : Session.Lays (.always (Onward {})) := Onward.lays
  have defining := onward (lays.define (lays.resolveWithin levels) kind name) defined
  have queueing := onward (lays.queueMethods name methods _) queued
  exact InstanceTable.started_complete (queueing.started (defining.started started₁))

theorem beginning_started {base given : String}
    (run : (do
      match ← Gen.beginInstance base args name with
      | .existing _ => return name
      | .fresh =>
        makeInstance (resolveWithin levels) kind t args name
        return name : Gen String) s = .ok given s') :
    s'.instances.Started name ∧ given = name := by
  obtain ⟨claim, s₁, begun, rest⟩ := Gen.bind_ok run
  have started : s₁.instances.Started name := by
    cases begun
    exact InstanceTable.started_of_begin s.instances base args name
  split at rest
  · obtain ⟨rfl, rfl⟩ := Gen.pure_ok rest
    exact ⟨started, rfl⟩
  · obtain ⟨_, s₂, made, done⟩ := Gen.bind_ok rest
    obtain ⟨rfl, rfl⟩ := Gen.pure_ok done
    exact ⟨makeInstance_started started made, rfl⟩

theorem instantiate_moves (kind : DeclKind) (base : String) (args : List TypeRef) :
    Moves (Recalls D) (instantiate (resolveWithin levels) kind base args {}) :=
  Recalls.lays.instantiate (Recalls.lays.resolveWithin levels) kind base args {}

theorem instantiate_recalled (kind : DeclKind) (base : String) (args : List TypeRef) :
    Recalled D (instantiate (resolveWithin levels) kind base args {}) where
  moves := instantiate_moves kind base args
  again := by
    intro s s' c given rests run recalls separate
    obtain ⟨args', s₁, substituted, rest₁⟩ := Gen.bind_ok run
    obtain ⟨rfl, rfl⟩ := substituteAll_empty_ok substituted
    obtain ⟨t, s₂, looked, rest₂⟩ := Gen.bind_ok rest₁
    obtain ⟨-, rfl⟩ := Template.find_ok looked
    have whole : s₂.Recalls D c := trans_of _ ((instantiate_moves kind base args').of_ok run) recalls
    unfold instantiate
    rw [Gen.bind_of_ok ((Recalled.substituteAll {} args').again rests substituted whole separate),
      Gen.bind_of_ok ((Recalled.template kind base).again rests looked whole separate)]
    split at rest₂
    case isTrue own => rw [if_pos own, (Gen.pure_ok rest₂).1]; rfl
    case isFalse other =>
      obtain ⟨_, s₃, checked, rest₃⟩ := Gen.bind_ok rest₂
      obtain ⟨-, rfl⟩ := Gen.checkArity_ok checked
      obtain ⟨name, s₄, named, rest₄⟩ := Gen.bind_ok rest₃
      obtain ⟨-, rfl⟩ := Gen.naming_ok named
      have named' : Gen.genericName base args' c = .ok name c :=
        (Recalled.naming args' _).again rests named whole separate
      rw [if_neg other,
        Gen.bind_of_ok ((Recalled.checkArity base _ args').again rests checked whole separate),
        Gen.bind_of_ok named']
      obtain ⟨started, rfl⟩ := beginning_started rest₄
      rw [Gen.bind_of_ok (Gen.beginInstance_run base args' given c)]
      obtain ⟨state, existing, -⟩ | ⟨r, -, idle, -⟩ :=
        InstanceTable.begin_cases c.instances base args' given
      · rw [existing]
        rfl
      · exact (idle (recalls.onward.started started)).elim

theorem concreteType_recalled (kind : DeclKind) (name : String) (args : List TypeRef) :
    Recalled D (concreteType (resolveWithin levels) kind name args) :=
  .ite (.pure _) ((instantiate_recalled kind name args).bind fun _ => .pure _)

theorem aliasTarget_recalled (name : String) (args : List TypeRef) :
    Recalled D (aliasTarget name args) :=
  .aliases (k := fun table => do
      let a ← orFail (table.find? name)
        (.unresolvedType name "no struct, enum or alias with this name")
      checkArity a.name a.typeParams args
      Gen.substitute (.ofParams a.typeParams args) a.target) fun _ =>
    (Recalled.orFail _ _).bind fun _ => (Recalled.checkArity _ _ _).bind fun _ => .substitute _ _

theorem declaredType_recalled (hr : ∀ ty σ, Recalled D (resolveWithin levels ty σ)) (name : String)
    (args : List TypeRef) (hint : Option DeclKind) (σ : Substitution) :
    Recalled D (declaredType (resolveWithin levels) name args hint σ) := by
  refine (Recalled.substituteAll σ args).bind fun args => ?_
  have concrete (kind : DeclKind) :
      Recalled D (concreteType (resolveWithin levels) kind name args) :=
    concreteType_recalled kind name args
  have expanded := (aliasTarget_recalled (D := D) name args).bind fun target => hr target σ
  refine .of_moves (Keeps.bind .get fun s => ?_) fun moves => ?_
  · split
    · exact (concrete _).moves
    · exact expanded.moves
  intro s s' c a rests run recalls separate
  have settles := (trans_of _ (moves.of_ok run) recalls).settles rests separate
  obtain ⟨now, s₁, got, ran⟩ := Gen.bind_ok run
  cases got
  rw [Gen.get_bind]
  cases known : s.decls.kind? name hint with
  | some kind =>
    rw [known] at ran
    rw [settles.kind? (Declarations.declares_of_kind? known), known]
    exact (concrete kind).again rests ran recalls separate
  | none =>
    rw [known] at ran
    obtain ⟨target, s₂, looked, -⟩ := Gen.bind_ok ran
    obtain ⟨a, found, -⟩ := aliasTarget_ok looked
    rw [settles.kind? (Declarations.declares_iff.mpr (.inr ⟨a, found⟩)), known]
    exact expanded.again rests ran recalls separate

theorem simpleName_recalled (hr : ∀ ty σ, Recalled D (resolveWithin levels ty σ)) (name : String)
    (hint : Option DeclKind) (σ : Substitution) :
    Recalled D (simpleName (resolveWithin levels) name hint σ) := by
  unfold simpleName
  split
  · exact .pure _
  · split
    · exact (Recalled.addForward name).bind fun _ => .pure _
    · split
      · exact hr _ _
      · exact declaredType_recalled hr _ _ _ _

theorem step_recalled (hr : ∀ ty σ, Recalled D (resolveWithin levels ty σ)) (ty : TypeRef)
    (σ : Substitution) : Recalled D (step (resolveWithin levels) ty σ) := by
  cases ty with
  | primitive p => exact .pure _
  | pointer inner depth => exact (hr _ _).bind fun _ => .pure _
  | array inner dims => exact (hr _ _).bind fun _ => .pure _
  | tuple elems => exact (Recalled.mapM (hr · σ) elems).bind fun _ => .pure _
  | function params ret variadic =>
    exact (hr _ _).bind fun _ => (Recalled.mapM (hr · σ) params).bind fun _ => .pure _
  | named name args hint =>
    cases args with
    | nil => exact simpleName_recalled hr _ _ _
    | cons arg rest => exact declaredType_recalled hr _ _ _ _

theorem nested_of_ok {α : Type} {ty : TypeRef} {x : Gen α} {a : α}
    (within : s.resolveDepth < maxResolveDepth)
    (run : x { s with resolveDepth := s.resolveDepth + 1 } =
      .ok a { s with resolveDepth := s.resolveDepth + 1 }) :
    nested ty x s = .ok a s := by
  unfold nested
  rw [Gen.get_bind, if_neg (Nat.not_le.mpr within)]
  change tryFinally x _ { s with resolveDepth := s.resolveDepth + 1 } = _
  rw [Gen.finally_run, run]
  rfl

theorem nested_recalled {α : Type} (ty : TypeRef) {x : Gen α} (h : Recalled D x) :
    Recalled D (nested ty x) where
  moves := (Recalls.lays.nested ty (h.moves))
  again := by
    intro s s' c a rests run recalls separate
    obtain ⟨within, s₁, ran, rfl⟩ := nested_ok run
    have deeper := (h.moves.of_ok ran).resolveDepth
    have depth : c.resolveDepth = s.resolveDepth := by
      refine recalls.resolveDepth.trans ?_
      change s₁.resolveDepth - 1 = s.resolveDepth
      rw [deeper, Nat.add_sub_cancel]
    have onward : Onward D s₁ { c with resolveDepth := c.resolveDepth + 1 } :=
      recalls.onward.congr rfl rfl rfl rfl
    have below : s₁.Recalls D { c with resolveDepth := c.resolveDepth + 1 } :=
      ⟨onward, by rw [deeper, depth], recalls.forwards⟩
    have rests₀ : Session.RestsOn D { s with resolveDepth := s.resolveDepth + 1 } :=
      ⟨rests.settles, rests.made, rests.derives⟩
    exact nested_of_ok (depth ▸ within) (h.again rests₀ ran below separate)

theorem resolveWithin_recalled (levels : Nat) (ty : TypeRef) (σ : Substitution) :
    Recalled D (resolveWithin levels ty σ) := by
  induction levels generalizing ty σ with
  | zero => exact .throw _
  | succ levels ih => exact nested_recalled ty (step_recalled ih ty σ)

end Resolution

/-- A type that has been resolved is resolved to the same again, and nothing changes: there is no new
record, declaration, definition, table or body. -/
theorem Session.Over.resolve_again {m : Module} {s c : Session} (isOver : s.Over m) {ty : TypeRef}
    {σ : Substitution} {r : IrType} (run : Gen.resolve ty σ s = .ok r c)
    (separate : c.Separate m.declarations) : Gen.resolve ty σ c = .ok r c := by
  have recalled := Resolution.resolveWithin_recalled (D := m.declarations) (maxResolveDepth + 1) ty σ
  have rests := isOver.restsOn ((recalled.moves.of_ok run).onward.separate separate)
  exact recalled.again rests run (refl_of _ c) separate

/-- Nodes that point to each other, and a name for nodes of integers. -/
def nodeModule : Module where
  name := "main"
  decls :=
    [.struct
      { name := "Node", typeParams := ["T"]
        fields := [⟨"value", .ofName "T"⟩, ⟨"next", .pointer (.named "Node" [.ofName "T"] none) 1⟩]
        methods := [{ name := "get", returnType := .ofName "T" }] },
     .typeAlias { name := "Ints", target := .named "Node" [.i32] none }]

/-- A node is made, its method is queued and `U` is declared; the second time nothing is. -/
theorem Session.Over.resolve_again_nodes :
    let s := (Session.ofOptions {}).registerAll nodeModule
    let ty : TypeRef := .tuple [.ofName "Ints", .pointer (.ofName "U") 1]
    let σ := Substitution.ofParams ["U"] [.ofName "U"]
    ∃ r c, s.Over nodeModule ∧ Gen.resolve ty σ s = .ok r c ∧ c.Separate nodeModule.declarations ∧
      c.pending ≠ [] ∧ c.output.forwards = ["U"] ∧ Gen.resolve ty σ c = .ok r c := by
  intro s ty σ
  have isOver : s.Over nodeModule := ⟨{}, none, .refl⟩
  have reached : (Gen.resolve ty σ).reaches s (fun c =>
      (∀ n ∈ c.instances.keys, nodeModule.declarations.declares n = false) ∧
        c.pending.symbols ≠ [] ∧ c.output.forwards = ["U"]) = true := by decide +kernel
  obtain ⟨r, c, run, separate, queued, forwards⟩ := Gen.exists_reached reached
  have apart : c.Separate nodeModule.declarations := separate_of_keys separate
  exact ⟨r, c, isOver, run, apart, fun empty => queued (by rw [empty]; rfl), forwards,
    isOver.resolve_again run apart⟩

end Backend
