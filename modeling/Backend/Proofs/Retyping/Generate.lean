import Backend.Proofs.Retyping.Queries
import Backend.Proofs.Session.Over

/-!
Whole generations on both sides of a retyping. Main statement: `Retyping.generate_outcomes`,
a module and the module with its types replaced are generated alike.
-/

namespace Backend

variable {m : Module} {collector : Option Collector} {options : Options} {p : Pending} {s : Session}
  {σ : Substitution}

namespace Retyping

open Walk

variable {R : Retyping} (law : R.walk.Lawful) (hr : R.walk.Resolves)

theorem push_walk {q q' : PendingQueue} (queues : R.walk.queues q q') (waits : R.walk.Waits p) :
    R.walk.queues (q.push p) (q'.push (p.retype R.type)) := by
  obtain ⟨rfl, all⟩ := queues
  refine ⟨by simp [PendingQueue.push], fun other member => ?_⟩
  rcases List.mem_append.mp member with given | new
  · exact all other given
  · rw [List.mem_singleton.mp new]
    exact ⟨waits.1, fun l same => (waits.2 l same).2⟩

/-! ### Function bodies -/

section

include law hr

theorem emitBody_pairs {sig : Signature} (hs : sig.all R.allows = true) {body : List Stmt}
    (hb : allStmts R.allows (fun _ => true) body = true) (admits : R.Admits σ) :
    R.walk.beside.Answers (Gen.emitBody sig body σ)
      (Gen.emitBody (sig.mapTypes R.type) (mapStmts R.type body) (σ.retype R.type)) := by
  refine reads fun s depth queue _ => ?_
  dsimp only [Session.retype]
  split
  · exact .fail
  · refine Beside.OnSession.andThen (updates_alike (fun _ _ _ => rfl) (fun _ => rfl)
      fun _ => by constructor <;> rfl)
      fun _ => ?_
    have pairing : (R.walk.pairing σ sig.symbol).Lawful :=
      Lawful.pairing law hr admits rfl trivial sig.symbol
    have emitted : R.walk.beside.Answers (Gen.emitFunction sig body σ)
        (Gen.emitFunction (sig.mapTypes R.type) (mapStmts R.type body) (σ.retype R.type)) :=
      pairing.emitFunction_pairs (fun _ => updates_alike (fun _ _ _ => rfl) (fun _ => rfl)
        fun _ => by constructor <;> rfl) rfl hs hb
    refine emitted.tryFinally fun s s' paired => ⟨?_, paired.depth,
      paired.queue, paired.holds.alike ⟨rfl, rfl, rfl, rfl, rfl, rfl⟩⟩
    rw [paired.same]
    rfl

theorem emitDeclared_pairs {f : FunctionDecl} (h : R.function f = true) (symbol : String)
    (receiver : Option String) (admits : R.Admits σ) :
    R.walk.beside.Answers (Gen.emitDeclared f symbol receiver σ)
      (Gen.emitDeclared (f.retype R.type) symbol receiver (σ.retype R.type)) := by
  simp only [Retyping.function, signature, Bool.and_eq_true] at h
  have all : Signature.all R.allows
      { symbol, params := f.params, returnType := f.returnType, receiver, location := f.location } =
        true := by
    simp only [Signature.all, h.1.1.2, h.1.2, Option.all_none, Bool.and_self]
  exact emitBody_pairs law hr all h.2 admits

theorem emitLambda_pairs {l : LiftedLambda} (h : R.Lambda l) (symbol : String)
    (admits : R.Admits σ) : R.walk.beside.Answers (Gen.emitLambda l symbol σ)
      (Gen.emitLambda (l.mapTypes R.type) symbol (σ.retype R.type)) := by
  simp only [Lambda, LiftedLambda.all, Bool.and_eq_true] at h
  have all : Signature.all R.allows
      { symbol, params := l.params, returnType := l.returnType,
        captures := some { envType := l.envType, fields := l.captures }, location := l.location } =
        true := by
    simp only [Signature.all, h.1.1.1, h.2, Option.all_some, h.1.1.2, Bool.and_self]
  exact emitBody_pairs law hr all h.1.2 admits

omit law hr

theorem declaredMethod_pairs (owner method : String) :
    R.walk.beside.OnSession (fun m m' => m' = m.retype R.type ∧ R.function m = true)
      (Gen.declaredMethod owner method) (Gen.declaredMethod owner method) := by
  refine reads fun s depth queue holds => ?_
  simp only [Session.retype, Declarations.retype, Table.find?_map]
  cases struct : s.decls.structs.find? owner with
  | some d =>
    have searched : (d.retype R.type).method? method =
        (d.method? method).map (FunctionDecl.retype R.type) := method?_retype _ _ _
    simp only [Option.map_some, pure_bind, searched]
    refine orFail_map fun m found => ?_
    exact method_allowed (holds.decls.structs d (Table.mem_values_of_find? struct))
      (List.mem_of_find?_eq_some found)
  | none =>
    cases enum : s.decls.enums.find? owner with
    | some e =>
      have searched : (e.retype R.type).method? method =
          (e.method? method).map (FunctionDecl.retype R.type) := method?_retype _ _ _
      simp only [Option.map_none, Option.map_some, pure_bind, searched]
      refine orFail_map fun m found => ?_
      have allowed := holds.decls.enums e (Table.mem_values_of_find? enum)
      simp only [Walk.enum, Bool.and_eq_true] at allowed
      exact List.all_eq_true.mp allowed.2 m (List.mem_of_find?_eq_some found)
    | none => exact Beside.OnSession.bind (V := fun _ _ => False) .fail fun _ _ never => never.elim

include law hr

theorem emitPending_pairs (waits : R.Waits p) :
    R.walk.beside.Answers (Gen.emitPending p) (Gen.emitPending (p.retype R.type)) := by
  obtain ⟨symbol, source, σ⟩ := p
  obtain ⟨admits, lambda⟩ := waits
  cases source with
  | function template =>
    refine (find_function template _).bind ?_
    rintro f _ ⟨rfl, h⟩
    exact (emitDeclared_pairs law hr h symbol none admits).locating _
  | method owner method =>
    refine (declaredMethod_pairs owner method).bind ?_
    rintro m _ ⟨rfl, h⟩
    exact (emitDeclared_pairs law hr h symbol _ admits).locating _
  | lambda l => exact (emitLambda_pairs law hr (lambda l rfl) symbol admits).locating _

/-! ### Pending bodies -/

theorem generatePending_pairs (waits : R.Waits p) :
    R.walk.beside.Answers (Gen.generatePending p) (Gen.generatePending (p.retype R.type)) := by
  refine reads fun s depth queue _ => .ite Iff.rfl (fun _ => .pure rfl) fun _ => ?_
  refine (beginInstance_pairs "" [] p.symbol).andThen fun claim => ?_
  refine .ite Iff.rfl (fun _ => ?_) fun _ => .pure rfl
  exact (emitPending_pairs law hr waits).andThen fun _ => completeInstance_pairs p.symbol

theorem drainWithin_pairs (n : Nat) :
    R.walk.beside.Answers (Gen.drainWithin n) (Gen.drainWithin n) := by
  induction n with
  | zero => exact .throw
  | succ n ih =>
    refine .reading fun s s' paired => ?_
    obtain ⟨queue', waiting⟩ := paired.queue
    rw [queue']
    cases queue : s.pending with
    | nil => exact .pure rfl
    | cons p rest =>
      rw [queue, List.forall_mem_cons] at waiting
      simp only [List.map_cons, PendingQueue.pop?]
      refine Beside.OnSession.andThen (.update fun s s' paired => ?_)
        fun _ => (generatePending_pairs law hr waiting.1).andThen fun _ => ih
      have same := paired.same
      have held := paired.holds
      exact ⟨by rw [same]; rfl, paired.depth, ⟨rfl, waiting.2⟩, { held with }⟩

theorem drain_pairs : R.walk.beside.Answers Gen.drain Gen.drain := by
  refine reads fun s depth queue _ => ?_
  dsimp only [Session.retype]
  split
  · exact .fail
  · exact drainWithin_pairs law hr _

end

/-! ### Declarations -/

section

include hr

theorem declareExternal_pairs {e : ExternDecl} (h : R.external e = true) :
    R.walk.beside.Answers (Gen.declareExternal e) (Gen.declareExternal (e.retype R.type)) := by
  simp only [external, Bool.and_eq_true] at h
  refine (hr.answers h.2 admits_empty).andThen fun ret => ?_
  simp only [ExternDecl.retype, Pairing.map_ty_mapType]
  refine (resolveAll_pairs hr ?_ admits_empty).andThen fun params => modifyOutput_pairs _
  rw [List.all_map]
  exact h.1

include law

theorem generateType_pairs (kind : DeclKind) (name : String) {methods : List FunctionDecl}
    (h : methods.all R.function = true) :
    R.walk.beside.Answers (Gen.generateType kind name methods)
      (Gen.generateType kind name (methods.map (FunctionDecl.retype R.type))) := by
  refine (define_pairs hr law kind name).andThen fun _ => ?_
  refine Beside.OnSession.andThen
    (updates (fun s depth queue => ?_) (fun _ => ⟨rfl, rfl⟩) fun s holds => ?_)
    fun _ => queueMethods_pairs law name h admits_empty
  · simp only [Session.retype, Table.map_insert]
    rfl
  · refine { holds with owners := fun emits τ member => ?_ }
    rcases Table.mem_values_insert member with rfl | given
    · exact admits_empty
    · exact holds.owners emits τ given

theorem generateDecl_pairs {d : Decl} (h : R.decl d = true) :
    R.walk.beside.Answers (Gen.generateDecl d) (Gen.generateDecl (d.retype R.type)) := by
  cases d with
  | struct d =>
    simp only [decl, struct, Bool.and_eq_true] at h
    exact .ite Iff.rfl (fun _ => .pure rfl) fun _ => generateType_pairs law hr _ _ h.1.2
  | enum d =>
    simp only [decl, enum, Bool.and_eq_true] at h
    exact .ite Iff.rfl (fun _ => .pure rfl) fun _ => generateType_pairs law hr _ _ h.1.2
  | function f =>
    refine .ite Iff.rfl (fun _ => .pure rfl) fun _ => ?_
    refine (functionSymbol_pairs law (signature_of_function h)).andThen fun symbol => ?_
    exact emitDeclared_pairs law hr h symbol none admits_empty
  | external e => exact .pure rfl
  | typeAlias a => exact .pure rfl

omit law hr in
theorem injectRuntime_pairs : R.walk.beside.Answers Gen.injectRuntime Gen.injectRuntime := by
  refine Beside.OnSession.andThen (.forM (List.forall₂_same.mpr fun d _ => modifyOutput_pairs _))
    fun _ => (internString_pairs _).andThen fun _ => ?_
  exact updates_alike (fun _ _ _ => rfl) (fun _ => rfl) fun _ => by constructor <;> rfl

theorem generate_outcomes (h : m.decls.all R.decl = true) {s' : Session}
    (start : R.walk.Sessions (m.decls.foldl Session.register s)
      ((m.retype R.type).decls.foldl Session.register s')) :
    R.walk.beside.Outcomes Eq (Gen.generate m s) (Gen.generate (m.retype R.type) s') := by
  have each {x : Decl → Gen PUnit}
      (hx : ∀ d, R.decl d = true → R.walk.beside.Answers (x d) (x (d.retype R.type))) :
      R.walk.beside.Answers (m.decls.forM x) ((m.retype R.type).decls.forM x) :=
    .forM (List.forall₂_map_right_iff.mpr (List.forall₂_same.mpr fun d member =>
      hx d (List.all_eq_true.mp h d member)))
  have rest : R.walk.beside.Answers (Gen.generateRegistered m)
      (Gen.generateRegistered (m.retype R.type)) := by
    refine injectRuntime_pairs.andThen fun _ => (each fun d allowed => ?_).andThen fun _ =>
      (each fun d allowed => ?_).andThen fun _ => drain_pairs law hr
    · cases d with
      | external e => exact (declareExternal_pairs hr allowed).locating _
      | _ => exact .pure rfl
    · have place : (d.retype R.type).location = d.location := by cases d <;> rfl
      rw [place]
      exact ((generateDecl_pairs law hr allowed).locating _).andThen fun _ => drain_pairs law hr
  exact rest start

end

/-! ### Modules -/

section

variable (g : TypeRef → TypeRef)

theorem add_retype (d : Declarations) (decl : Decl) :
    (d.retype g).add (decl.retype g) = (d.add decl).retype g := by
  cases decl <;> simp only [Declarations.add, Decl.retype, Declarations.retype, Table.map_insert]
    <;> rfl

theorem registerAll_retype (m : Module) (s : Session) (depth : Nat) (queue : PendingQueue) :
    Session.registerAll (m.retype g) (s.retype g depth queue) =
      (s.registerAll m).retype g depth queue := by
  unfold Session.registerAll Module.retype
  induction m.decls generalizing s with
  | nil => rfl
  | cons d rest ih =>
    have step : (s.retype g depth queue).register (d.retype g) =
        (s.register d).retype g depth queue := by
      simp only [Session.register, Session.retype, add_retype]
    rw [List.map_cons, List.foldl_cons, List.foldl_cons, step]
    exact ih _

end

theorem declares_add {d : Declarations} (h : R.walk.Declares d) {decl : Decl}
    (allowed : R.decl decl = true) : R.walk.Declares (d.add decl) := by
  have inserted {α : Type} {p : α → Bool} {t : Table α} {key : String} {v : α}
      (each : ∀ a ∈ t.values, p a = true) (new : p v = true) :
      ∀ a ∈ (t.insert key v).values, p a = true := by
    intro a member
    rcases Table.mem_values_insert member with rfl | given
    · exact new
    · exact each a given
  have entered {α : Type} {p : String × α → Bool} {t : Table α} {key : String} {v : α}
      (each : ∀ e ∈ t.entries, p e = true) (new : p (key, v) = true) :
      ∀ e ∈ (t.insert key v).entries, p e = true := by
    intro e member
    rcases Table.mem_insertEntry member with rfl | given
    · exact new
    · exact each e given
  cases decl with
  | struct d =>
    rw [Retyping.decl, Bool.and_eq_true] at allowed
    exact { h with
      structs := inserted h.structs allowed.1
      structNames := entered h.structNames allowed.2 }
  | enum d =>
    rw [Retyping.decl, Bool.and_eq_true] at allowed
    exact { h with
      enums := inserted h.enums allowed.1
      enumNames := entered h.enumNames allowed.2 }
  | function d => exact { h with functions := inserted h.functions allowed }
  | external d =>
    exact { h with externs := inserted h.externs allowed, external := trivial }
  | typeAlias d => exact { h with typeAliases := inserted h.typeAliases allowed }

theorem declares_registerAll (h : m.decls.all R.decl = true) (start : R.walk.Declares s.decls) :
    R.walk.Declares (s.registerAll m).decls := by
  unfold Session.registerAll
  rw [List.all_eq_true] at h
  generalize m.decls = ds at h
  induction ds generalizing s with
  | nil => exact start
  | cons d rest ih =>
    rw [List.forall_mem_cons] at h
    exact ih (declares_add start h.1) h.2

theorem text_retype (g : TypeRef → TypeRef) (s : Session) (depth : Nat) (queue : PendingQueue) :
    (s.retype g depth queue).text = s.text := rfl

/-- The module can be retyped: its types may occur, and its aliases are those of the retyping. -/
structure Covers (R : Retyping) (m : Module) (options : Options) (collector : Option Collector) :
    Prop where
  decls : m.decls.all R.decl = true
  aliases : m.declarations.aliases = R.aliases
  depths : R.depths 0 0
  quiet : R.quiet → (Session.ofOptions options collector).activeCollector? = none

theorem Covers.sessions (h : R.Covers m options collector) :
    R.walk.Sessions ((Session.ofOptions options collector).registerAll m)
      ((Session.ofOptions options collector).registerAll (m.retype R.type)) := by
  have same : (Session.ofOptions options collector).registerAll (m.retype R.type) =
      ((Session.ofOptions options collector).registerAll m).retype R.type 0 [] :=
    registerAll_retype R.type m (.ofOptions options collector) 0 []
  have registered := (Session.ofOptions options collector).registerAll_eq m
  have declared : R.walk.Declares ((Session.ofOptions options collector).registerAll m).decls :=
    declares_registerAll h.decls ⟨nofun, nofun, nofun, nofun, nofun, nofun, nofun, trivial⟩
  rw [same]
  refine ⟨rfl, ?_, ⟨?_, ?_⟩, ⟨declared, ?_, ?_, ?_, ?_⟩⟩ <;> rw [registered]
  · exact h.depths
  · rfl
  · exact fun _ member => by cases member
  · exact h.aliases
  · exact fun _ member => by cases member
  · exact fun _ _ member => by cases member
  · exact h.quiet

/-- Unless the generation halts at a limit, or overflows with the types replaced, replacing the
types of a module leaves the text as it is, or there is none on both sides. -/
theorem generate_text (law : R.walk.Lawful) (hr : R.walk.Resolves)
    (h : R.Covers m options collector) :
    (∃ halt, m.generate (.ofOptions options collector) = .error halt ∧ R.limit halt) ∨
      ((m.retype R.type).generate (.ofOptions options collector) = .error .overflow ∧
        R.overflows) ∨
      ((m.generate (.ofOptions options collector)).map Session.text).toOption =
        (((m.retype R.type).generate (.ofOptions options collector)).map Session.text).toOption := by
  have ends := generate_outcomes law hr h.decls h.sessions
  unfold Module.generate
  simp only [EStateM.run]
  generalize Gen.generate m (.ofOptions options collector) = left at ends
  generalize Gen.generate (m.retype R.type) (.ofOptions options collector) = right at ends
  cases ends with
  | done _ paired =>
    refine .inr (.inr ?_)
    simp only [Except.map, Except.toOption, Option.some.injEq]
    rw [paired.same, text_retype]
  | failed _ _ => exact .inr (.inr rfl)
  | limit limit => exact .inl ⟨_, rfl, limit⟩
  | overflow overflows => exact .inr (.inl ⟨rfl, overflows⟩)

end Retyping

end Backend
