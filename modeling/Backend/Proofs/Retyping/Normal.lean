import Backend.Proofs.Retyping.Structural
import Backend.Proofs.Substitution.Normal

/-!
Sessions whose types are all normal. Types that are replaced by themselves make a retyping like any
other, so what it asks of a session is kept by every step. Main statement:
`Session.NormalOver.holds`, a session over a module with normal types has normal types only.
-/

namespace Backend

variable {aliases : AliasTable}

/-! ### Types replaced by themselves -/

theorem Field.mapType_id : Field.mapType id = id := rfl

mutual

theorem Expr.mapTypes_id : (e : Expr) → e.mapTypes id = e
  | .literal .. | .var .. | .sizeof .. => rfl
  | .binary _ _ lhs rhs => by rw [Expr.mapTypes, lhs.mapTypes_id, rhs.mapTypes_id]; rfl
  | .assign _ lhs rhs => by rw [Expr.mapTypes, lhs.mapTypes_id, rhs.mapTypes_id]; rfl
  | .index _ lhs rhs => by rw [Expr.mapTypes, lhs.mapTypes_id, rhs.mapTypes_id]; rfl
  | .unary _ _ e | .member _ e _ | .tupleIndex _ e _ | .cast _ e => by
    rw [Expr.mapTypes, e.mapTypes_id]; rfl
  | .call _ _ _ args => by rw [Expr.mapTypes, mapExprs_id args, List.map_id]; rfl
  | .staticCall _ _ _ _ args => by rw [Expr.mapTypes, mapExprs_id args, List.map_id]; rfl
  | .methodCall _ e _ _ args => by
    rw [Expr.mapTypes, e.mapTypes_id, mapExprs_id args, List.map_id]; rfl
  | .closureCall _ e args => by rw [Expr.mapTypes, e.mapTypes_id, mapExprs_id args]; rfl
  | .functionRef .. => by rw [Expr.mapTypes, List.map_id]; rfl
  | .structLiteral _ fields => by rw [Expr.mapTypes, mapInits_id fields]; rfl
  | .tupleLiteral _ es | .arrayLiteral _ es | .enumVariant _ _ es => by
    rw [Expr.mapTypes, mapExprs_id es]; rfl
  | .matchOn _ e arms => by rw [Expr.mapTypes, e.mapTypes_id, mapArms_id arms]; rfl
  | .lambda _ _ body _ => by
    rw [Expr.mapTypes, mapStmts_id body, Field.mapType_id, List.map_id, List.map_id]; rfl
  | .ternary _ c a b => by rw [Expr.mapTypes, c.mapTypes_id, a.mapTypes_id, b.mapTypes_id]; rfl

theorem mapExprs_id : (es : List Expr) → mapExprs id es = es
  | [] => rfl
  | e :: rest => by rw [mapExprs, e.mapTypes_id, mapExprs_id rest]

theorem mapInits_id : (fields : List FieldInit) → mapInits id fields = fields
  | [] => rfl
  | .mk _ value :: rest => by rw [mapInits, value.mapTypes_id, mapInits_id rest]

theorem mapArms_id : (arms : List MatchArm) → mapArms id arms = arms
  | [] => rfl
  | .mk _ _ body :: rest => by rw [mapArms, body.mapTypes_id, mapArms_id rest]

theorem Stmt.mapTypes_id : (s : Stmt) → s.mapTypes id = s
  | .breakLoop _ | .continueLoop _ => rfl
  | .letVar _ _ value _ => by rw [Stmt.mapTypes, mapValue_id value]; rfl
  | .expr e => by rw [Stmt.mapTypes, e.mapTypes_id]
  | .ret value _ => by rw [Stmt.mapTypes, mapValue_id value]
  | .ifElse c body other _ => by
    rw [Stmt.mapTypes, c.mapTypes_id, mapStmts_id body, mapBlock_id other]
  | .whileLoop c body _ => by rw [Stmt.mapTypes, c.mapTypes_id, mapStmts_id body]
  | .switch e cases default _ => by
    rw [Stmt.mapTypes, e.mapTypes_id, mapCases_id cases, mapBlock_id default]
  | .block body => by rw [Stmt.mapTypes, mapStmts_id body]

theorem mapStmts_id : (body : List Stmt) → mapStmts id body = body
  | [] => rfl
  | s :: rest => by rw [mapStmts, s.mapTypes_id, mapStmts_id rest]

theorem mapValue_id : (value : Option Expr) → mapValue id value = value
  | none => rfl
  | some e => by rw [mapValue, e.mapTypes_id]

theorem mapBlock_id : (block : Option (List Stmt)) → mapBlock id block = block
  | none => rfl
  | some body => by rw [mapBlock, mapStmts_id body]

theorem mapCases_id : (cases : List SwitchCase) → mapCases id cases = cases
  | [] => rfl
  | .mk _ body :: rest => by rw [mapCases, mapStmts_id body, mapCases_id rest]

end

/-! ### Normal types -/

theorem Resolution.named_isNumber {n : Nat} {name : String} {hint : Option DeclKind} {ty : IrType}
    {s s' : Session}
    (noPrimitive : Primitive.ofName? name = none) (undeclared : s.decls.aliases.find? name = none)
    (h : Resolution.resolveWithin n (.named name [] hint) {} s = .ok ty s') :
    ty.isNumber = false := by
  cases n with
  | zero => cases h
  | succ n =>
    obtain ⟨-, s₁, run, -⟩ := Resolution.nested_ok h
    simp only [Resolution.step, Resolution.simpleName, noPrimitive] at run
    change Resolution.declaredType (Resolution.resolveWithin n) name [] hint {} _ = _ at run
    obtain ⟨out, s₂, substituted, looked⟩ := Gen.bind_ok run
    obtain ⟨now, s₃, got, chosen⟩ := Gen.bind_ok looked
    cases substituted
    cases declared : now.decls.kind? name hint with
    | some kind =>
      simp only [declared] at chosen
      cases chosen
      cases kind <;> rfl
    | none =>
      simp only [declared] at chosen
      obtain ⟨target, s₄, expanded, -⟩ := Gen.bind_ok chosen
      obtain ⟨later, s₅, gotLater, lookup⟩ := Gen.bind_ok expanded
      cases got
      cases gotLater
      obtain ⟨a, s₆, search, -⟩ := Gen.bind_ok lookup
      obtain ⟨found, -⟩ := Gen.orFail_ok search
      exact absurd (found.symm.trans undeclared) (by simp)

def normalTypes (aliases : AliasTable) : Retyping where
  type := id
  allows := TypeRef.isNormal
  param := fun _ => true
  payload := fun t ty => ∀ name hint, t = .named name [] hint → Primitive.ofName? name = none →
    aliases.find? name = none → ty.isNumber = false
  aliases := aliases
  depths := Eq
  quiet := True
  named := fun _ _ => true
  limit := fun _ => False
  limit_retold := fun limit _ => limit
  overflows := False

namespace normalTypes

theorem retype_id (σ : Substitution) : σ.retype id = σ := Table.map_id σ

theorem aliases_retype_id (aliases : AliasTable) : aliases.retype id = aliases := Table.map_id aliases

theorem admits_iff {σ : Substitution} : (normalTypes aliases).Admits σ ↔ σ.Normal := by
  refine ⟨fun admits t member => ?_, fun normal e member => ⟨rfl, ?_⟩⟩
  · obtain ⟨e, entered, rfl⟩ := List.mem_map.mp member
    exact (admits e entered).2
  · exact normal e.2 (List.mem_map_of_mem member)

theorem lawful : (normalTypes aliases).walk.Lawful where
  apply := fun {t σ} normal admits => by
    refine ⟨Substitution.isNormal_apply (admits_iff.mp admits) normal, ?_⟩
    change (σ.retype id).apply t = σ.apply t
    rw [retype_id]
  fits := fun _ => .of_eq rfl
  isIdentity := fun {params args} _ _ => congrArg (isIdentity params) (List.map_id args)
  encode := fun {t} _ => by
    change (aliases.retype id).encode t = aliases.encode t
    rw [aliases_retype_id]
  expands := fun {t} _ => by
    change (aliases.retype id).expands t = aliases.expands t
    rw [aliases_retype_id]
  function := fun {params ret variadic} normal => by
    change (TypeRef.function params ret variadic).isNormal = true at normal
    simp only [TypeRef.isNormal, Bool.and_eq_true] at normal
    exact ⟨normal.2, params, rfl⟩
  other := fun _ other => other
  sign := fun _ => rfl
  receiver := fun {σ owner} _ => by
    change Beside.Bounds _ _ ((σ.retype id).apply _).fits
    rw [retype_id]
    exact .of_eq rfl
  instanceName := fun _ _ => rfl
  push := Retyping.push_walk
  caught := .inr fun _ limit => limit

theorem structural : (normalTypes aliases).walk.Structural where
  primitive := fun _ => rfl
  pointer := fun {t depth} normal => by
    change (TypeRef.pointer t depth).isNormal = true at normal
    simp only [TypeRef.isNormal, Bool.and_eq_true] at normal
    exact ⟨normal.2, rfl⟩
  array := fun {t dims} normal => by
    change (TypeRef.array t dims).isNormal = true at normal
    simp only [TypeRef.isNormal, Bool.and_eq_true] at normal
    exact ⟨normal.2, rfl⟩
  tuple := fun {elems} normal =>
    ⟨List.all_eq_true.mpr (TypeRef.allNormal_iff.mp normal),
      congrArg TypeRef.tuple (List.map_id elems).symm⟩
  function := fun {params ret variadic} normal => by
    change (TypeRef.function params ret variadic).isNormal = true at normal
    simp only [TypeRef.isNormal, Bool.and_eq_true] at normal
    exact ⟨List.all_eq_true.mpr (TypeRef.allNormal_iff.mp normal.1), normal.2,
      congrArg (TypeRef.function · ret variadic) (List.map_id params).symm⟩
  applied := fun {name arg args hint} normal =>
    ⟨List.all_eq_true.mpr (TypeRef.allNormal_iff.mp normal),
      congrArg (TypeRef.named name · hint) (List.map_id (arg :: args)).symm⟩
  simple := fun _ _ => .inl rfl
  isSelfMapped := fun {σ} _ name => by
    change (σ.retype id).isSelfMapped name = _
    rw [retype_id]

theorem settles : (normalTypes aliases).walk.Settles := by
  intro n t s ty s' _ holds run name hint same noPrimitive undeclared
  subst same
  refine Resolution.named_isNumber noPrimitive ?_ run
  rw [holds.aliases]
  exact undeclared

theorem resolves : (normalTypes aliases).walk.Resolves :=
  structural.resolves lawful settles rfl

/-- All types of the session are normal, and those of the bodies that wait. -/
def Hold (aliases : AliasTable) (s : Session) : Prop :=
  (normalTypes aliases).walk.Holds s ∧ ∀ p ∈ s.pending, (normalTypes aliases).Waits p

theorem hold_after {α : Type} {x y : Gen α} (h : (normalTypes aliases).walk.beside.Answers x y)
    {s : Session} (hold : Hold aliases s) : Hold aliases (x.after s) := by
  have start : (normalTypes aliases).walk.Sessions s
      (s.retype id s.resolveDepth (s.pending.map (Pending.retype id))) :=
    ⟨rfl, rfl, ⟨rfl, hold.2⟩, hold.1⟩
  have ends := h start
  unfold Gen.after
  generalize x s = left at ends
  generalize y _ = right at ends
  cases ends with
  | done _ paired => exact ⟨paired.holds, paired.queue.2⟩
  | failed _ paired => exact ⟨paired.holds, paired.queue.2⟩
  | limit limit => exact limit.elim
  | overflow overflows => exact overflows.elim

end normalTypes

/-! ### Sessions over a module with normal types -/

def Module.isNormal (m : Module) : Bool := m.decls.all (normalTypes {}).decl

/-- What a generator does with normal types. -/
inductive Gen.Normal : {α : Type} → Gen α → Prop
  | resolve {t : TypeRef} {τ : Substitution} (normal : t.isNormal = true) (values : τ.Normal) :
    Normal (Gen.resolve t τ)
  | define (kind : DeclKind) (name : String) : Normal (Gen.define kind name)
  | dispatchLayout (name : String) : Normal (Gen.dispatchLayout name)
  | instantiate (kind : DeclKind) (name : String) {args : List TypeRef} {τ : Substitution}
    (normal : args.all TypeRef.isNormal = true) (values : τ.Normal) :
    Normal (Gen.instantiate kind name args τ)
  | functionTarget (name : String) {args : List TypeRef} {τ : Substitution}
    (normal : args.all TypeRef.isNormal = true) (values : τ.Normal) :
    Normal (Gen.functionTarget name args τ)
  | emitBody {sig : Signature} {body : List Stmt} {τ : Substitution}
    (signature : sig.all TypeRef.isNormal = true)
    (normal : allStmts TypeRef.isNormal (fun _ => true) body = true) (values : τ.Normal) :
    Normal (Gen.emitBody sig body τ)
  | generateDecl {d : Decl} (normal : (normalTypes {}).decl d = true) : Normal (Gen.generateDecl d)
  | drain : Normal Gen.drain

namespace Session

/-- The module is registered, and what has been done since was done with normal types and without
a collector. -/
inductive NormalOver (m : Module) : Session → Prop
  | start {options : Options} {collector : Option Collector}
    (quiet : (ofOptions options collector).activeCollector? = none) :
    NormalOver m ((ofOptions options collector).registerAll m)
  | step {α : Type} {x : Gen α} {s : Session} (normal : x.Normal) (h : NormalOver m s) :
    NormalOver m (x.after s)
  /-- Nothing is changed that holds types. -/
  | note {s s' : Session} (alike : Retyping.Alike s s') (h : NormalOver m s) : NormalOver m s'
  | dequeue {s : Session} {queue : PendingQueue} (sub : ∀ p ∈ queue, p ∈ s.pending)
    (h : NormalOver m s) : NormalOver m { s with pending := queue }

variable {m : Module} {s : Session}

open normalTypes

theorem NormalOver.holds (normal : m.isNormal = true) (h : s.NormalOver m) :
    Hold m.declarations.aliases s := by
  induction h with
  | start quiet =>
    have covers : (normalTypes m.declarations.aliases).Covers m _ _ := ⟨normal, rfl, rfl, fun _ => quiet⟩
    exact ⟨covers.sessions.holds, covers.sessions.queue.2⟩
  | note alike _ ih =>
    refine ⟨ih.1.alike alike, ?_⟩
    rw [alike.pending]
    exact ih.2
  | dequeue sub _ ih => exact ⟨{ ih.1 with }, fun p member => ih.2 p (sub p member)⟩
  | step normal _ ih =>
    cases normal with
    | resolve normal values => exact hold_after (resolves.answers normal (admits_iff.mpr values)) ih
    | define kind name => exact hold_after (Walk.define_pairs resolves lawful kind name) ih
    | dispatchLayout name => exact hold_after (Walk.dispatchLayout_pairs resolves name) ih
    | instantiate kind name normal values =>
      exact hold_after
        (Walk.instantiate_pairs lawful resolves kind name normal (admits_iff.mpr values)) ih
    | functionTarget name normal values =>
      exact hold_after
        (Walk.functionTarget_pairs lawful resolves
          (Walk.substituteAll_pairs lawful (admits_iff.mpr values) normal) name) ih
    | emitBody signature normal values =>
      exact hold_after
        (Retyping.emitBody_pairs lawful resolves signature normal (admits_iff.mpr values)) ih
    | generateDecl normal =>
      have allowed : (normalTypes m.declarations.aliases).decl _ = true := normal
      exact hold_after (Retyping.generateDecl_pairs lawful resolves allowed) ih
    | drain => exact hold_after (Retyping.drain_pairs lawful resolves) ih

end Session

end Backend
