import Backend.Proofs.Lowering.Body
import Backend.Proofs.Resolution.Substituted

/-!
Bodies under a substitution and substituted bodies. What a body asks for under a substitution it
also gets with the substitution carried out, so both are lowered to the same function
(`Gen.emitFunction_replaced`). The two runs leave the same session behind, but for the lambdas of
the body: these wait with the substitution, or with their types replaced.
-/

namespace Backend

variable {σ : Substitution} {s : Session} {symbol : String} {t : TypeRef} {types : List TypeRef}

/-- What waits on the left and on the right after a lambda has been lifted. -/
inductive Pending.Lifted (σ : Substitution) : Pending → Pending → Prop
  | same (p : Pending) : Lifted σ p p
  | lambda (symbol : String) (l : LiftedLambda) :
    Lifted σ ⟨symbol, .lambda l, σ⟩ ⟨symbol, .lambda (l.mapTypes σ.apply), {}⟩

/-- Queues that differ in the lambdas lifted since the queue was `base`. -/
def Pending.LiftedSince (σ : Substitution) (base q q' : PendingQueue) : Prop :=
  ∃ asked asked', q = base ++ asked ∧ q' = base ++ asked' ∧
    List.Forall₂ (Pending.Lifted σ) asked asked'

theorem Pending.LiftedSince.add {base q q' : PendingQueue} {p p' : Pending}
    (h : LiftedSince σ base q q') (lifted : p.Lifted σ p') :
    LiftedSince σ base (q ++ [p]) (q' ++ [p']) := by
  obtain ⟨asked, asked', rfl, rfl, all⟩ := h
  exact ⟨asked ++ [p], asked' ++ [p'], List.append_assoc _ _ _, List.append_assoc _ _ _,
    List.rel_append all (.cons lifted .nil)⟩

theorem Pending.LiftedSince.grows (base : PendingQueue) : Growing (LiftedSince σ base) :=
  fun _ _ p h _ => h.add (.same p)

/-- The types of an external function are the same under the substitution. -/
def ExternDecl.isClosed (σ : Substitution) (e : ExternDecl) : Bool :=
  e.types.all fun t => t.simpleNames.all fun name => (σ.find? name).isNone

/-- The walk from the session `s`, along which lambdas are lifted. -/
abbrev Substitution.walk (σ : Substitution) (s : Session) : Walk :=
  Gen.Follows.walk True σ s s.resolveDepth (Pending.LiftedSince σ s.pending)

/-- A body under the substitution beside the substituted body. If the body fails nothing is said. -/
def Substitution.pairing (σ : Substitution) (s : Session) (symbol : String) : Pairing where
  toBeside := (σ.walk s).beside
  left := σ
  right := {}
  image := σ.apply
  allows := TypeRef.isNormal
  calls := fun name => (s.decls.externs.find? name).all (ExternDecl.isClosed σ)
  method := fun _ m m' => m' = m.retype id ∧ (σ.walk s).function m = true
  symbol := symbol

namespace Gen

variable {α : Type}

theorem Follows.onWalk {post : α → Prop} {x y : Gen α} (h : Follows True σ post x y)
    (steady : s.Steady True σ) :
    (σ.walk s).beside.OnSession (fun a a' => a' = a ∧ post a) x y :=
  h.pairs (Pending.LiftedSince.grows _) steady (Nat.le_refl _)

theorem Follows.answers {post : α → Prop} {x y : Gen α} (h : Follows True σ post x y)
    (steady : s.Steady True σ) : (σ.walk s).beside.Answers x y :=
  (h.onWalk steady).imp fun _ _ both => both.1.symm

theorem substitute_left {V : TypeRef → TypeRef → Prop} {t t' : TypeRef}
    (fits : (σ.apply t).fits = true → t'.fits = true) (related : V (σ.apply t) t') :
    (σ.pairing s symbol).OnSession V (substitute σ t) (substitute {} t') := by
  intro _ _ paired
  unfold substitute
  have kept : Substitution.apply {} t' = t' := rfl
  rw [kept]
  by_cases fitting : (σ.apply t).fits = true
  · rw [if_pos fitting, if_pos (fits fitting)]
    exact .done related paired
  · rw [if_neg fitting]
    exact .limit trivial

theorem substitute_image (normal : t.isNormal = true) :
    Follows True σ (fun out => out = σ.replace t) (substitute σ t) (substitute {} (σ.apply t)) := by
  rw [Substitution.apply_eq_replace σ normal]
  unfold substitute
  rw [Substitution.apply_eq_replace σ normal]
  exact .ite (fun _ => .pure rfl) fun _ => .throw

theorem applyAll_eq_replaceAll (normal : TypeRef.allNormal types = true) :
    σ.applyAll types = σ.replaceAll types := by
  rw [Substitution.replaceAll_eq_map, Substitution.applyAll]
  exact List.map_congr_left fun t member =>
    Substitution.apply_eq_replace σ (TypeRef.isNormal_of_mem normal member)

def VariantsSettled (σ : Substitution) (variants : Table VariantLayout) : Prop :=
  ∀ v ∈ variants.values, ∀ p ∈ v.payload.zip v.sources, Settled True σ p.2 p.1

theorem enumLayout_settled (ground : σ.Ground) (name : String) :
    Follows True σ (fun l => VariantsSettled σ l.variants) (enumLayout name) (enumLayout name) := by
  have defined : Agrees True σ (define .enum name) (define .enum name) :=
    .of_pairs fun _ _ _ grows steady le => Walk.define_pairs
      ((Resolution.resolveWithin_follows ground (Nat.le_refl _)).resolvers grows steady le)
      (shallower_lawful grows) .enum name
  refine defined.bind fun _ _ => .reads (fun _ _ _ => rfl) fun s steady => .orFail fun l found => ?_
  intro v member
  exact (steady.holds.payloads l (Table.mem_values_of_find? found) trivial v member).2

theorem args_image (ground : σ.Ground) (normal : TypeRef.allNormal types = true) :
    Follows True σ (fun out => TypeRef.allNormal out = true) (substituteAll σ types)
      (substituteAll {} (σ.applyAll types)) := by
  rw [applyAll_eq_replaceAll normal]
  refine (Resolution.substituteAll_image normal).weaken fun out same => ?_
  rw [same]
  exact Substitution.allNormal_replaceAll ground.normal types normal

theorem arguments (ground : σ.Ground) (normal : types.all TypeRef.isNormal = true)
    (steady : s.Steady True σ) : (σ.walk s).Arguments σ {} types (σ.applyAll types) := by
  rw [← TypeRef.allNormal_eq_all] at normal
  refine ((args_image ground normal).onWalk steady).imp ?_
  rintro out _ ⟨rfl, outNormal⟩
  rw [TypeRef.allNormal_eq_all] at outNormal
  exact ⟨(List.map_id _).symm, outNormal⟩

end Gen

/-! ### What a body asks for -/

namespace Substitution

open Gen

theorem Ground.concrete (ground : σ.Ground) {t : TypeRef} (normal : t.isNormal = true) :
    (σ.pairing s symbol).Concrete (σ.replace t) (σ.replace t) := by
  have again := ground.replace_replace normal
  have replaced := isNormal_replace ground.normal t normal
  cases shape : σ.replace t with
  | function params ret variadic =>
    rw [shape] at again replaced
    simp only [TypeRef.isNormal, Bool.and_eq_true] at replaced
    have kept : σ.apply ret = ret := by
      rw [apply_eq_replace σ replaced.2]
      rw [replace] at again
      exact (TypeRef.function.inj again).2.1
    have concrete : (σ.pairing s symbol).Concrete (.function params ret variadic)
        (.function params (σ.apply ret) variadic) := .function replaced.2
    rwa [kept] at concrete
  | _ => exact .other rfl rfl rfl

theorem reads_source {t : TypeRef} {ty : IrType} (settled : Settled True σ t ty) :
    (σ.pairing s symbol).Reads ty t t := by
  refine substitute_left (fun fits => ?_) fun number => ?_
  · rw [apply_eq_replace σ (settled trivial).1] at fits
    exact fits_of_fits_replace t fits
  · rw [apply_eq_replace σ (settled trivial).1]
    refine (isUnsigned_replace (settled trivial).1 fun name hint same => ?_).symm
    by_contra param
    rw [(settled trivial).2 name hint same param] at number
    cases number

theorem enums_self {l : EnumLayout} (settled : VariantsSettled σ l.variants) :
    (σ.pairing s symbol).Enums l l where
  name := rfl
  dataSize := rfl
  variants := List.forall₂_same.mpr fun e member =>
    have known : e.2 ∈ l.variants.values := List.mem_map_of_mem member
    ⟨rfl, rfl, rfl, List.forall₂_same.mpr fun field inside =>
      ⟨rfl, reads_source (settled e.2 known field inside)⟩⟩

theorem apply_of_closed {t : TypeRef} (normal : t.isNormal = true)
    (closed : t.simpleNames.all (fun name => (σ.find? name).isNone) = true) : σ.apply t = t := by
  rw [apply_eq_replace σ normal]
  refine replace_eq_self t normal fun name member => ?_
  exact Option.isNone_iff_eq_none.mp (List.all_eq_true.mp closed name member)

theorem Ground.externs_self (ground : σ.Ground) (steady : s.Steady True σ) {e : ExternDecl}
    (normal : (σ.walk s).external e = true) (closed : e.isClosed σ = true) :
    (σ.pairing s symbol).Externs e (e.retype id) where
  name := rfl
  variadic := rfl
  signature := by
    rw [ExternDecl.retype_id]
    simp only [Retyping.external, Bool.and_eq_true] at normal
    simp only [ExternDecl.isClosed, ExternDecl.types, List.all_cons, Bool.and_eq_true] at closed
    have resolved {t : TypeRef} (normal : t.isNormal = true)
        (closed : t.simpleNames.all (fun name => (σ.find? name).isNone) = true) :
        (σ.pairing s symbol).Answers (Gen.resolve t σ) (Gen.resolve t {}) := by
      have image : Agrees True σ _ _ := resolve_image ground normal
      rw [apply_of_closed normal closed] at image
      exact image.answers steady
    refine Beside.OnSession.andThen (.mapM_same (List.forall₂_same.mpr fun t member => ?_)) fun _ =>
      (resolved normal.2 closed.1).andThen fun _ => .pure rfl
    obtain ⟨f, given, rfl⟩ := List.mem_map.mp member
    exact resolved (List.all_eq_true.mp normal.1 f given) (List.all_eq_true.mp closed.2 _ member)

theorem queueLambda_lifted (name : String) (l : LiftedLambda) :
    (σ.pairing s symbol).OnBody Eq (Emit.queueLambda name l)
      (Emit.queueLambda name (l.mapTypes σ.apply)) := by
  refine .reading fun f locals frames => ?_
  rw [frames.subst]
  refine Pairing.lift_same (.update fun t t' paired => ⟨?_, paired.depth, ?_, ?_⟩)
  · refine Eq.trans ?_ (Session.retype_id _ _ _).symm
    have same := Walk.Sessions.moved paired
    rw [same]
    rfl
  · exact Pending.LiftedSince.add paired.queue (.lambda name l)
  · have held := Walk.Sessions.holds paired
    exact { held with }

theorem Ground.lawful (ground : σ.Ground) (steady : s.Steady True σ) (symbol : String) :
    (σ.pairing s symbol).Lawful := by
  have law : (σ.walk s).Lawful := shallower_lawful (Pending.LiftedSince.grows _)
  have hr : (σ.walk s).Resolves :=
    (Resolution.resolveWithin_follows ground (Nat.le_refl _)).resolvers
      (Pending.LiftedSince.grows _) steady (Nat.le_refl _)
  exact {
    law.questions hr with
    externs := fun {t t'} paired {name} allowed => by
      rw [Walk.Sessions.same paired]
      simp only [Session.retype, Declarations.retype, Table.find?_map]
      cases found : t.decls.externs.find? name with
      | none => exact .none
      | some e =>
        have holds := Walk.Sessions.holds paired
        have normal := holds.decls.externs e (Table.mem_values_of_find? found)
        change (s.decls.externs.find? name).all (ExternDecl.isClosed σ) = true at allowed
        rw [← holds.decls.external, found] at allowed
        exact .some (ground.externs_self steady normal allowed)
    resolve := fun normal => (resolve_image ground normal).answers steady
    substitute := fun normal =>
      ((substitute_image normal).onWalk steady).imp fun out out' ⟨same, replaced⟩ => by
        rw [same, replaced]
        exact ground.concrete normal
    receiver := fun owner ty => substitute_left (fun _ => rfl) fun number => by cases number
    enumLayout := fun name =>
      ((enumLayout_settled ground name).onWalk steady).imp fun l l' ⟨same, settled⟩ => by
        rw [same]
        exact enums_self settled
    functionTarget := fun name {types} normal =>
      Walk.functionTarget_pairs law hr (arguments ground normal steady) name
    methodTarget := by
      rintro owner m _ types ⟨rfl, allowed⟩ normal
      exact Walk.methodTarget_pairs law hr (arguments ground normal steady) trivial owner
        (Walk.signature_of_function allowed)
    queueLambda := fun id {l} _ => queueLambda_lifted _ l }

end Substitution

/-- If a body is emitted under a substitution, the substituted body is emitted without one. The
same session is left behind, apart from the lambdas of the body, which wait to be emitted. -/
theorem Gen.emitFunction_replaced (ground : σ.Ground) {s s₁ : Session} (steady : s.Steady True σ)
    {sig : Signature} (hs : sig.all TypeRef.isNormal = true) {body : List Stmt}
    (hb : allStmts TypeRef.isNormal (fun name =>
      (s.decls.externs.find? name).all (ExternDecl.isClosed σ)) body = true)
    (run : emitFunction sig body σ s = .ok () s₁) :
    ∃ asked asked', s₁.pending = s.pending ++ asked ∧
      List.Forall₂ (Pending.Lifted σ) asked asked' ∧
      emitFunction (sig.mapTypes σ.apply) (mapStmts σ.apply body) {} s =
        .ok () { s₁ with pending := s.pending ++ asked' } := by
  have law := ground.lawful steady sig.symbol
  have start : (σ.walk s).Sessions s s :=
    ⟨(s.retype_id _ _).symm, ⟨rfl, rfl⟩, ⟨[], [], (List.append_nil _).symm,
      (List.append_nil _).symm, .nil⟩, steady.holds.between rfl rfl⟩
  have answers : (σ.pairing s sig.symbol).Answers (emitFunction sig body σ)
      (emitFunction (sig.mapTypes σ.apply) (mapStmts σ.apply body) {}) :=
    law.emitFunction_pairs (fun _ => Walk.updates_alike (R := σ.walk s) (fun _ _ _ => rfl)
      (fun _ => rfl) fun _ => by constructor <;> rfl) rfl hs hb
  have ends := answers start
  rw [run] at ends
  generalize emitFunction (sig.mapTypes σ.apply) (mapStmts σ.apply body) {} s = right at ends
  cases ends with
  | done _ paired =>
    obtain ⟨asked, asked', left, right, lifted⟩ := Walk.Sessions.queue paired
    have same := Walk.Sessions.moved paired
    rw [right, ← (Walk.Sessions.depth paired).1] at same
    exact ⟨asked, asked', left, lifted, by rw [same]; rfl⟩
  | overflow overflows => exact overflows.elim

end Backend
