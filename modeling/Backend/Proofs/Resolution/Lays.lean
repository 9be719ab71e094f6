import Backend.Proofs.Layout.Graph
import Backend.Proofs.Session.Instances
import Backend.Proofs.Session.Replies

/-!
What resolving and laying out types does to a session, said once. `Session.Lays` lists the changes
that resolution makes by its own hand, each with what is known at the time. A course that allows
them is kept by resolution, definition and instantiation as a whole, at every level of nesting.
-/

namespace Backend

open Session (Course)
open Gen (Keeps KeepsFrom)

namespace Template

def methods : Template → List FunctionDecl
  | .struct d => d.methods
  | .enum d => d.methods

def fits : Template → Bool
  | .struct d => d.fits
  | .enum d => d.fits

def made (t : Template) (args : List TypeRef) (name : String) : Template :=
  t.concrete (.ofParams t.typeParams args) name

theorem declare_run (t : Template) (σ : Substitution) (name : String) (s : Session) :
    t.declare σ name s =
      if (t.concrete σ name).fits then
        .ok (t.concrete σ name).methods { s with decls := s.decls.declare name (t.concrete σ name) }
      else .error .overflow s := by
  cases t with
  | struct d =>
    by_cases fits : (σ.applyStruct d name).fits
    · simp only [declare, concrete, Template.fits, fits]; rfl
    · simp only [declare, concrete, Template.fits, fits]; rfl
  | enum d =>
    by_cases fits : (σ.applyEnum d name).fits
    · simp only [declare, concrete, Template.fits, fits]; rfl
    · simp only [declare, concrete, Template.fits, fits]; rfl

theorem find_ok {kind : DeclKind} {name : String} {t : Template} {s s' : Session}
    (run : find kind name s = .ok t s') : s.decls.template? kind name = some t ∧ s' = s := by
  cases kind with
  | struct =>
    obtain ⟨now, s₁, got, rest⟩ := Gen.bind_ok run
    cases got
    obtain ⟨d, s₂, looked, done⟩ := Gen.bind_ok rest
    obtain ⟨found, rfl⟩ := Gen.orFail_ok looked
    obtain ⟨rfl, rfl⟩ := Gen.pure_ok done
    exact ⟨Declarations.template?_struct.mpr found, rfl⟩
  | enum =>
    obtain ⟨now, s₁, got, rest⟩ := Gen.bind_ok run
    cases got
    obtain ⟨d, s₂, looked, done⟩ := Gen.bind_ok rest
    obtain ⟨found, rfl⟩ := Gen.orFail_ok looked
    obtain ⟨rfl, rfl⟩ := Gen.pure_ok done
    exact ⟨Declarations.template?_enum.mpr found, rfl⟩

theorem find_of_template? {kind : DeclKind} {name : String} {t : Template} {s : Session}
    (found : s.decls.template? kind name = some t) : find kind name s = .ok t s := by
  cases kind with
  | struct =>
    obtain ⟨d, declared, rfl⟩ := Option.map_eq_some_iff.mp found
    change (orFail (s.decls.structs.find? name) _ >>= fun d => pure (.struct d) : Gen Template) s = _
    rw [declared]
    rfl
  | enum =>
    obtain ⟨d, declared, rfl⟩ := Option.map_eq_some_iff.mp found
    change (orFail (s.decls.enums.find? name) _ >>= fun d => pure (.enum d) : Gen Template) s = _
    rw [declared]
    rfl

end Template

/-! ### Changes -/

/-- The bodies that types and expressions ask for: instances of functions, and methods. -/
inductive Declarations.Offers (D : Declarations) : Pending → Prop where
  | function {name : String} {f : FunctionDecl} {args : List TypeRef}
    (found : D.functions.find? name = some f) (arity : f.typeParams.length = args.length) :
    Offers D {
      symbol := D.aliases.functionName name
        ((Substitution.ofParams f.typeParams args).applyAll f.paramTypes) args
      source := .function name
      substitution := .ofParams f.typeParams args }
  | method (owner name : String) (params typeArgs : List TypeRef) (σ : Substitution) :
    Offers D {
      symbol := D.aliases.methodName owner name params typeArgs
      source := .method owner name
      substitution := σ }

namespace Resolution

def tableEntry (resolve : Resolver) (name method : String) : Gen (IrType × String) := do
  let (owner, m) ← orFail (← findMethod resolve name method) (.missingMethod name method)
  let symbol ← Gen.methodSymbol owner m []
  return (← methodType resolve owner m {}, symbol)

theorem emitDispatchTable_eq (resolve : Resolver) (name : String) :
    emitDispatchTable resolve name = (do
      let slots ← dispatchLayout resolve name
      let entries ← slots.mapM (tableEntry resolve name)
      Gen.modifyOutput fun o => o.addDispatchTable { owner := name, entries }) :=
  rfl

abbrev definerAt (levels budget : Nat) : Definer := defineWithin (resolveWithin levels) budget

/-- What is left to do once the layout of a struct is added. -/
def finishStruct (resolve : Resolver) (define : Definer) (name : String)
    (fields : List (String × IrType)) (location : Location) : Gen Unit := do
  describeStruct define name fields location
  unless (← dispatchLayout resolve name).isEmpty do
    emitDispatchTable resolve name

end Resolution

namespace Session

open Resolution

def withInstance (s : Session) (t : Template) (base : String) (args : List TypeRef)
    (name : String) : Session :=
  { s with
    instances := (InstanceTable.begin s.instances base args name).2
    decls := s.decls.declare name (t.made args name)
    ownerSubst := s.ownerSubst.insert name (.ofParams t.typeParams args) }

def withSlots (s : Session) (name : String) (slots : List String) : Session :=
  { s with layouts.dispatch := s.layouts.dispatch.insert name slots }

def withStruct (s : Session) (layout : StructLayout) : Session :=
  { s with
    output := s.output.addTypeDef layout.definition
    layouts.structs := s.layouts.structs.insert layout.name layout }

def withEnum (s : Session) (layout : EnumLayout) : Session :=
  { s with
    output := s.output.addTypeDef layout.definition
    layouts.enums := s.layouts.enums.insert layout.name layout }

/-- A new instance of a template, which its arguments do not leave as it is. -/
structure Makes (s : Session) (kind : DeclKind) (t : Template) (base : String)
    (args : List TypeRef) (name : String) : Prop where
  template : s.decls.template? kind base = some t
  concrete : isIdentity t.typeParams args = false
  arity : t.typeParams.length = args.length
  named : name = s.decls.aliases.genericName base args
  fresh : (InstanceTable.begin s.instances base args name).1 = .fresh

/-- What a definition relies on keeps to the course. -/
structure Level (C : Course) (levels budget : Nat) : Prop where
  resolve : ∀ ty σ, Keeps C (resolveWithin levels ty σ)
  define : ∀ kind name, Keeps C (definerAt levels budget kind name)
  slots : ∀ name, Keeps C (dispatchLayout (resolveWithin levels) name)

/-- What resolution does to a session by its own hand. -/
structure Lays (C : Course) : Prop where
  forward : ∀ s name, C.goes s { s with output := s.output.addForward name }
  request : ∀ {s base args body}, s.decls.Offers body →
    KeepsFrom C s s (Gen.requestBody base args body)
  nest : ∀ {s s'}, C.goes { s with resolveDepth := s.resolveDepth + 1 } s' →
    C.goes s { s' with resolveDepth := s'.resolveDepth - 1 }
  nestHalts : ∀ {fatal s s'}, C.halts fatal { s with resolveDepth := s.resolveDepth + 1 } s' →
    C.halts fatal s { s' with resolveDepth := s'.resolveDepth - 1 }
  mark : ∀ {s s' name}, name ∉ s.defining →
    C.goes { s with defining := name :: s.defining } s' →
    C.goes s { s' with defining := s'.defining.erase name }
  markHalts : ∀ {fatal s s' name}, name ∉ s.defining →
    C.halts fatal { s with defining := name :: s.defining } s' →
    C.halts fatal s { s' with defining := s'.defining.erase name }
  slots : ∀ {levels n s s₁ name decl inherited}, s.layouts.dispatch.find? name = none →
    s.decls.structs.find? name = some decl →
    inheritedSlots (resolveWithin levels) (dispatchLayoutWithin (resolveWithin levels) n)
      decl.parent s = .ok inherited s₁ →
    C.goes s s₁ → C.goes s (s₁.withSlots name (dispatchSlots inherited decl.methods))
  /-- A struct is added, described and gets its table at once. -/
  struct : ∀ {levels budget s s₁ name decl fields}, Level C levels budget →
    s.layouts.structs.find? name = none →
    s.decls.structs.find? name = some decl → decl.isTemplate = false →
    whileDefining name "struct contains itself by value"
      (structFields (resolveWithin levels) (definerAt levels budget) name decl) s = .ok fields s₁ →
    C.goes s s₁ →
    KeepsFrom C s
      (s₁.withStruct { name, fields, extent := s₁.layouts.aggregate (fields.map Prod.snd) })
      (finishStruct (resolveWithin levels) (definerAt levels budget) name fields decl.location)
  enum : ∀ {levels budget s s₁ name decl variants dataSize}, Level C levels budget →
    s.layouts.enums.find? name = none →
    s.decls.enums.find? name = some decl → decl.isTemplate = false →
    whileDefining name "enum contains itself by value"
      (variantLayouts (resolveWithin levels) (definerAt levels budget) decl.variants 0 {} 0) s =
        .ok (variants, dataSize) s₁ →
    C.goes s s₁ →
    C.goes s (s₁.withEnum
      { name, variants, dataSize, extent := s₁.layouts.aggregate (enumTypes dataSize) })
  make : ∀ {levels s s₁ s₂ kind t base args name}, s.Makes kind t base args name →
    Resolution.define (resolveWithin levels) kind name (s.withInstance t base args name) =
      .ok () s₁ →
    queueMethods name (t.made args name).methods (.ofParams t.typeParams args) s₁ = .ok () s₂ →
    C.goes (s.withInstance t base args name) s₂ →
    C.goes s { s₂ with instances := InstanceTable.complete s₂.instances name }
  makeHalts : ∀ {fatal s s' kind t base args name}, s.Makes kind t base args name →
    C.halts fatal (s.withInstance t base args name) s' → C.halts fatal s s'
  /-- The substituted declaration is out of range. -/
  begin : ∀ {s kind t base args name}, s.Makes kind t base args name →
    C.halts true s { s with instances := (InstanceTable.begin s.instances base args name).2 }

end Session

/-! ### Instances and table entries -/

namespace Gen

theorem beginInstance_run (base : String) (args : List TypeRef) (name : String) (s : Session) :
    beginInstance base args name s = .ok (InstanceTable.begin s.instances base args name).1
      { s with instances := (InstanceTable.begin s.instances base args name).2 } := rfl

theorem requestBody_run (base : String) (args : List TypeRef) (body : Pending) (s : Session) :
    requestBody base args body s = .ok ()
      { s with
        instances := (InstanceTable.request s.instances base args body.symbol).2
        pending :=
          if (InstanceTable.request s.instances base args body.symbol).1 then s.pending.push body
          else s.pending } := by
  rw [requestBody, get_bind]
  simp only [bind, EStateM.bind]
  cases (InstanceTable.request s.instances base args body.symbol).1 <;> rfl

end Gen

theorem Resolution.tableEntry_keeps {C : Course} [C.Lawful] {resolve : Resolver}
    (h : ∀ ty σ, Keeps C (resolve ty σ)) (name method : String) :
    Keeps C (tableEntry resolve name method) :=
  (findMethod_keeps h _ _).bind fun _ => (Keeps.orFail _ _).bind fun _ =>
    (Gen.methodSymbol_keeps _ _ _).bind fun _ => (methodType_keeps h _ _ _).bind fun _ => .pure _

/-! ### Every level -/

namespace Session.Level

open Resolution

variable {C : Course} [C.Lawful] {levels budget : Nat} (level : Level C levels budget)

include level

theorem ownFields (owner : String) (fields : List Field) :
    Keeps C (fields.mapM (ownField (resolveWithin levels) (definerAt levels budget) owner)) :=
  .mapM fun _ _ => ownField_keeps level.resolve level.define _ _

theorem structFields (name : String) (decl : StructDecl) :
    Keeps C (structFields (resolveWithin levels) (definerAt levels budget) name decl) :=
  (inheritedFields_keeps level.resolve level.define _).bind fun _ => (level.slots _).bind fun _ =>
    (level.ownFields _ _).bind fun _ => .pure _

theorem variantLayouts (vs : List Variant) :
    Keeps C (variantLayouts (resolveWithin levels) (definerAt levels budget) vs 0 {} 0) :=
  variantLayouts_keeps level.resolve level.define vs 0 {} 0

theorem tableEntries (name : String) (slots : List String) :
    Keeps C (slots.mapM (tableEntry (resolveWithin levels) name)) :=
  .mapM fun method _ => tableEntry_keeps level.resolve name method

/-- Description and table may be looked at one after the other. -/
theorem finishes {s s' : Session} {name : String} {fields : List (String × IrType)}
    {location : Location}
    (described : KeepsFrom C s s' (describeStruct (definerAt levels budget) name fields location))
    (table : ∀ {t t₁ t₂ slots entries},
      dispatchLayout (resolveWithin levels) name t = .ok slots t₁ →
      slots.mapM (tableEntry (resolveWithin levels) name) t₁ = .ok entries t₂ →
      C.goes t t₁ → C.goes t₁ t₂ →
      C.goes t { t₂ with output := t₂.output.addDispatchTable { owner := name, entries } }) :
    KeepsFrom C s s'
      (finishStruct (resolveWithin levels) (definerAt levels budget) name fields location) := by
  refine described.bind fun _ s₂ _ reached => ?_
  refine ((level.slots name).from reached).bind fun _ s₃ _ reached => ?_
  split
  · exact .pure reached _
  refine .behind reached ?_
  rw [emitDispatchTable_eq]
  refine (level.slots name s₃).bind fun slots t₁ run reached => ?_
  have looked := level.tableEntries name slots t₁
  rw [KeepsFrom] at looked
  cases ran : slots.mapM (tableEntry (resolveWithin levels) name) t₁ with
  | error e t₂ =>
    rw [ran] at looked
    exact .of_error (Gen.bind_of_error ran) (Course.Lawful.after reached looked)
  | ok entries t₂ =>
    rw [ran] at looked
    exact .past ran (table run ran reached looked)

end Session.Level

namespace Session.Lays

open Resolution

variable {C : Course} [C.Lawful] (lays : Session.Lays C) {levels budget : Nat}

include lays

theorem queueMethods (owner : String) (methods : List FunctionDecl) (σ : Substitution) :
    Keeps C (queueMethods owner methods σ) :=
  .forM fun m _ => Gen.named_keeps (m.paramTypes ++ [])
    (fun a => a.methodName owner m.name m.paramTypes [])
    fun _ => lays.request (.method owner m.name m.paramTypes [] σ)

section

variable (hr : ∀ ty σ, Keeps C (resolveWithin levels ty σ))

include hr

theorem dispatchLayoutWithin (n : Nat) (name : String) :
    Keeps C (dispatchLayoutWithin (resolveWithin levels) n name) := by
  induction n generalizing name with
  | zero => exact .throw _
  | succ n ih =>
    refine fun s => .reading ?_
    dsimp only
    split
    · exact .pure (Course.Lawful.refl s) _
    case h_2 missing =>
      refine .reading (.looking (Course.Lawful.refl s) fun decl found => ?_)
      have inherited : Keeps C (inheritedSlots (resolveWithin levels)
          (Resolution.dispatchLayoutWithin (resolveWithin levels) n) decl.parent) := by
        cases decl.parent with
        | none => exact .pure _
        | some parent => exact (structName_keeps hr _ _).bind fun above => ih above
      refine (inherited s).bind fun slots s₁ run reached => ?_
      exact .past rfl (.pure (lays.slots missing found run reached) _)

theorem dispatchLayout (name : String) : Keeps C (dispatchLayout (resolveWithin levels) name) :=
  Keeps.bind (Keeps.get.bind fun _ => .pure _) fun _ => lays.dispatchLayoutWithin hr _ name

omit hr in
theorem whileDefining {α : Type} (name context : String) {x : Gen α} (h : Keeps C x) :
    Keeps C (whileDefining name context x) := by
  refine fun s => .reading ?_
  split
  · exact .fail (Course.Lawful.refl s) _
  case isFalse idle => exact .around (h _) (lays.mark idle) (lays.markHalts idle)

theorem defineStruct (h : ∀ kind name, Keeps C (definerAt levels budget kind name))
    (name : String) :
    Keeps C (defineStruct (resolveWithin levels) (definerAt levels budget) name) := by
  refine fun s => .reading ?_
  split
  · exact .pure (Course.Lawful.refl s) _
  case isFalse missing =>
    refine .reading (.looking (Course.Lawful.refl s) fun decl found => ?_)
    split
    · exact .fail (Course.Lawful.refl s) _
    case isFalse plain =>
      have level : Level C levels budget := ⟨hr, h, lays.dispatchLayout hr⟩
      refine (lays.whileDefining name _ (level.structFields name decl) s).bind
        fun fields s₁ run reached => .reading (.past rfl ?_)
      have absent : s.layouts.structs.find? name = none := by simpa [Table.contains] using missing
      exact lays.struct level absent found (by simpa using plain) run reached

theorem defineEnum (h : ∀ kind name, Keeps C (definerAt levels budget kind name))
    (name : String) : Keeps C (defineEnum (resolveWithin levels) (definerAt levels budget) name) := by
  refine fun s => .reading ?_
  split
  · exact .pure (Course.Lawful.refl s) _
  case isFalse missing =>
    refine .reading (.looking (Course.Lawful.refl s) fun decl found => ?_)
    split
    · exact .fail (Course.Lawful.refl s) _
    case isFalse plain =>
      have level : Level C levels budget := ⟨hr, h, lays.dispatchLayout hr⟩
      refine (lays.whileDefining name _ (level.variantLayouts decl.variants) s).bind
        fun ⟨variants, dataSize⟩ s₁ run reached => ?_
      have absent : s.layouts.enums.find? name = none := by simpa [Table.contains] using missing
      exact lays.enum level absent found (by simpa using plain) run reached

theorem defineWithin (budget : Nat) (kind : DeclKind) (name : String) :
    Keeps C (definerAt levels budget kind name) := by
  induction budget generalizing kind name with
  | zero => exact .throw _
  | succ budget ih =>
    cases kind with
    | struct => exact lays.defineStruct hr ih name
    | enum => exact lays.defineEnum hr ih name

theorem define (kind : DeclKind) (name : String) :
    Keeps C (define (resolveWithin levels) kind name) :=
  Keeps.get.bind fun _ => lays.defineWithin hr _ kind name

/-! ### Instances -/

omit lays hr in
theorem find (kind : DeclKind) (name : String) : Keeps C (Template.find kind name) := by
  cases kind with
  | struct => exact Keeps.get.bind fun _ => (Keeps.orFail _ _).bind fun _ => .pure _
  | enum => exact Keeps.get.bind fun _ => (Keeps.orFail _ _).bind fun _ => .pure _

theorem makeInstance {s : Session} {kind : DeclKind} {t : Template} {base : String}
    {args : List TypeRef} {name : String} (makes : s.Makes kind t base args name) :
    KeepsFrom C s { s with instances := (InstanceTable.begin s.instances base args name).2 }
      (makeInstance (resolveWithin levels) kind t args name) := by
  unfold Resolution.makeInstance
  dsimp only
  cases declared : t.declare (.ofParams t.typeParams args) name
      { s with instances := (InstanceTable.begin s.instances base args name).2 } with
  | error e s₁ =>
    rw [t.declare_run] at declared
    split at declared
    · cases declared
    case isFalse large =>
      cases declared
      refine .of_error (Gen.bind_of_error (h := .overflow) ?_) (lays.begin makes)
      rw [t.declare_run, if_neg large]
  | ok methods s₁ =>
    have run := declared
    rw [t.declare_run] at declared
    split at declared
    case isFalse => cases declared
    case isTrue =>
    cases declared
    refine .past run (.past rfl ?_)
    -- the instance is open now: whatever happens is compared with where it was opened
    change KeepsFrom C s (s.withInstance t base args name) _
    have defined := lays.define hr kind name (s.withInstance t base args name)
    rw [KeepsFrom] at defined
    cases laid : Resolution.define (resolveWithin levels) kind name
        (s.withInstance t base args name) with
    | error e s₂ =>
      rw [laid] at defined
      exact .of_error (Gen.bind_of_error laid) (lays.makeHalts makes defined)
    | ok u s₂ =>
      rw [laid] at defined
      refine .past laid ?_
      have waiting := (lays.queueMethods name (t.made args name).methods
        (.ofParams t.typeParams args)).from defined
      rw [KeepsFrom] at waiting
      cases queued : Backend.queueMethods name (t.made args name).methods
          (.ofParams t.typeParams args) s₂ with
      | error e s₃ =>
        rw [queued] at waiting
        exact .of_error (Gen.bind_of_error queued) (lays.makeHalts makes waiting)
      | ok u s₃ =>
        rw [queued] at waiting
        exact .past queued (lays.make makes laid queued waiting)

theorem instantiate (kind : DeclKind) (base : String) (args : List TypeRef)
    (context : Substitution) :
    Keeps C (instantiate (resolveWithin levels) kind base args context) := by
  refine (Gen.substituteAll_keeps _ _).bind fun args s => ?_
  refine (find kind base s).bind fun t s₁ looked reached => ?_
  obtain ⟨found, same⟩ := Template.find_ok looked
  subst same
  split
  · exact .pure reached _
  case isFalse concrete =>
    refine ((Gen.checkArity_keeps base t.typeParams args).from reached).bind
      fun _ s₂ checked reached => ?_
    obtain ⟨arity, same⟩ := Gen.checkArity_ok checked
    subst same
    refine ((Gen.naming_keeps args _).from reached).bind fun name s₃ given reached => ?_
    obtain ⟨named, same⟩ := Gen.naming_ok given
    subst same
    refine .past (Gen.beginInstance_run base args name s₃) ?_
    split
    case h_1 state begun =>
      rw [InstanceTable.begin_existing begun]
      exact .pure reached _
    case h_2 begun =>
      have makes : s₃.Makes kind t base args name :=
        ⟨found, by simpa using concrete, arity, named, begun⟩
      exact (lays.makeInstance hr makes).bind fun _ _ _ reached => .pure reached _

theorem concreteType (kind : DeclKind) (name : String) (args : List TypeRef) :
    Keeps C (concreteType (resolveWithin levels) kind name args) :=
  .ite (.pure _) ((lays.instantiate hr _ _ _ _).bind fun _ => .pure _)

omit lays hr in
theorem aliasTarget (name : String) (args : List TypeRef) : Keeps C (aliasTarget name args) :=
  Keeps.get.bind fun _ => (Keeps.orFail _ _).bind fun _ =>
    (Gen.checkArity_keeps _ _ _).bind fun _ => Gen.substitute_keeps _ _

theorem declaredType (name : String) (args : List TypeRef) (hint : Option DeclKind)
    (σ : Substitution) : Keeps C (declaredType (resolveWithin levels) name args hint σ) := by
  refine (Gen.substituteAll_keeps _ _).bind fun args => Keeps.get.bind fun s => ?_
  split
  · exact lays.concreteType hr _ _ _
  · exact (aliasTarget _ _).bind fun _ => hr _ _

theorem simpleName (name : String) (hint : Option DeclKind) (σ : Substitution) :
    Keeps C (simpleName (resolveWithin levels) name hint σ) := by
  unfold Resolution.simpleName
  split
  · exact .pure _
  · split
    · exact (Keeps.modify fun s => lays.forward s name).bind fun _ => .pure _
    · split
      · exact hr _ _
      · exact lays.declaredType hr _ _ _ _

theorem step (ty : TypeRef) (σ : Substitution) : Keeps C (step (resolveWithin levels) ty σ) := by
  cases ty with
  | primitive p => exact .pure _
  | pointer inner depth => exact (hr _ _).bind fun _ => .pure _
  | array inner dims => exact (hr _ _).bind fun _ => .pure _
  | tuple elems => exact (Keeps.mapM fun _ _ => hr _ _).bind fun _ => .pure _
  | function params ret variadic =>
    exact (hr _ _).bind fun _ => (Keeps.mapM fun _ _ => hr _ _).bind fun _ => .pure _
  | named name args hint =>
    cases args with
    | nil => exact lays.simpleName hr _ _ _
    | cons arg rest => exact lays.declaredType hr _ _ _ _

end

theorem nested {α : Type} (ty : TypeRef) {x : Gen α} (h : Keeps C x) : Keeps C (nested ty x) := by
  refine fun s => .reading ?_
  split
  · exact .fail (Course.Lawful.refl s) _
  · exact .around (h _) lays.nest lays.nestHalts

theorem resolveWithin (levels : Nat) (ty : TypeRef) (σ : Substitution) :
    Keeps C (resolveWithin levels ty σ) := by
  induction levels generalizing ty σ with
  | zero => exact .throw _
  | succ levels ih => exact lays.nested ty (lays.step ih ty σ)

theorem level (levels budget : Nat) : Level C levels budget where
  resolve := lays.resolveWithin levels
  define := lays.defineWithin (lays.resolveWithin levels) budget
  slots := lays.dispatchLayout (lays.resolveWithin levels)

end Session.Lays

end Backend
