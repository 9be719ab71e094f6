import Backend.Proofs.Session.Course

/-!
Questions to a session that are made of other questions. A course that is kept to by the resolution
of types, by their definition and by instantiation is kept to by all questions about types; one that
is also kept to by what is told to the collector is kept to by all questions of bodies.
-/

namespace Backend

open Session (Course)
open Gen (Keeps KeepsFrom)

/-- The struct that a call describes. -/
def DebugCall.struct? : DebugCall → Option String
  | .struct name .. => some name
  | _ => none

/-! ### Questions that change nothing -/

namespace Gen

variable {C : Course} [C.Lawful]

theorem substitute_keeps (σ : Substitution) (ty : TypeRef) : Keeps C (substitute σ ty) :=
  .ite (.pure _) (.throw _)

theorem substituteAll_keeps (σ : Substitution) (types : List TypeRef) :
    Keeps C (substituteAll σ types) :=
  .ite (.pure _) (.throw _)

omit [C.Lawful] in
theorem substituteAll_ok {σ : Substitution} {types result : List TypeRef} {s s' : Session}
    (run : substituteAll σ types s = .ok result s') : result = σ.applyAll types ∧ s' = s := by
  unfold substituteAll at run
  split at run
  · exact pure_ok run
  · cases run

theorem naming_keeps (types : List TypeRef) (name : AliasTable → String) :
    Keeps C (naming types name) :=
  Keeps.get.bind fun _ => .ite (.pure _) (.throw _)

theorem methodSymbol_keeps (owner : String) (m : FunctionDecl) (typeArgs : List TypeRef) :
    Keeps C (methodSymbol owner m typeArgs) :=
  naming_keeps (m.paramTypes ++ typeArgs) fun a => a.methodName owner m.name m.paramTypes typeArgs

omit [C.Lawful] in
theorem naming_ok {types : List TypeRef} {f : AliasTable → String} {name : String}
    {s s' : Session} (run : naming types f s = .ok name s') :
    name = f s.decls.aliases ∧ s' = s := by
  obtain ⟨now, s₁, got, rest⟩ := bind_ok run
  cases got
  dsimp only at rest
  split at rest
  · exact pure_ok rest
  · cases rest

theorem named_keeps {α : Type} (types : List TypeRef) (name : AliasTable → String)
    {k : String → Gen α} (h : ∀ s : Session, KeepsFrom C s s (k (name s.decls.aliases))) :
    Keeps C (naming types name >>= k) := by
  intro s
  refine (naming_keeps types name s).bind fun symbol s₁ named _ => ?_
  obtain ⟨rfl, rfl⟩ := naming_ok named
  exact h s₁

omit [C.Lawful] in
theorem checkArity_ok {decl : String} {params : List String} {args : List TypeRef}
    {s s' : Session} (run : checkArity decl params args s = .ok () s') :
    params.length = args.length ∧ s' = s := by
  unfold checkArity at run
  split at run
  case isTrue same => exact ⟨same, (pure_ok run).2⟩
  case isFalse => exact (fail_ok run).elim

theorem checkArity_keeps (decl : String) (params : List String) (args : List TypeRef) :
    Keeps C (checkArity decl params args) :=
  .ite (.pure _) (.fail _)

theorem functionSymbol_keeps (f : FunctionDecl) : Keeps C (functionSymbol f) :=
  .ite (.pure _) (naming_keeps _ _)

theorem ownerType_keeps (owner : String) : Keeps C (Resolution.ownerType owner) :=
  Keeps.get.bind fun _ => .pure _

end Gen

/-! ### Rules over any resolver -/

namespace Resolution

variable {C : Course} [C.Lawful] {resolve : Resolver} {define : Definer}

theorem structName_keeps (h : ∀ ty σ, Keeps C (resolve ty σ)) (ty : TypeRef) (σ : Substitution) :
    Keeps C (structName resolve ty σ) := by
  refine (h ty σ).bind fun ir => ?_
  split
  · exact .pure _
  · exact .fail _

theorem findMethodWithin_keeps (h : ∀ ty σ, Keeps C (resolve ty σ)) (method : String) (n : Nat)
    (name : String) : Keeps C (findMethodWithin resolve method n name) := by
  induction n generalizing name with
  | zero => exact .throw _
  | succ n ih =>
    refine Keeps.get.bind fun _ => (Keeps.orFail _ _).bind fun decl => ?_
    split
    · exact .pure _
    · exact (structName_keeps h _ _).bind fun parent => ih parent
    · exact .pure _

theorem findMethod_keeps (h : ∀ ty σ, Keeps C (resolve ty σ)) (name method : String) :
    Keeps C (findMethod resolve name method) :=
  Keeps.bind (Keeps.get.bind fun _ => .pure _) fun _ => findMethodWithin_keeps h method _ name

theorem methodType_keeps (h : ∀ ty σ, Keeps C (resolve ty σ)) (owner : String) (m : FunctionDecl)
    (σ : Substitution) : Keeps C (methodType resolve owner m σ) :=
  (h _ _).bind fun _ => (Gen.ownerType_keeps owner).bind fun _ =>
    (Keeps.mapM fun _ _ => h _ _).bind fun _ => .pure _

theorem structLayout_keeps (h : ∀ kind name, Keeps C (define kind name)) (name : String) :
    Keeps C (structLayout define name) :=
  (h _ _).bind fun _ => Keeps.get.bind fun _ => .orFail _ _

theorem enumLayout_keeps (h : ∀ kind name, Keeps C (define kind name)) (name : String) :
    Keeps C (enumLayout define name) :=
  (h _ _).bind fun _ => Keeps.get.bind fun _ => .orFail _ _

theorem namedExtent_keeps (h : ∀ kind name, Keeps C (define kind name)) (kind : DeclKind)
    (name : String) : Keeps C (namedExtent define kind name) :=
  (h kind name).bind fun _ => Keeps.get.bind fun _ => .ofExcept _

mutual

theorem ofType_keeps {leaf : DeclKind → String → Gen Extent}
    (h : ∀ kind name, Keeps C (leaf kind name)) : (ty : IrType) → Keeps C (Extent.ofType leaf ty)
  | .void | .int _ | .float | .double | .ptr _ => .pure _
  | .array _ elem => (ofType_keeps h elem).bind fun _ => (Keeps.word _).bind fun _ => .pure _
  | .record fields =>
    (pack_keeps h fields 0 1).bind fun _ => (Keeps.word _).bind fun _ => .pure _
  | .struct name => h .struct name
  | .enum name => h .enum name
  | .forward _ | .function .. => .fail _

theorem pack_keeps {leaf : DeclKind → String → Gen Extent}
    (h : ∀ kind name, Keeps C (leaf kind name)) : (fields : List IrType) → (offset align : Nat) →
    Keeps C (Extent.pack leaf fields offset align)
  | [], _, _ => .pure _
  | ty :: rest, _, _ => (ofType_keeps h ty).bind fun _ =>
    Keeps.bind ((Keeps.word _).bind fun _ => .word _) fun _ => pack_keeps h rest _ _

end

theorem extent_keeps (h : ∀ kind name, Keeps C (define kind name)) (ty : IrType) :
    Keeps C (extent define ty) :=
  ofType_keeps (namedExtent_keeps h) ty

theorem packedSize_keeps (h : ∀ kind name, Keeps C (define kind name)) (fields : List IrType) :
    Keeps C (packedSize define fields) :=
  (pack_keeps (namedExtent_keeps h) fields 0 1).bind fun _ => .pure _

mutual

theorem defineEmbedded_keeps (h : ∀ kind name, Keeps C (define kind name)) : (ty : IrType) →
    Keeps C (defineEmbedded define ty)
  | .struct name => h .struct name
  | .enum name => h .enum name
  | .array _ elem => defineEmbedded_keeps h elem
  | .record fields => defineAllEmbedded_keeps h fields
  | .void | .int _ | .float | .double | .ptr _ | .forward _ | .function .. => .pure _

theorem defineAllEmbedded_keeps (h : ∀ kind name, Keeps C (define kind name)) :
    (types : List IrType) → Keeps C (defineAllEmbedded define types)
  | [] => .pure _
  | ty :: rest => (defineEmbedded_keeps h ty).bind fun _ => defineAllEmbedded_keeps h rest

end

theorem ownField_keeps (hr : ∀ ty σ, Keeps C (resolve ty σ))
    (h : ∀ kind name, Keeps C (define kind name)) (owner : String) (f : Field) :
    Keeps C (ownField resolve define owner f) :=
  Keeps.bind (fun s => (hr _ _ s).mappingCause) fun _ => (defineEmbedded_keeps h _).bind fun _ =>
    .pure _

theorem inheritedFields_keeps (hr : ∀ ty σ, Keeps C (resolve ty σ))
    (h : ∀ kind name, Keeps C (define kind name)) (parent : Option TypeRef) :
    Keeps C (inheritedFields resolve define parent) := by
  cases parent with
  | none => exact .pure _
  | some parent =>
    exact (structName_keeps hr _ _).bind fun _ => (structLayout_keeps h _).bind fun _ => .pure _

theorem variantLayouts_keeps (hr : ∀ ty σ, Keeps C (resolve ty σ))
    (h : ∀ kind name, Keeps C (define kind name)) (vs : List Variant) (tag : Nat)
    (done : Table VariantLayout) (dataSize : Nat) :
    Keeps C (variantLayouts resolve define vs tag done dataSize) := by
  induction vs generalizing tag done dataSize with
  | nil => exact .pure _
  | cons v rest ih =>
    exact (Keeps.mapM fun _ _ => hr _ _).bind fun _ => (packedSize_keeps h _).bind fun _ => ih _ _ _

/-! ### Debug information -/

section

variable [C.Recovers]

theorem extentOrNone_keeps (h : ∀ kind name, Keeps C (define kind name)) (ty : IrType) :
    Keeps C (extentOrNone define ty) := by
  refine (Keeps.attempt (extent_keeps h ty)).bind fun result => ?_
  cases result <;> exact .pure _

theorem bitSize_keeps (h : ∀ kind name, Keeps C (define kind name)) (ty : IrType) :
    Keeps C (bitSize define ty) :=
  (extentOrNone_keeps h ty).bind fun _ => .word _

theorem describePlain_struct? (ty : IrType) (bits : Nat) :
    (describePlain ty bits).struct? = none := by
  unfold describePlain
  split <;> rfl

variable (h : ∀ kind name, Keeps C (define kind name))
  (tell : ∀ call, call.struct? = none → Keeps C (Gen.tell call))

include h tell

theorem describeType_keeps (ty : IrType) : Keeps C (describeType define ty) := by
  have plain (ty : IrType) :
      Keeps C (bitSize define ty >>= fun bits => Gen.tell (describePlain ty bits)) :=
    (bitSize_keeps h ty).bind fun _ => tell _ (describePlain_struct? _ _)
  have named (ty : IrType) (name : String) :
      Keeps C (describeType.describeNamed define ty name) := by
    refine Keeps.get.bind fun s => ?_
    split
    · exact .pure _
    · exact plain ty
  cases ty with
  | ptr inner => exact (describeType_keeps inner).bind fun _ => tell _ rfl
  | array length inner =>
    exact (bitSize_keeps h _).bind fun _ => (describeType_keeps inner).bind fun _ => tell _ rfl
  | struct name => exact named _ _
  | enum name => exact named _ _
  | _ => exact plain _

theorem describeMembers_keeps (fields : List (String × IrType)) (offset align : Nat) :
    Keeps C (describeMembers define fields offset align) := by
  induction fields generalizing offset align with
  | nil => exact .pure _
  | cons field rest ih =>
    refine (extentOrNone_keeps h _).bind fun _ => (Keeps.word _).bind fun _ => ?_
    refine (describeType_keeps h tell _).bind fun _ => (Keeps.word _).bind fun _ => ?_
    refine (Keeps.word _).bind fun _ => (Keeps.word _).bind fun _ => ?_
    exact (ih _ _).bind fun _ => .pure _

omit tell in
theorem describeStruct_keeps (tell : ∀ call, Keeps C (Gen.tell call))
    (number : ∀ s name id, C.goes s { s with debugTypes := s.debugTypes.insert name id })
    (name : String) (fields : List (String × IrType)) (location : Location) :
    Keeps C (describeStruct define name fields location) := by
  refine Keeps.get.bind fun _ => .ite ?_ (.pure _)
  refine (describeMembers_keeps h (fun call _ => tell call) _ _ _).bind fun _ => ?_
  refine (tell _).bind fun _ => (Keeps.word _).bind fun _ => (Keeps.word _).bind fun _ => ?_
  exact (tell _).bind fun _ => .modify fun s => number s _ _

end

omit [C.Lawful] in
theorem describeStruct_quiet {s : Session} {name : String} {fields : List (String × IrType)}
    {location : Location} (quiet : s.activeCollector? = none) :
    describeStruct define name fields location s = .ok () s := by
  change (if s.activeCollector?.isSome then _ else pure () : Gen Unit) s = _
  rw [quiet]
  rfl

end Resolution

/-! ### Questions about types -/

/-- Questions about types keep to the course. -/
structure Session.Replies (C : Course) : Prop where
  resolve : ∀ ty σ, Keeps C (Gen.resolve ty σ)
  define : ∀ kind name, Keeps C (Gen.define kind name)
  dispatchLayout : ∀ name, Keeps C (Gen.dispatchLayout name)
  instantiateFunction : ∀ name typeArgs σ, Keeps C (Gen.instantiateFunction name typeArgs σ)
  instantiateMethod : ∀ owner m typeArgs σ, Keeps C (Gen.instantiateMethod owner m typeArgs σ)

namespace Session.Replies

variable {C : Course} [C.Lawful] (replies : Session.Replies C)

include replies

theorem structLayout (name : String) : Keeps C (Gen.structLayout name) :=
  Resolution.structLayout_keeps replies.define name

theorem enumLayout (name : String) : Keeps C (Gen.enumLayout name) :=
  Resolution.enumLayout_keeps replies.define name

theorem resolveAll (types : List TypeRef) (σ : Substitution) : Keeps C (Gen.resolveAll types σ) :=
  .mapM fun _ _ => replies.resolve _ _

theorem extent (ty : IrType) : Keeps C (Gen.extent ty) := Resolution.extent_keeps replies.define ty

theorem sizeOf (ty : IrType) : Keeps C (Gen.sizeOf ty) :=
  (replies.extent ty).bind fun _ => .pure _

theorem sizeInBits (ty : TypeRef) (σ : Substitution) : Keeps C (Gen.sizeInBits ty σ) :=
  (replies.resolve ty σ).bind fun _ => (replies.sizeOf _).bind fun _ => .word _

theorem dispatchSlot? (owner method : String) : Keeps C (Gen.dispatchSlot? owner method) :=
  (replies.dispatchLayout owner).bind fun _ => .pure _

theorem methodType (owner : String) (m : FunctionDecl) (σ : Substitution) :
    Keeps C (Gen.methodType owner m σ) :=
  Resolution.methodType_keeps replies.resolve owner m σ

theorem findMethod (name method : String) : Keeps C (Gen.findMethod name method) :=
  Resolution.findMethod_keeps replies.resolve name method

theorem lookupMethod (name method : String) : Keeps C (Gen.lookupMethod name method) := by
  refine Keeps.get.bind fun s => ?_
  split
  · exact (Keeps.orFail _ _).bind fun _ => .pure _
  · exact (replies.findMethod _ _).bind fun _ => .orFail _ _

theorem resolveSignature (params : List TypeRef) (ret : TypeRef) (σ : Substitution) :
    Keeps C (Gen.resolveSignature params ret σ) :=
  (replies.resolveAll params σ).bind fun _ => (replies.resolve ret σ).bind fun _ => .pure _

theorem functionTarget (name : String) (typeArgs : List TypeRef) (σ : Substitution) :
    Keeps C (Gen.functionTarget name typeArgs σ) := by
  refine Keeps.get.bind fun _ => (Keeps.orFail _ _).bind fun decl => ?_
  refine Keeps.bind ?_ fun target => (replies.resolveSignature _ _ _).bind fun _ => .pure _
  refine .ite ?_ ((Gen.functionSymbol_keeps _).bind fun _ => .pure _)
  exact (replies.instantiateFunction _ _ _).bind fun _ =>
    (Gen.substituteAll_keeps _ _).bind fun _ => .pure _

theorem methodTarget (owner : String) (m : FunctionDecl) (typeArgs : List TypeRef)
    (σ : Substitution) : Keeps C (Gen.methodTarget owner m typeArgs σ) := by
  refine Keeps.bind ?_ fun target => (replies.resolveSignature _ _ _).bind fun _ => .pure _
  exact .ite (replies.instantiateMethod _ _ _ _)
    ((Gen.methodSymbol_keeps _ _ _).bind fun _ => .pure _)

end Session.Replies

end Backend
