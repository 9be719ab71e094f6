import Backend.Proofs.Resolution.Lays

/-!
Sessions that are asked about types: what a name resolves to, how a type is laid out, and which
instances there are. No bodies are emitted on the way. A course that resolution keeps to is kept to
by every such request, whether it succeeds or not.
-/

namespace Backend

open Session (Course)
open Gen (Keeps)

/-- What a session can be asked about types. -/
inductive Gen.Request : {α : Type} → Gen α → Prop where
  | resolve (ty : TypeRef) (σ : Substitution) : Request (Gen.resolve ty σ)
  | sizeInBits (ty : TypeRef) (σ : Substitution) : Request (Gen.sizeInBits ty σ)
  | extent (ty : IrType) : Request (Gen.extent ty)
  | sizeOf (ty : IrType) : Request (Gen.sizeOf ty)
  | packedSize (fields : List IrType) : Request (Gen.packedSize fields)
  | define (kind : DeclKind) (name : String) : Request (Gen.define kind name)
  | structLayout (name : String) : Request (Gen.structLayout name)
  | enumLayout (name : String) : Request (Gen.enumLayout name)
  | dispatchLayout (name : String) : Request (Gen.dispatchLayout name)
  | dispatchSlot? (owner method : String) : Request (Gen.dispatchSlot? owner method)
  | findMethod (name method : String) : Request (Gen.findMethod name method)
  | lookupMethod (name method : String) : Request (Gen.lookupMethod name method)
  | methodType (owner : String) (m : FunctionDecl) (σ : Substitution) :
    Request (Gen.methodType owner m σ)
  | instantiate (kind : DeclKind) (base : String) (args : List TypeRef) (σ : Substitution) :
    Request (Gen.instantiate kind base args σ)
  | instantiateFunction (name : String) (typeArgs : List TypeRef) (σ : Substitution) :
    Request (Gen.instantiateFunction name typeArgs σ)
  | instantiateMethod (owner : String) (m : FunctionDecl) (typeArgs : List TypeRef)
    (σ : Substitution) : Request (Gen.instantiateMethod owner m typeArgs σ)
  | queueMethods (owner : String) (methods : List FunctionDecl) (σ : Substitution) :
    Request (Backend.queueMethods owner methods σ)

/-- Declarations are registered and questions are asked, in any order; some questions fail. -/
inductive Session.Asked : Session → Prop where
  | start (options : Options) (collector : Option Collector) :
    Asked (.ofOptions options collector)
  | register {s : Session} (d : Decl) (h : Asked s) : Asked (s.register d)
  | step {α : Type} {x : Gen α} {s : Session} (request : x.Request) (h : Asked s) :
    Asked (x.after s)

namespace Session.Lays

variable {C : Course} [C.Lawful] (lays : Session.Lays C)

include lays

theorem resolve (ty : TypeRef) (σ : Substitution) : Keeps C (Gen.resolve ty σ) :=
  lays.resolveWithin _ ty σ

theorem defined (kind : DeclKind) (name : String) : Keeps C (Gen.define kind name) :=
  lays.define lays.resolve kind name

theorem slotted (name : String) : Keeps C (Gen.dispatchLayout name) :=
  lays.dispatchLayout lays.resolve name

theorem instantiated (kind : DeclKind) (base : String) (args : List TypeRef) (σ : Substitution) :
    Keeps C (Gen.instantiate kind base args σ) :=
  lays.instantiate lays.resolve kind base args σ

theorem instantiateFunction (name : String) (typeArgs : List TypeRef) (σ : Substitution) :
    Keeps C (Gen.instantiateFunction name typeArgs σ) := by
  refine fun s => .reading (.looking (Course.Lawful.refl s) fun decl found => ?_)
  refine (Gen.substituteAll_keeps _ _ s).bind fun args s₁ given reached => ?_
  obtain ⟨-, rfl⟩ := Gen.substituteAll_ok given
  refine ((Gen.checkArity_keeps _ _ _).from reached).bind fun _ s₂ checked reached => ?_
  obtain ⟨arity, rfl⟩ := Gen.checkArity_ok checked
  refine ((Gen.substituteAll_keeps _ _).from reached).bind fun params s₃ applied reached => ?_
  obtain ⟨rfl, rfl⟩ := Gen.substituteAll_ok applied
  refine ((Gen.naming_keeps _ _).from reached).bind fun symbol s₄ named reached => ?_
  obtain ⟨rfl, rfl⟩ := Gen.naming_ok named
  exact (lays.request (.function found arity)).bind fun _ _ _ reached => .pure reached _

theorem instantiateMethod (owner : String) (m : FunctionDecl) (typeArgs : List TypeRef)
    (σ : Substitution) : Keeps C (Gen.instantiateMethod owner m typeArgs σ) := by
  refine (Gen.substituteAll_keeps _ _).bind fun _ => (Gen.checkArity_keeps _ _ _).bind fun _ => ?_
  refine Keeps.bind (Keeps.get.bind fun _ => .pure _) fun _ => ?_
  refine (Gen.substituteAll_keeps _ _).bind fun params => Gen.named_keeps _ _ fun _ => ?_
  exact (lays.request (.method owner m.name params _ _)).bind fun _ _ _ reached => .pure reached _

theorem replies : Session.Replies C where
  resolve := lays.resolve
  define := lays.defined
  dispatchLayout := lays.slotted
  instantiateFunction := lays.instantiateFunction
  instantiateMethod := lays.instantiateMethod

theorem requested {α : Type} {x : Gen α} (request : x.Request) : Keeps C x := by
  have replies := lays.replies
  cases request with
  | resolve ty σ => exact replies.resolve ty σ
  | sizeInBits ty σ => exact replies.sizeInBits ty σ
  | extent ty => exact replies.extent ty
  | sizeOf ty => exact replies.sizeOf ty
  | packedSize fields => exact Resolution.packedSize_keeps replies.define fields
  | define kind name => exact replies.define kind name
  | structLayout name => exact replies.structLayout name
  | enumLayout name => exact replies.enumLayout name
  | dispatchLayout name => exact replies.dispatchLayout name
  | dispatchSlot? owner method => exact replies.dispatchSlot? owner method
  | findMethod name method => exact replies.findMethod name method
  | lookupMethod name method => exact replies.lookupMethod name method
  | methodType owner m σ => exact replies.methodType owner m σ
  | instantiate kind base args σ => exact lays.instantiated kind base args σ
  | instantiateFunction name typeArgs σ => exact replies.instantiateFunction name typeArgs σ
  | instantiateMethod owner m typeArgs σ => exact replies.instantiateMethod owner m typeArgs σ
  | queueMethods owner methods σ => exact lays.queueMethods owner methods σ

end Session.Lays

theorem Session.Asked.induct {R : Session → Session → Prop} [IsPreorder Session R]
    (lays : Session.Lays (.always R)) (register : ∀ s d, R s (s.register d)) {s : Session}
    (h : s.Asked) : ∃ options collector, R (.ofOptions options collector) s := by
  induction h with
  | start options collector => exact ⟨options, collector, refl_of R _⟩
  | register d _ ih =>
    obtain ⟨options, collector, moved⟩ := ih
    exact ⟨options, collector, trans_of R moved (register _ d)⟩
  | step request _ ih =>
    obtain ⟨options, collector, moved⟩ := ih
    exact ⟨options, collector, trans_of R moved ((lays.requested request).after _)⟩

end Backend
