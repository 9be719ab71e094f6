import Backend.Proofs.Lowering.Substituted
import Backend.Proofs.Retyping.Normal

/-!
Monomorphization is substitution. Main statement: `Gen.emitFunction_monomorphic`, the body of a
template under type arguments is emitted as the body with the arguments written in its place.
-/

namespace Backend

/-- The name stands for the same type everywhere: it is declared or a primitive. -/
def Declarations.knows (D : Declarations) (name : String) : Bool :=
  D.declares name || (Primitive.ofName? name).isSome

/-- Type parameters are told apart from declared names, and the targets of aliases mention no
parameters but those of the alias. -/
structure Module.Scoped (m : Module) : Prop where
  params : ∀ name ∈ m.paramNames, m.declarations.knows name = false
  targets : ∀ a ∈ m.declarations.aliases.values, ∀ name ∈ a.target.simpleNames,
    name ∈ a.typeParams ∨ m.declarations.knows name = true

def Declarations.isArgument (D : Declarations) (t : TypeRef) : Bool :=
  t.isNormal && t.simpleNames.all D.knows

def FunctionDecl.signatureAs (f : FunctionDecl) (symbol : String) (receiver : Option String) :
    Signature where
  symbol := symbol
  params := f.params
  returnType := f.returnType
  receiver := receiver
  location := f.location

def Decl.functions : Decl → List FunctionDecl
  | .struct d => d.methods
  | .enum d => d.methods
  | .function f => [f]
  | .external _ | .typeAlias _ => []

namespace Module.Scoped

variable {m : Module} {params : List String} {args : List TypeRef}

theorem unknown (scope : m.Scoped) (own : ∀ name ∈ params, name ∈ m.paramNames) {name : String}
    (knows : m.declarations.knows name = true) :
    (Substitution.ofParams params args).find? name = none := by
  cases found : (Substitution.ofParams params args).find? name with
  | none => rfl
  | some t =>
    have param := own name (Substitution.mem_of_find?_ofParams found).1
    rw [scope.params name param] at knows
    cases knows

theorem ground (scope : m.Scoped) (own : ∀ name ∈ params, name ∈ m.paramNames)
    (closed : args.all m.declarations.isArgument = true) :
    (Substitution.ofParams params args).Ground := by
  have argument {t : TypeRef} (member : t ∈ args) :
      t.isNormal = true ∧ ∀ name ∈ t.simpleNames, m.declarations.knows name = true := by
    have holds := List.all_eq_true.mp closed t member
    rw [Declarations.isArgument, Bool.and_eq_true, List.all_eq_true] at holds
    exact holds
  refine ⟨Substitution.normal_ofParams fun t member => (argument member).1, ?_, ?_⟩
  · intro param t found name member
    have known := (argument (Substitution.mem_of_find?_ofParams found).2).2 name member
    exact scope.unknown own known
  · intro name p spelled
    refine scope.unknown own ?_
    rw [Declarations.knows, spelled, Option.isSome_some, Bool.or_true]

theorem steady (scope : m.Scoped) (normal : m.isNormal = true)
    (own : ∀ name ∈ params, name ∈ m.paramNames) {s : Session} (isOver : s.NormalOver m) :
    s.Steady True (.ofParams params args) := by
  refine isOver.steady normal (fun name p spelled => ?_) (fun name param => ?_)
    fun a member name mentioned => ?_
  · refine scope.unknown own ?_
    rw [Declarations.knows, spelled, Option.isSome_some, Bool.or_true]
  · cases found : m.declarations.aliases.find? name with
    | none => rfl
    | some a =>
      refine absurd (scope.unknown own ?_) param
      rw [Declarations.knows, Declarations.declares_iff.mpr (.inr ⟨a, found⟩), Bool.true_or]
  · rcases scope.targets a member name mentioned with inner | known
    · exact .inl inner
    · exact .inr (scope.unknown own known)

end Module.Scoped

namespace Gen

/-- If the body of a function is emitted for some type arguments, the function with the arguments
in place of its parameters is emitted without any. Both leave the same session behind, and so the
same text, apart from the lambdas of the body: these wait under the arguments, or with the arguments
in place of the parameters. -/
theorem emitFunction_monomorphic {m : Module} (scope : m.Scoped) (normal : m.isNormal = true)
    {s s₁ : Session} (isOver : s.NormalOver m) {d : Decl} (declared : d ∈ m.decls) {f : FunctionDecl}
    (member : f ∈ d.functions) {params : List String} (own : ∀ name ∈ params, name ∈ m.paramNames)
    {args : List TypeRef} (arguments : args.all m.declarations.isArgument = true)
    (externs : ∀ e ∈ s.decls.externs.values, e.isClosed (.ofParams params args) = true)
    {symbol : String} {receiver : Option String}
    (run : emitFunction (f.signatureAs symbol receiver) f.body (.ofParams params args) s =
      .ok () s₁) :
    let replaced := f.retype (Substitution.ofParams params args).apply
    ∃ asked asked', s₁.pending = s.pending ++ asked ∧
      List.Forall₂ (Pending.Lifted (.ofParams params args)) asked asked' ∧
      emitFunction (replaced.signatureAs symbol receiver) replaced.body {} s =
        .ok () { s₁ with pending := s.pending ++ asked' } := by
  have allowed : (normalTypes {}).function f = true := by
    have all := List.all_eq_true.mp normal d declared
    cases d with
    | struct d =>
      simp only [Retyping.decl, Retyping.struct, Bool.and_eq_true] at all
      exact List.all_eq_true.mp all.1.2 f member
    | enum d =>
      simp only [Retyping.decl, Retyping.enum, Bool.and_eq_true] at all
      exact List.all_eq_true.mp all.1.2 f member
    | function g =>
      rw [List.mem_singleton.mp member]
      exact all
    | external e => cases member
    | typeAlias a => cases member
  simp only [Retyping.function, Retyping.signature, Bool.and_eq_true] at allowed
  have signature : (f.signatureAs symbol receiver).all TypeRef.isNormal = true := by
    simp only [Signature.all, FunctionDecl.signatureAs, Option.all_none, Bool.and_true,
      Bool.and_eq_true]
    exact ⟨allowed.1.1.2, allowed.1.2⟩
  have anyCall : (fun name => (s.decls.externs.find? name).all
      (ExternDecl.isClosed (.ofParams params args))) = fun _ => true := by
    funext name
    cases found : s.decls.externs.find? name with
    | none => rfl
    | some e => exact externs e (Table.mem_values_of_find? found)
  refine emitFunction_replaced (scope.ground own arguments) (scope.steady normal own isOver) signature
    ?_ run
  rw [anyCall]
  exact allowed.2

end Gen

/-- A template that holds a pointer to its parameter and lifts a lambda over it. -/
def keepDecl : FunctionDecl where
  name := "keep"
  typeParams := ["T"]
  params := [⟨"x", .ofName "T"⟩, ⟨"b", .pointerTo (.named "Box" [.ofName "T"] none) 1⟩]
  returnType := .ofName "T"
  body := [
    .letVar "p" (.pointerTo (.ofName "T") 1)
      (some (.unary ⟨.pointerTo (.ofName "T") 1, {}⟩ .addressOf (.var ⟨.ofName "T", {}⟩ "x"))) {},
    .letVar "k" (.function [] (.ofName "T") false)
      (some (.lambda ⟨.function [] (.ofName "T") false, {}⟩ []
        [.ret (some (.var ⟨.ofName "T", {}⟩ "x")) {}] [⟨"x", .ofName "T"⟩])) {},
    .ret (some (.var ⟨.ofName "T", {}⟩ "x")) {}]

def keepModule : Module where
  name := "keep"
  decls := [
    .struct { name := "Box", typeParams := ["T"], fields := [⟨"v", .ofName "T"⟩] },
    .typeAlias { name := "Bytes", target := .pointerTo (.primitive .u8) 1 },
    .function keepDecl]

def keepSession : Session := (Session.ofOptions {}).registerAll keepModule

theorem Gen.emitFunction_monomorphic_keep :
    ∃ s₁ asked asked', emitFunction (keepDecl.signatureAs "keep_Bytes" none) keepDecl.body
        (.ofParams ["T"] [.ofName "Bytes"]) keepSession = .ok () s₁ ∧
      s₁.pending = keepSession.pending ++ asked ∧
      List.Forall₂ (Pending.Lifted (.ofParams ["T"] [.ofName "Bytes"])) asked asked' ∧
      (let replaced := keepDecl.retype (Substitution.ofParams ["T"] [.ofName "Bytes"]).apply
       emitFunction (replaced.signatureAs "keep_Bytes" none) replaced.body {} keepSession =
        .ok () { s₁ with pending := keepSession.pending ++ asked' }) := by
  have succeeds : (emitFunction (keepDecl.signatureAs "keep_Bytes" none) keepDecl.body
      (.ofParams ["T"] [.ofName "Bytes"])).succeeds keepSession = true := by decide +kernel
  obtain ⟨_, s₁, run⟩ := exists_ok succeeds
  obtain ⟨asked, asked', queue, lifted, again⟩ :=
    emitFunction_monomorphic (m := keepModule) ⟨by decide, by decide⟩ (by decide +kernel)
      (.start rfl) (d := .function keepDecl) (by simp [keepModule]) List.mem_cons_self (by decide)
      (by decide +kernel) (by decide) run
  exact ⟨s₁, asked, asked', run, queue, lifted, again⟩

def passDecl : FunctionDecl where
  name := "pass"
  typeParams := ["T"]
  params := [⟨"x", .ofName "T"⟩]
  returnType := .primitive .void
  body := [.expr (.call ⟨.primitive .void, {}⟩ "take" [] [.var ⟨.ofName "T", {}⟩ "x"])]

def passModule : Module where
  name := "pass"
  decls := [
    .external { name := "take", params := [⟨"x", .ofName "T"⟩], returnType := .primitive .void },
    .function passDecl]

/-- The types of an external function are read under the substitution of the caller. -/
theorem Gen.emitFunction_external_open :
    passModule.Scoped ∧ passModule.isNormal = true ∧
    (emitFunction (passDecl.signatureAs "pass_i32" none) passDecl.body
        (.ofParams ["T"] [.primitive .i32])).succeeds ((Session.ofOptions {}).registerAll passModule) =
      true ∧
    (let replaced := passDecl.retype (Substitution.ofParams ["T"] [.primitive .i32]).apply
     (emitFunction (replaced.signatureAs "pass_i32" none) replaced.body {}).succeeds
        ((Session.ofOptions {}).registerAll passModule) = false) :=
  ⟨⟨by decide, by decide⟩, by decide +kernel⟩

/-- A type of tuples inside each other. -/
def nestedTuple : Nat → TypeRef
  | 0 => .primitive .i32
  | n + 1 => .tuple [nestedTuple n]

def nestedDecl : FunctionDecl where
  name := "nested"
  typeParams := ["T"]
  params := [⟨"x", .ofName "T"⟩]
  returnType := .primitive .void

/-- To describe `S` the size of `P` is asked for. The field of `P` is as deep as it may be where `S` is
reached through a box. -/
def nestedModule : Module where
  name := "nested"
  decls := [
    .struct { name := "P", fields := [⟨"g", nestedTuple (maxResolveDepth - 2)⟩] },
    .struct { name := "S", fields := [⟨"p", .pointerTo (.ofName "P") 1⟩] },
    .struct { name := "Box", typeParams := ["T"], fields := [⟨"s", .ofName "S"⟩] },
    .function nestedDecl]

def nestedStart : Session :=
  (Session.ofOptions { debugInfo := true } (some .recording)).registerAll nestedModule

/-- A failure is ignored while types are described to a collector. A type parameter takes one step
more to resolve than the argument in its place. Here that is one too many, so a struct that was to be
measured is not laid out. -/
theorem Gen.emitFunction_described_apart :
    let σ := Substitution.ofParams ["T"] [.named "Box" [.primitive .i32] none]
    let replaced := nestedDecl.retype σ.apply
    nestedModule.Scoped ∧ nestedModule.isNormal = true ∧
    ∃ s₁ s₂, emitFunction (nestedDecl.signatureAs "nested_Box" none) nestedDecl.body σ nestedStart =
        .ok () s₁ ∧
      emitFunction (replaced.signatureAs "nested_Box" none) replaced.body {} nestedStart = .ok () s₂ ∧
      s₁.layouts.structs.contains "P" = false ∧ s₂.layouts.structs.contains "P" = true := by
  intro σ replaced
  refine ⟨⟨by decide, by decide +kernel⟩, by decide +kernel, ?_⟩
  obtain ⟨_, s₁, run₁, absent⟩ := exists_reached
    (x := emitFunction (nestedDecl.signatureAs "nested_Box" none) nestedDecl.body σ) (s := nestedStart)
    (P := fun s => s.layouts.structs.contains "P" = false) (by decide +kernel)
  obtain ⟨_, s₂, run₂, present⟩ := exists_reached
    (x := emitFunction (replaced.signatureAs "nested_Box" none) replaced.body {}) (s := nestedStart)
    (P := fun s => s.layouts.structs.contains "P" = true) (by decide +kernel)
  exact ⟨s₁, s₂, run₁, run₂, absent, present⟩

end Backend
