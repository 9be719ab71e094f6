import Backend.Lowering.Function

/-!
Generation of a whole module: declarations in order, and after each of them the bodies that have
been asked for, first in first out, until none is left.
-/

namespace Backend

namespace Gen

/-! ### Function bodies -/

/-- Marks a function as the active one while `x` runs. Bodies do not nest. -/
def whileActive (symbol : String) (x : Gen Unit) : Gen Unit := do
  match (← get).active with
  | some active =>
    fail (.unsupported s!"cannot begin '{symbol}' while '{active}' is still being emitted")
  | none =>
    modify fun s => { s with active := some symbol }
    try x
    finally modify fun s => { s with active := none }

def emitBody (sig : Signature) (body : List Stmt) (σ : Substitution) : Gen Unit :=
  whileActive sig.symbol (emitFunction sig body σ)

/-- The body of a declared function or method under some symbol. -/
def emitDeclared (f : FunctionDecl) (symbol : String) (receiver : Option String)
    (σ : Substitution) : Gen Unit :=
  emitBody
    { symbol
      params := f.params
      returnType := f.returnType
      receiver
      location := f.location }
    f.body σ

def emitLambda (l : LiftedLambda) (symbol : String) (σ : Substitution) : Gen Unit :=
  emitBody
    { symbol
      params := l.params
      returnType := l.returnType
      captures := some { envType := l.envType, fields := l.captures }
      location := l.location }
    l.body σ

/-- A method of a declared type. A struct goes before an enum of the same name. -/
def declaredMethod (owner method : String) : Gen FunctionDecl := do
  let decls := (← get).decls
  let found ← match decls.structs.find? owner, decls.enums.find? owner with
    | some s, _ => pure (s.method? method)
    | none, some e => pure (e.method? method)
    | none, none => fail (.unresolvedType owner "method owner")
  orFail found (.missingMethod owner method)

/-! ### Pending bodies -/

def emitPending (p : Pending) : Gen Unit :=
  match p.source with
  | .function template => do
    let f ← orFail ((← get).decls.functions.find? template) (.undefinedFunction template)
    locating f.location (emitDeclared f p.symbol none p.substitution)
  | .method owner method => do
    let m ← declaredMethod owner method
    let receiver := if m.isStatic then none else some owner
    locating m.location (emitDeclared m p.symbol receiver p.substitution)
  | .lambda l => locating l.location (emitLambda l p.symbol p.substitution)

/-- Generates a pending body, unless its symbol has one or is under way. -/
def generatePending (p : Pending) : Gen Unit := do
  unless p.symbol ∈ (← get).emitted do
    if (← beginInstance "" [] p.symbol) = .fresh then
      emitPending p
      completeInstance p.symbol

/-- Bodies may ask for new bodies without end; this many are generated in one go. -/
def maxBodies : Nat := 1000000

def drainWithin : Nat → Gen Unit
  | 0 => throw .exhausted
  | n + 1 => do
    match (← get).pending.pop? with
    | none => return
    | some (p, rest) =>
      modify fun s => { s with pending := rest }
      generatePending p
      drainWithin n

/-- Generates all pending bodies. This is not possible inside a body. -/
def drain : Gen Unit := do
  match (← get).active with
  | some active =>
    fail (.unsupported s!"pending generations drained while '{active}' is being emitted")
  | none => drainWithin maxBodies

/-! ### The runtime -/

/-- The function that prints a message and ends the program with status 1. -/
def panicFunction (format : Operand) : FunctionDef where
  symbol := panicSymbol
  returnType := .void
  params := [(.bytePtr, "msg")]
  body := [
    .instr (.call (some (.named "0")) (.function .i32 [.bytePtr] true) (.global "printf")
      [⟨format, .bytePtr⟩, ⟨.reg (.named "msg"), .bytePtr⟩]) none,
    .instr (.call none .void (.global "exit") [⟨.int 1, .i32⟩]) none,
    .term .unreachable none]

def runtimeDeclarations : List Declaration :=
  [{ name := "malloc", ret := .bytePtr, params := [.i64] },
   { name := "free", ret := .void, params := [.bytePtr] },
   { name := "printf", ret := .i32, params := [.bytePtr], variadic := true },
   { name := "exit", ret := .void, params := [.i32] }]

def injectRuntime : Gen Unit := do
  runtimeDeclarations.forM fun d => modifyOutput fun o => o.declare d
  let format ← internString "panic: %s\n"
  modify fun s =>
    { s with
      output := s.output.addFunction (panicFunction format)
      emitted := panicSymbol :: s.emitted }

/-! ### Modules -/

def declareExternal (e : ExternDecl) : Gen Unit := do
  let ret ← resolve e.returnType {}
  let params ← resolveAll (e.params.map Field.ty) {}
  modifyOutput fun o => o.declare { name := e.name, ret, params, variadic := e.variadic }

/-- Lays out a type that the module declares and asks for its methods. -/
def generateType (kind : DeclKind) (name : String) (methods : List FunctionDecl) : Gen Unit := do
  define kind name
  modify fun s => { s with ownerSubst := s.ownerSubst.insert name {} }
  queueMethods name methods {}

def generateDecl : Decl → Gen Unit
  | .struct s => unless s.isTemplate do generateType .struct s.name s.methods
  | .enum e => unless e.isTemplate do generateType .enum e.name e.methods
  | .function f => unless f.isGeneric do emitDeclared f (← functionSymbol f) none {}
  | .external _ | .typeAlias _ => pure ()

def generate (m : Module) : Gen Unit := do
  modify fun s => m.decls.foldl Session.register s
  injectRuntime
  m.decls.forM fun
    | .external e => locating e.location (declareExternal e)
    | _ => pure ()
  m.decls.forM fun d => do
    locating d.location (generateDecl d)
    drain
  drain

end Gen

/-- The session after generating a module, or why there is none. -/
def Module.generate (m : Module) (s : Session) : Except Halt Session :=
  match (Gen.generate m).run s with
  | .ok _ s => .ok s
  | .error h _ => .error h

end Backend
