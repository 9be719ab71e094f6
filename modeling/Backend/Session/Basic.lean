import Backend.Debug.Collector
import Backend.Instance.Queue
import Backend.Instance.Table
import Backend.Ir.Output
import Backend.Layout.Basic
import Backend.Symbol

/-!
The state of one generation, and steps on it. A step that fails keeps what it has done to the
state, so that a session can go on after a failure.
-/

namespace Backend

structure Options where
  moduleName : String := "main"
  targetTriple : Option String := none
  debugInfo : Bool := false

/-- Declarations by name; instances of templates stand beside what the module declares. -/
structure Declarations where
  structs : Table StructDecl := {}
  enums : Table EnumDecl := {}
  functions : Table FunctionDecl := {}
  externs : Table ExternDecl := {}
  aliases : AliasTable := {}

namespace Declarations

def add (d : Declarations) : Decl → Declarations
  | .struct s => { d with structs := d.structs.insert s.name s }
  | .enum e => { d with enums := d.enums.insert e.name e }
  | .function f => { d with functions := d.functions.insert f.name f }
  | .external e => { d with externs := d.externs.insert e.name e }
  | .typeAlias a => { d with aliases := d.aliases.insert a.name a }

def contains (d : Declarations) (kind : DeclKind) (name : String) : Bool :=
  match kind with
  | .struct => d.structs.contains name
  | .enum => d.enums.contains name

/-- What a name declares; a hint decides between a struct and an enum of the same name. -/
def kind? (d : Declarations) (name : String) (hint : Option DeclKind) : Option DeclKind :=
  match hint.filter fun kind => d.contains kind name with
  | some kind => some kind
  | none =>
    if d.structs.contains name then some .struct
    else if d.enums.contains name then some .enum
    else none

end Declarations

structure Session where
  options : Options := {}
  decls : Declarations := {}
  layouts : Layouts := {}
  /-- The substitution that a concrete type was made with. -/
  ownerSubst : Table Substitution := {}
  /-- Types whose layout is being computed. -/
  defining : List String := []
  instances : InstanceTable := {}
  pending : PendingQueue := []
  /-- How many resolutions are under way inside each other. -/
  resolveDepth : Nat := 0
  /-- Symbol of the function whose body is being emitted. -/
  active : Option String := none
  /-- Symbols of the functions that have a body. -/
  emitted : List String := []
  lambdaCount : Nat := 0
  output : Output := {}
  collector : Option Collector := none
  /-- What the collector has been told. -/
  debugCalls : List DebugCall := []
  /-- Debug numbers of structs. -/
  debugTypes : Table Nat := {}

namespace Session

def register (s : Session) (d : Decl) : Session := { s with decls := s.decls.add d }

def ofOptions (options : Options) (collector : Option Collector := none) : Session :=
  { options, collector }

def activeCollector? (s : Session) : Option Collector :=
  if s.options.debugInfo then s.collector else none

def metadata (s : Session) : List String :=
  match s.activeCollector? with
  | some c => c.metadata s.debugCalls
  | none => []

def text (s : Session) : String :=
  s.output.text s.options.moduleName s.options.targetTriple s.layouts.structs.contains s.metadata

end Session

abbrev Gen := EStateM Halt Session

namespace Gen

variable {α : Type}

/-- A failure becomes a value; a step without an answer stays one. -/
def attempt (x : Gen α) : Gen (Except GenError α) :=
  tryCatch (Except.ok <$> x) fun
    | .failed e => pure (.error e)
    | h => throw h

/-- Failures of `x` are placed at `l`, unless they have a place. -/
def locating (l : Location) (x : Gen α) : Gen α :=
  tryCatch x fun h => throw (h.placedAt l)

def mappingCause (f : Cause → Cause) (x : Gen α) : Gen α :=
  tryCatch x fun
    | .failed e => throw (.failed { e with cause := f e.cause })
    | h => throw h

def modifyOutput (f : Output → Output) : Gen Unit :=
  modify fun s => { s with output := f s.output }

def internString (text : String) : Gen Operand := do
  let (index, output) := (← get).output.intern text
  modify fun s => { s with output }
  return .stringStart index (stringLength text)

def freshLambda : Gen Nat := do
  let n := (← get).lambdaCount
  modify fun s => { s with lambdaCount := n + 1 }
  return n

/-! ### Substitution and naming -/

/-- A substituted type; its pointer depths have to stay in range. -/
def substitute (σ : Substitution) (ty : TypeRef) : Gen TypeRef :=
  let result := σ.apply ty
  if result.fits then pure result else throw .overflow

def substituteAll (σ : Substitution) (types : List TypeRef) : Gen (List TypeRef) :=
  let result := σ.applyAll types
  if TypeRef.allFit result then pure result else throw .overflow

/-- A name made from types, where the expansion of their aliases stays in range. -/
def naming (types : List TypeRef) (name : AliasTable → String) : Gen String := do
  let aliases := (← get).decls.aliases
  if types.all aliases.expands then pure (name aliases) else throw .overflow

def genericName (base : String) (args : List TypeRef) : Gen String :=
  naming args fun a => a.genericName base args

def functionName (name : String) (params typeArgs : List TypeRef) : Gen String :=
  naming (params ++ typeArgs) fun a => a.functionName name params typeArgs

def methodName (owner method : String) (params typeArgs : List TypeRef) : Gen String :=
  naming (params ++ typeArgs) fun a => a.methodName owner method params typeArgs

def methodSymbol (owner : String) (m : FunctionDecl) (typeArgs : List TypeRef) : Gen String :=
  methodName owner m.name m.paramTypes typeArgs

/-- Symbol of a function that is not generic. The entry point keeps its name. -/
def functionSymbol (f : FunctionDecl) : Gen String :=
  if f.name = "main" then pure f.name else functionName f.name f.paramTypes []

def ownerSubstitution (owner : String) : Gen Substitution := do
  return ((← get).ownerSubst.find? owner).getD {}

/-! ### Instances and pending bodies -/

def beginInstance (base : String) (args : List TypeRef) (name : String) : Gen Claim := do
  let (claim, instances) := InstanceTable.begin (← get).instances base args name
  modify fun s => { s with instances }
  return claim

def completeInstance (name : String) : Gen Unit :=
  modify fun s => { s with instances := InstanceTable.complete s.instances name }

def requestBody (base : String) (args : List TypeRef) (body : Pending) : Gen Unit := do
  let (isNew, instances) := InstanceTable.request (← get).instances base args body.symbol
  modify fun s => { s with instances }
  if isNew then modify fun s => { s with pending := s.pending.push body }

/-! ### Debug information -/

/-- Tells the collector, if there is one to be told, and gives its answer. -/
def tell (call : DebugCall) : Gen (Option Nat) := do
  let s ← get
  match s.activeCollector? with
  | none => return none
  | some c =>
    set { s with debugCalls := s.debugCalls ++ [call] }
    return some (c.reply s.debugCalls call)

end Gen

end Backend
