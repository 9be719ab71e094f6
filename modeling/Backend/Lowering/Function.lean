import Backend.Lowering.Stmt

/-!
The lowering of functions. Every function but the entry point takes an environment first, then the
receiver of a method, then its parameters, all of which are copied to stack slots.
-/

namespace Backend

/-- The record from which a lifted lambda takes its captured variables. -/
structure Captures where
  envType : String
  fields : List Field

structure Signature where
  symbol : String
  params : List Field := []
  returnType : TypeRef
  /-- Owner of a method that has a receiver. -/
  receiver : Option String := none
  captures : Option Captures := none
  location : Location := {}

def environmentParam : String := "__env"

/-- An incoming parameter and the local variable it becomes. -/
structure Incoming where
  register : String
  name : String
  ty : TypeRef
  ir : IrType

namespace Emit

def receiverParam : Option String → Emit (List Incoming)
  | none => return []
  | some owner => do
    let ir := IrType.ptr (← Resolution.ownerType owner)
    return [{ register := "this", name := "this", ty := .pointerTo (.ofName owner) 1, ir }]

def incomingParams (params : List Field) : Emit (List Incoming) :=
  params.mapM fun p => do
    return { register := p.name ++ ".arg", name := p.name, ty := p.ty, ir := ← resolve p.ty }

/-- Copies the captured variables out of their record, from slot `i` on. -/
def loadCaptures (envType : IrType) (env : Operand) : List Field → Nat → Emit Unit
  | [], _ => return
  | capture :: rest, i => do
    let ir ← resolve capture.ty
    let field ← slotAddress envType env i ir
    declareLocal capture.name capture.ty (← load ir field.operand)
    loadCaptures envType env rest (i + 1)

def unpackCaptures (c : Captures) : Emit Unit := do
  unless c.fields.isEmpty do
    let envType := IrType.struct c.envType
    let raw : Value := ⟨.reg (.named environmentParam), .bytePtr⟩
    let env ← emitValue (.ptr envType) fun dst => .cast dst .bitcast raw (.ptr envType)
    loadCaptures envType env.operand c.fields 0

/-- The entry point returns a status whatever it is declared to return. -/
def resultType (isMain : Bool) (declared : TypeRef) : Emit IrType :=
  if isMain then return .i32 else resolve declared

def unpackOptional : Option Captures → Emit Unit
  | some c => unpackCaptures c
  | none => return

/-- Makes locals of what comes in, and runs the body. The last block is closed. -/
def functionBody (incoming : List Incoming) (captures : Option Captures) (body : List Stmt) :
    Emit Unit := do
  incoming.forM fun p => declareLocal p.name p.ty ⟨.reg (.named p.register), p.ir⟩
  unpackOptional captures
  emitBlock body
  unless (← get).terminated do
    defaultReturn

def functionDef (sig : Signature) (body : List Stmt) : Emit FunctionDef := do
  let isMain := (← get).isMain
  let returnType ← resultType isMain sig.returnType
  let receiver ← receiverParam sig.receiver
  let incoming := receiver ++ (← incomingParams sig.params)
  let scope ← Gen.describeFunction sig.symbol returnType sig.location
  modify fun f => { f with returnType, scope }
  functionBody incoming sig.captures body
  let env := if isMain then [] else [(IrType.bytePtr, environmentParam)]
  let f ← get
  return {
    symbol := sig.symbol
    returnType
    params := env ++ incoming.map fun p => (p.ir, p.register)
    scope
    slots := f.slots.toList
    body := f.body.toList }

end Emit

namespace Gen

def emitFunction (sig : Signature) (body : List Stmt) (σ : Substitution) : Gen Unit := do
  let (f, _) ← (Emit.functionDef sig body).run { symbol := sig.symbol, subst := σ }
  modify fun s =>
    { s with output := s.output.addFunction f, emitted := sig.symbol :: s.emitted }

end Gen

end Backend
