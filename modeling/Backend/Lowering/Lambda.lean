import Backend.Lowering.Call

/-!
Lambdas. A lambda becomes a function of its own, whose body waits until the enclosing function is
done. Captured variables are copied into a record on the heap.
-/

namespace Backend

namespace Emit

/-- Copies captured variables into the record from slot `i` on. -/
def storeCaptures (envType : IrType) (env : Operand) :
    List (Field × IrType) → Nat → Emit Unit
  | [], _ => return
  | (capture, ty) :: rest, i => do
    let l ← orFail (← findLocal? capture.name) (.undefinedVariable capture.name)
    let v ← load l.ir (.reg l.slot)
    let v ← coerce v l.ty ty
    let field ← slotAddress envType env i ty
    store v field.operand
    storeCaptures envType env rest (i + 1)

def packEnvironment (name : String) (captures : List Field) (types : List IrType) :
    Emit Operand := do
  let size := (← Gen.aggregate types).size
  let raw ← call .bytePtr (.global "malloc") [⟨.int (max size 1 : Nat), .i64⟩]
  let typed ← emitValue (.ptr (.struct name)) fun dst =>
    .cast dst .bitcast raw (.ptr (.struct name))
  storeCaptures (.struct name) typed.operand (captures.zip types) 0
  return raw.operand

def queueLambda (symbol : String) (body : LiftedLambda) : Emit Unit := do
  let σ := (← get).subst
  modifyThe Session fun s =>
    { s with
      instances := (InstanceTable.request s.instances "lambda" [] symbol).2
      pending := s.pending.push { symbol, source := .lambda body, substitution := σ } }

/-- The environment of a lambda, whose record type is defined first. -/
def makeEnvironment (name : String) (captures : List Field) (types : List IrType) :
    Emit Operand := do
  if captures.isEmpty then return .null
  else
    Gen.modifyOutput fun o => o.addTypeDef (.struct name types)
    packEnvironment name captures types

def lambda (info : ExprInfo) (params : List Field) (body : List Stmt) (captures : List Field) :
    Emit Value := do
  match ← concrete info.ty with
  | .function _ returnType _ =>
    let id ← Gen.freshLambda
    let symbol := (← get).symbol ++ s!"_lambda_{id}"
    let envType := symbol ++ "_env"
    let ret ← resolve returnType
    let paramTypes ← resolveAll (params.map Field.ty)
    let captureTypes ← resolveAll (captures.map Field.ty)
    let env ← makeEnvironment envType captures captureTypes
    queueLambda symbol
      { params, captures, body, returnType, envType, location := info.location }
    makeClosure symbol ret paramTypes env
  | other => fail (.unsupported s!"lambda with non-function type '{other.display}'")

end Emit

def Code.lambda (info : ExprInfo) (params : List Field) (body : List Stmt)
    (captures : List Field) : Code :=
  ofValue "lambda" info.ty (Emit.lambda info params body captures)

end Backend
