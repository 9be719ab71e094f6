import Backend.Lowering.Code

/-!
Calls. A name is looked for among the local variables, which then hold a function value, among the
external functions and among the functions of the module. Methods of structs that are neither
generic nor static are called through the dispatch table.
-/

namespace Backend

def noEnvironment : Value := ⟨.null, .bytePtr⟩

/-- Type arguments beside the values of a call. -/
structure CallArgs where
  typeArgs : List TypeRef := []
  values : List Code

namespace Gen

/-! ### What is called -/

def resolveSignature (params : List TypeRef) (ret : TypeRef) (σ : Substitution) :
    Gen (List IrType × IrType) := do
  let params ← resolveAll params σ
  return (params, ← resolve ret σ)

/-- Symbol and substitution of a function; an instance of a generic one is asked for. -/
def functionInstance (name : String) (decl : FunctionDecl) (typeArgs : List TypeRef)
    (context : Substitution) : Gen (String × Substitution) := do
  if decl.isGeneric then
    let symbol ← instantiateFunction name typeArgs context
    let args ← substituteAll context typeArgs
    return (symbol, .ofParams decl.typeParams args)
  else return (← functionSymbol decl, {})

def functionTarget (name : String) (typeArgs : List TypeRef) (context : Substitution) :
    Gen (String × List IrType × IrType) := do
  let decl ← orFail ((← get).decls.functions.find? name) (.undefinedFunction name)
  let (symbol, σ) ← functionInstance name decl typeArgs context
  return (symbol, ← resolveSignature decl.paramTypes decl.returnType σ)

/-- Symbol and substitution of a method; an instance of a generic one is asked for. -/
def methodInstance (owner : String) (m : FunctionDecl) (typeArgs : List TypeRef)
    (context : Substitution) : Gen (String × Substitution) := do
  if m.isGeneric then instantiateMethod owner m typeArgs context
  else return (← methodSymbol owner m [], {})

/-- Symbol, parameters and result of a method, the receiver aside. -/
def methodTarget (owner : String) (m : FunctionDecl) (typeArgs : List TypeRef)
    (context : Substitution) : Gen (String × List IrType × IrType) := do
  let (symbol, σ) ← methodInstance owner m typeArgs context
  return (symbol, ← resolveSignature m.paramTypes m.returnType σ)

end Gen

namespace Emit

/-! ### Arguments and the call itself -/

def promote (v : Value) : Emit Value :=
  if v.ty = .float then convert v .double false false else return v

/-- Arguments are adapted to the parameters. What is beyond them goes as it is, with single
precision widened. -/
def arguments : List Code → List IrType → Emit (List Value)
  | [], _ => return []
  | arg :: rest, [] => do
    let v ← promote (← arg.value)
    return v :: (← arguments rest [])
  | arg :: rest, param :: params => do
    let v ← arg.coerced param
    return v :: (← arguments rest params)

/-- A call with result type `ret`; `ty` is what is written as the type of the callee. -/
def callAs (ty ret : IrType) (callee : Operand) (args : List Value) : Emit Value := do
  if ret.isVoid then
    emit (.call none ty callee args)
    return .void
  else emitValue ret fun dst => .call (some dst) ty callee args

def call (ret : IrType) (callee : Operand) (args : List Value) : Emit Value :=
  callAs ret ret callee args

/-! ### Function values -/

def signature? : IrType → Option (IrType × List IrType)
  | .record [.ptr (.function ret params _), _] => some (ret, params.drop 1)
  | _ => none

def callClosure (closure : Value) (args : List Code) (ty : TypeRef) : Emit Value := do
  let (ret, params) ← orFail (signature? closure.ty)
    (.unsupported s!"value of type '{closure.ty.display}' is not callable")
  let code ← emitValue (.codePointer ret params false) fun dst => .extract dst closure 0
  let env ← emitValue .bytePtr fun dst => .extract dst closure 1
  let values ← arguments args params
  let result ← call ret code.operand (env :: values)
  coerce result ty (← resolve ty)

def makeClosure (symbol : String) (ret : IrType) (params : List IrType) (env : Operand) :
    Emit Value := do
  let code : Value := ⟨.global symbol, .codePointer ret params false⟩
  let withCode ← insertAt ⟨.undef, .closure ret params false⟩ code 0
  insertAt withCode ⟨env, .bytePtr⟩ 1

/-! ### Functions -/

def functionTarget (name : String) (typeArgs : List TypeRef) :
    Emit (String × List IrType × IrType) := do
  Gen.functionTarget name typeArgs (← get).subst

def functionRef (name : String) (typeArgs : List TypeRef) : Emit Value := do
  let (symbol, params, ret) ← functionTarget name typeArgs
  makeClosure symbol ret params .null

def callExternal (ext : ExternDecl) (args : List Code) : Emit Value := do
  let (params, ret) ← Gen.resolveSignature (ext.params.map Field.ty) ext.returnType (← get).subst
  let values ← arguments args params
  let ty := if ext.variadic then .function ret params true else ret
  callAs ty ret (.global ext.name) values

def callFunction (name : String) (args : CallArgs) : Emit Value := do
  let (symbol, params, ret) ← functionTarget name args.typeArgs
  let values ← arguments args.values params
  let env := if symbol = "main" then [] else [noEnvironment]
  call ret (.global symbol) (env ++ values)

def callName (name : String) (args : CallArgs) (ty : TypeRef) : Emit Value := do
  match ← findLocal? name with
  | some l => callClosure (← load l.ir (.reg l.slot)) args.values ty
  | none =>
    match (← getThe Session).decls.externs.find? name with
    | some ext => callExternal ext args.values
    | none => callFunction name args

/-! ### Methods -/

def callDirect (owner : String) (m : FunctionDecl) (receiver : List Value) (args : CallArgs) :
    Emit Value := do
  let (symbol, params, ret) ← Gen.methodTarget owner m args.typeArgs (← get).subst
  let values ← arguments args.values params
  call ret (.global symbol) (noEnvironment :: receiver ++ values)

/-- Calls what the receiver's dispatch table holds in the slot of the method. -/
def callDispatched (owner : String) (pointer : Operand) (declOwner : String) (m : FunctionDecl)
    (receiver : Value) (args : List Code) : Emit Value := do
  let layout ← Gen.structLayout owner
  let field ← orFail layout.dispatchSlot? (.missingMethod owner m.name)
  let slot ← orFail (← Gen.dispatchSlot? owner m.name) (.missingMethod owner m.name)
  let ty ← Gen.methodType declOwner m {}
  let tablePlace ← slotAddress (.struct owner) pointer field .bytePtr
  let table ← load .bytePtr tablePlace.operand
  let entries ← emitValue (.ptr .bytePtr) fun dst => .cast dst .bitcast table (.ptr .bytePtr)
  let entry ← emitValue (.ptr .bytePtr) fun dst =>
    .address dst .bytePtr entries.operand [⟨.int slot, .i32⟩]
  let raw ← load .bytePtr entry.operand
  let code ← emitValue (.ptr ty) fun dst => .cast dst .bitcast raw (.ptr ty)
  let (params, ret) ← Gen.resolveSignature m.paramTypes m.returnType {}
  let values ← arguments args params
  call ret code.operand (noEnvironment :: receiver :: values)

/-- The receiver as a pointer to the type that declares the method. -/
def upcast (owner : String) (pointer : Operand) (target : String) : Emit Value := do
  let source : Value := ⟨pointer, .ptr (← Resolution.ownerType owner)⟩
  if owner = target then return source
  let targetType := IrType.ptr (← Resolution.ownerType target)
  emitValue targetType fun dst => .cast dst .bitcast source targetType

/-- Name and address of a receiver, which is a struct or an enum or points to one. -/
def receiverOf (receiver : Code) (method : String) : Emit (String × Operand) := do
  match ← resolve receiver.ty with
  | .ptr (.struct name) | .ptr (.enum name) => return (name, (← receiver.value).operand)
  | .struct name | .enum name => return (name, (← receiver.place).address)
  | other => fail (.missingMethod other.display method)

def callMethod (receiver : Code) (method : String) (args : CallArgs) : Emit Value := do
  let (owner, pointer) ← receiverOf receiver method
  let (declOwner, m) ← Gen.lookupMethod owner method
  if m.isStatic then callDirect declOwner m [] args
  else
    let this ← upcast owner pointer declOwner
    if m.isVirtual && !(← getThe Session).decls.enums.contains owner then
      callDispatched owner pointer declOwner m this args.values
    else callDirect declOwner m [this] args

def ownerName (method : String) : IrType → Emit String
  | .struct name | .enum name => return name
  | other => fail (.missingMethod other.display method)

def callStatic (owner : TypeRef) (method : String) (args : CallArgs) : Emit Value := do
  let name ← ownerName method (← resolve owner)
  let (declOwner, m) ← Gen.lookupMethod name method
  if m.isStatic then callDirect declOwner m [] args
  else fail (.unsupported s!"instance method '{name}::{method}' called without a receiver")

end Emit

namespace Code

def var (info : ExprInfo) (name : String) : Code :=
  let value : Emit Value := do
    match ← Emit.findLocal? name with
    | some l => Emit.load l.ir (.reg l.slot)
    | none =>
      if (← getThe Session).decls.functions.contains name then Emit.functionRef name []
      else fail (.undefinedVariable name)
  let placeOr (other : Emit Place) : Emit Place := do
    match ← Emit.findLocal? name with
    | some l => return ⟨.reg l.slot, l.ir⟩
    | none => other
  { ty := info.ty
    value
    lvalue := placeOr (fail (.notAddressable s!"'{name}' is not a local variable"))
    place := placeOr (materialize "temporary value" info.ty value) }

def call (info : ExprInfo) (callee : String) (args : CallArgs) : Code :=
  ofValue "call result" info.ty (Emit.callName callee args info.ty)

def methodCall (info : ExprInfo) (receiver : Code) (method : String) (args : CallArgs) : Code :=
  ofValue "call result" info.ty (Emit.callMethod receiver method args)

def staticCall (info : ExprInfo) (owner : TypeRef) (method : String) (args : CallArgs) : Code :=
  ofValue "call result" info.ty (Emit.callStatic owner method args)

def closureCall (info : ExprInfo) (callee : Code) (args : List Code) : Code :=
  ofValue "call result" info.ty do Emit.callClosure (← callee.value) args info.ty

def functionRef (info : ExprInfo) (name : String) (typeArgs : List TypeRef) : Code :=
  ofValue "temporary value" info.ty (Emit.functionRef name typeArgs)

end Code

end Backend
