import Backend.Resolution.Define

/-!
Instances of templates. A struct or enum is laid out at once, its methods only wait for their
bodies; functions and generic methods are only asked for.
-/

namespace Backend

def isIdentity (params : List String) (args : List TypeRef) : Bool :=
  !params.isEmpty && params.length = args.length &&
    (params.zip args).all fun (param, arg) =>
      match arg.asNamed? with
      | some (name, []) => name = param
      | _ => false

def checkArity (decl : String) (params : List String) (args : List TypeRef) : Gen Unit :=
  if params.length = args.length then pure ()
  else fail (.genericArity decl params.length args.length)

def methodKey (owner method : String) : String := owner ++ "." ++ method

def queueMethods (owner : String) (methods : List FunctionDecl) (σ : Substitution) : Gen Unit :=
  (methods.filter fun m => !m.isGeneric).forM fun m => do
    let symbol ← Gen.methodSymbol owner m []
    Gen.requestBody (methodKey owner m.name) []
      { symbol, source := .method owner m.name, substitution := σ }

/-- A declaration with parameters that types are made from. -/
inductive Template where
  | struct (d : StructDecl)
  | enum (d : EnumDecl)

namespace Template

def typeParams : Template → List String
  | .struct d => d.typeParams
  | .enum d => d.typeParams

def find (kind : DeclKind) (name : String) : Gen Template := do
  match kind with
  | .struct =>
    let d ← orFail ((← get).decls.structs.find? name)
      (.unresolvedType name "generic struct template")
    return .struct d
  | .enum =>
    let d ← orFail ((← get).decls.enums.find? name)
      (.unresolvedType name "generic enum template")
    return .enum d

/-- Declares the concrete type that the template becomes and gives its methods. -/
def declare (t : Template) (σ : Substitution) (name : String) : Gen (List FunctionDecl) := do
  match t with
  | .struct d =>
    let concrete := σ.applyStruct d name
    if concrete.fits then
      modify fun s => { s with decls.structs := s.decls.structs.insert name concrete }
      return concrete.methods
    else throw .overflow
  | .enum d =>
    let concrete := σ.applyEnum d name
    if concrete.fits then
      modify fun s => { s with decls.enums := s.decls.enums.insert name concrete }
      return concrete.methods
    else throw .overflow

end Template

namespace Resolution

/-- Makes the concrete type of some name: it is declared and laid out, and its methods are asked
for. -/
def makeInstance (resolve : Resolver) (kind : DeclKind) (template : Template)
    (args : List TypeRef) (name : String) : Gen Unit := do
  let σ := Substitution.ofParams template.typeParams args
  let methods ← template.declare σ name
  modify fun s => { s with ownerSubst := s.ownerSubst.insert name σ }
  define resolve kind name
  queueMethods name methods σ
  Gen.completeInstance name

/-- The name of a concrete type. It is made on first use; a use while it is being made, or after,
gives just the name. -/
def instantiate (resolve : Resolver) (kind : DeclKind) (base : String) (args : List TypeRef)
    (context : Substitution) : Gen String := do
  let args ← Gen.substituteAll context args
  let template ← Template.find kind base
  if isIdentity template.typeParams args then return base
  else
    checkArity base template.typeParams args
    let name ← Gen.genericName base args
    match ← Gen.beginInstance base args name with
    | .existing _ => return name
    | .fresh =>
      makeInstance resolve kind template args name
      return name

end Resolution

namespace Gen

/-- The symbol of a function at some type arguments; its body is asked for. -/
def instantiateFunction (name : String) (typeArgs : List TypeRef) (context : Substitution) :
    Gen String := do
  let decl ← orFail ((← get).decls.functions.find? name) (.undefinedFunction name)
  let args ← substituteAll context typeArgs
  checkArity name decl.typeParams args
  let σ := Substitution.ofParams decl.typeParams args
  let params ← substituteAll σ decl.paramTypes
  let symbol ← functionName name params args
  requestBody name args { symbol, source := .function name, substitution := σ }
  return symbol

/-- The symbol of a generic method at some type arguments, with the substitution its body is
emitted under. -/
def instantiateMethod (owner : String) (m : FunctionDecl) (typeArgs : List TypeRef)
    (context : Substitution) : Gen (String × Substitution) := do
  let args ← substituteAll context typeArgs
  checkArity (methodKey owner m.name) m.typeParams args
  let σ := (← ownerSubstitution owner).extended (.ofParams m.typeParams args)
  let params ← substituteAll σ m.paramTypes
  let symbol ← methodName owner m.name params args
  requestBody (methodKey owner m.name) args
    { symbol, source := .method owner m.name, substitution := σ }
  return (symbol, σ)

end Gen

end Backend
