import Backend.Session.Basic

/-!
Dispatched methods. The slots of a parent come first, an override keeps its slot and new methods
go last. The rules here are stated over any resolver of types.
-/

namespace Backend

abbrev Resolver := TypeRef → Substitution → Gen IrType

def maxResolveDepth : Nat := 200

def dispatchSlots (inherited : List String) (methods : List FunctionDecl) : List String :=
  (methods.filter FunctionDecl.isVirtual).foldl
    (fun slots m => if m.name ∈ slots then slots else slots ++ [m.name]) inherited

namespace Resolution

def structName (resolve : Resolver) (ty : TypeRef) (σ : Substitution) : Gen String := do
  match ← resolve ty σ with
  | .struct name => return name
  | other =>
    fail (.unresolvedType ty.display ("expected a struct, found '" ++ other.display ++ "'"))

/-- More steps than a chain of parents has, unless it is cyclic. -/
def chainBudget : Gen Nat := do return (← get).decls.structs.size + maxResolveDepth + 1

def inheritedSlots (resolve : Resolver) (layout : String → Gen (List String)) :
    Option TypeRef → Gen (List String)
  | some parent => do layout (← structName resolve parent {})
  | none => return []

def dispatchLayoutWithin (resolve : Resolver) : Nat → String → Gen (List String)
  | 0, _ => throw .exhausted
  | n + 1, name => do
    match (← get).layouts.dispatch.find? name with
    | some slots => return slots
    | none =>
      let decl ← orFail ((← get).decls.structs.find? name) (.unresolvedType name "vtable owner")
      let inherited ← inheritedSlots resolve (dispatchLayoutWithin resolve n) decl.parent
      let slots := dispatchSlots inherited decl.methods
      modify fun s => { s with layouts.dispatch := s.layouts.dispatch.insert name slots }
      return slots

def dispatchLayout (resolve : Resolver) (name : String) : Gen (List String) := do
  dispatchLayoutWithin resolve (← chainBudget) name

def findMethodWithin (resolve : Resolver) (method : String) :
    Nat → String → Gen (Option (String × FunctionDecl))
  | 0, _ => throw .exhausted
  | n + 1, name => do
    let decl ← orFail ((← get).decls.structs.find? name) (.unresolvedType name "method lookup")
    match decl.method? method, decl.parent with
    | some m, _ => return some (name, m)
    | none, some parent => findMethodWithin resolve method n (← structName resolve parent {})
    | none, none => return none

/-- The nearest struct that defines a method, from `name` upwards. -/
def findMethod (resolve : Resolver) (name method : String) :
    Gen (Option (String × FunctionDecl)) := do
  findMethodWithin resolve method (← chainBudget) name

def ownerType (owner : String) : Gen IrType := do
  return if (← get).decls.enums.contains owner then .enum owner else .struct owner

/-- The function type of a method: environment, receiver unless static, parameters. -/
def methodType (resolve : Resolver) (owner : String) (m : FunctionDecl) (σ : Substitution) :
    Gen IrType := do
  let ret ← resolve m.returnType σ
  let receiverType ← ownerType owner
  let receiver := if m.isStatic then [] else [IrType.ptr receiverType]
  let params ← m.params.mapM fun p => resolve p.ty σ
  return .function ret (.bytePtr :: receiver ++ params) false

def emitDispatchTable (resolve : Resolver) (name : String) : Gen Unit := do
  let slots ← dispatchLayout resolve name
  let entries ← slots.mapM fun method => do
    let (owner, m) ← orFail (← findMethod resolve name method) (.missingMethod name method)
    let symbol ← Gen.methodSymbol owner m []
    return (← methodType resolve owner m {}, symbol)
  Gen.modifyOutput fun o => o.addDispatchTable { owner := name, entries }

end Resolution

end Backend
