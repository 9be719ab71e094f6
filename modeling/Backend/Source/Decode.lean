import Backend.Json.Record
import Backend.Source.Encode

/-!
Reading source modules from their JSON form. Types, expressions and statements nest; a reader for
them takes the number of levels it may still go down, and `maxNesting` levels are always enough for
a value cut at that depth.
-/

namespace Backend

open Json (Read Record record choice tagged readString readBool readNat readInt64 readFloat
  readList)

/-- Arrays and objects may stand inside one another this many times. -/
def maxNesting : Nat := 127

def Primitive.all : List Primitive :=
  [.i8, .i16, .i32, .i64, .u8, .u16, .u32, .u64, .f32, .f64, .bool, .void, .string, .null]

def BinaryOp.all : List BinaryOp :=
  [.add, .sub, .mul, .div, .rem, .eq, .ne, .lt, .le, .gt, .ge, .and, .or, .bitAnd, .bitOr,
    .bitXor, .shl, .shr]

def UnaryOp.all : List UnaryOp := [.neg, .not, .deref, .addressOf]

namespace Decode

def primitive : Json → Read Primitive := choice (Primitive.all.map fun p => (p.name, p))

def binaryOp : Json → Read BinaryOp := choice (BinaryOp.all.map fun o => (o.name, o))

def unaryOp : Json → Read UnaryOp := choice (UnaryOp.all.map fun o => (o.name, o))

def declKind : Json → Read DeclKind := choice [("struct", .struct), ("enum", .enum)]

def location (j : Json) : Read Location := do
  let r ← record ["file", "line", "column"] j
  return {
    file := ← r.defaulted "file" "" readString
    line := ← r.defaulted "line" 0 (readNat 32)
    column := ← r.defaulted "column" 0 (readNat 32) }

def locationOf (r : Record) : Read Location := r.defaulted "location" {} location

def typeRef : Nat → Json → Read TypeRef
  | 0, _ => .error (.expected "fewer levels")
  | n + 1, j => do
    match ← tagged j with
    | ("primitive", body) => return .primitive (← primitive body)
    | ("pointer", body) =>
      let r ← record ["inner", "depth"] body
      return .pointer (← r.required "inner" (typeRef n)) (← r.required "depth" (readNat 32))
    | ("array", body) =>
      let r ← record ["inner", "dims"] body
      return .array (← r.required "inner" (typeRef n))
        (← r.required "dims" (readList (readNat 64)))
    | ("tuple", body) => return .tuple (← readList (typeRef n) body)
    | ("function", body) =>
      let r ← record ["params", "ret", "variadic"] body
      return .function (← r.required "params" (readList (typeRef n)))
        (← r.required "ret" (typeRef n)) (← r.defaulted "variadic" false readBool)
    | ("named", body) =>
      let r ← record ["name", "generic_args", "resolved"] body
      return .named (← r.required "name" readString)
        (← r.defaulted "generic_args" [] (readList (typeRef n)))
        (← r.nullable "resolved" declKind)
    | (tag, _) => .error (.unknownVariant tag)

def type (j : Json) : Read TypeRef := typeRef maxNesting j

def types (j : Json) : Read (List TypeRef) := readList type j

def field (j : Json) : Read Field := do
  let r ← record ["name", "ty"] j
  return { name := ← r.required "name" readString, ty := ← r.required "ty" type }

def fields : Json → Read (List Field) := readList field

def literal (j : Json) : Read Literal := do
  match ← Json.variant j with
  | ("int", some body) => return .int (← readInt64 body)
  | ("float", some body) => return .float (← readFloat body)
  | ("bool", some body) => return .bool (← readBool body)
  | ("string", some body) => return .string (← readString body)
  | ("null", none) | ("null", some .null) => return .null
  | (tag, _) => .error (.unknownVariant tag)

mutual

def exprKind : Nat → Json → Read (ExprInfo → Expr)
  | 0, _ => .error (.expected "fewer levels")
  | n + 1, j => do
    match ← tagged j with
    | ("literal", body) =>
      let v ← literal body
      return fun i => .literal i v
    | ("variable", body) =>
      let name ← readString body
      return fun i => .var i name
    | ("binary", body) =>
      let r ← record ["op", "lhs", "rhs"] body
      let op ← r.required "op" binaryOp
      let lhs ← r.required "lhs" (expr n)
      let rhs ← r.required "rhs" (expr n)
      return fun i => .binary i op lhs rhs
    | ("unary", body) =>
      let r ← record ["op", "operand"] body
      let op ← r.required "op" unaryOp
      let operand ← r.required "operand" (expr n)
      return fun i => .unary i op operand
    | ("assign", body) =>
      let r ← record ["target", "value"] body
      let target ← r.required "target" (expr n)
      let value ← r.required "value" (expr n)
      return fun i => .assign i target value
    | ("call", body) =>
      let r ← record ["callee", "generic_args", "args"] body
      let callee ← r.required "callee" readString
      let typeArgs ← r.defaulted "generic_args" [] types
      let args ← r.required "args" (readList (expr n))
      return fun i => .call i callee typeArgs args
    | ("method_call", body) =>
      let r ← record ["receiver", "method", "generic_args", "args"] body
      let receiver ← r.required "receiver" (expr n)
      let method ← r.required "method" readString
      let typeArgs ← r.defaulted "generic_args" [] types
      let args ← r.required "args" (readList (expr n))
      return fun i => .methodCall i receiver method typeArgs args
    | ("static_call", body) =>
      let r ← record ["owner", "method", "generic_args", "args"] body
      let owner ← r.required "owner" type
      let method ← r.required "method" readString
      let typeArgs ← r.defaulted "generic_args" [] types
      let args ← r.required "args" (readList (expr n))
      return fun i => .staticCall i owner method typeArgs args
    | ("closure_call", body) =>
      let r ← record ["callee", "args"] body
      let callee ← r.required "callee" (expr n)
      let args ← r.required "args" (readList (expr n))
      return fun i => .closureCall i callee args
    | ("function_ref", body) =>
      let r ← record ["name", "generic_args"] body
      let name ← r.required "name" readString
      let typeArgs ← r.defaulted "generic_args" [] types
      return fun i => .functionRef i name typeArgs
    | ("member", body) =>
      let r ← record ["object", "field"] body
      let object ← r.required "object" (expr n)
      let field ← r.required "field" readString
      return fun i => .member i object field
    | ("index", body) =>
      let r ← record ["object", "index"] body
      let object ← r.required "object" (expr n)
      let position ← r.required "index" (expr n)
      return fun i => .index i object position
    | ("tuple_index", body) =>
      let r ← record ["object", "index"] body
      let object ← r.required "object" (expr n)
      let position ← r.required "index" (readNat 64)
      return fun i => .tupleIndex i object position
    | ("struct_literal", body) =>
      let r ← record ["fields"] body
      let inits ← r.required "fields" (readList (fieldInit n))
      return fun i => .structLiteral i inits
    | ("tuple_literal", body) =>
      let elems ← readList (expr n) body
      return fun i => .tupleLiteral i elems
    | ("array_literal", body) =>
      let elems ← readList (expr n) body
      return fun i => .arrayLiteral i elems
    | ("enum_variant", body) =>
      let r ← record ["variant", "args"] body
      let variant ← r.required "variant" readString
      let args ← r.defaulted "args" [] (readList (expr n))
      return fun i => .enumVariant i variant args
    | ("match", body) =>
      let r ← record ["scrutinee", "arms"] body
      let scrutinee ← r.required "scrutinee" (expr n)
      let arms ← r.required "arms" (readList (matchArm n))
      return fun i => .matchOn i scrutinee arms
    | ("lambda", body) =>
      let r ← record ["params", "body", "captures"] body
      let params ← r.required "params" fields
      let stmts ← r.required "body" (readList (stmt n))
      let captures ← r.defaulted "captures" [] fields
      return fun i => .lambda i params stmts captures
    | ("ternary", body) =>
      let r ← record ["condition", "then_value", "else_value"] body
      let condition ← r.required "condition" (expr n)
      let thenValue ← r.required "then_value" (expr n)
      let elseValue ← r.required "else_value" (expr n)
      return fun i => .ternary i condition thenValue elseValue
    | ("cast", body) =>
      let r ← record ["value"] body
      let value ← r.required "value" (expr n)
      return fun i => .cast i value
    | ("sizeof", body) =>
      let ty ← type body
      return fun i => .sizeof i ty
    | (tag, _) => .error (.unknownVariant tag)

def expr : Nat → Json → Read Expr
  | 0, _ => .error (.expected "fewer levels")
  | n + 1, j => do
    let r ← record ["kind", "ty", "location"] j
    let kind ← r.required "kind" (exprKind n)
    let ty ← r.required "ty" type
    let location ← locationOf r
    return kind { ty, location }

def fieldInit : Nat → Json → Read FieldInit
  | 0, _ => .error (.expected "fewer levels")
  | n + 1, j => do
    let r ← record ["name", "value"] j
    return .mk (← r.required "name" readString) (← r.required "value" (expr n))

def matchArm : Nat → Json → Read MatchArm
  | 0, _ => .error (.expected "fewer levels")
  | n + 1, j => do
    let r ← record ["variant", "bindings", "body"] j
    return .mk (← r.nullable "variant" readString)
      (← r.defaulted "bindings" [] (readList readString)) (← r.required "body" (expr n))

def stmt : Nat → Json → Read Stmt
  | 0, _ => .error (.expected "fewer levels")
  | n + 1, j => do
    match ← tagged j with
    | ("let", body) =>
      let r ← record ["name", "ty", "value", "location"] body
      return .letVar (← r.required "name" readString) (← r.required "ty" type)
        (← r.nullable "value" (expr n)) (← locationOf r)
    | ("expr", body) => return .expr (← expr n body)
    | ("return", body) =>
      let r ← record ["value", "location"] body
      return .ret (← r.nullable "value" (expr n)) (← locationOf r)
    | ("if", body) =>
      let r ← record ["condition", "then_block", "else_block", "location"] body
      return .ifElse (← r.required "condition" (expr n))
        (← r.required "then_block" (readList (stmt n)))
        (← r.nullable "else_block" (readList (stmt n))) (← locationOf r)
    | ("while", body) =>
      let r ← record ["condition", "body", "location"] body
      return .whileLoop (← r.required "condition" (expr n))
        (← r.required "body" (readList (stmt n))) (← locationOf r)
    | ("break", body) => return .breakLoop (← locationOf (← record ["location"] body))
    | ("continue", body) => return .continueLoop (← locationOf (← record ["location"] body))
    | ("switch", body) =>
      let r ← record ["scrutinee", "cases", "default", "location"] body
      return .switch (← r.required "scrutinee" (expr n))
        (← r.required "cases" (readList (switchCase n)))
        (← r.nullable "default" (readList (stmt n))) (← locationOf r)
    | ("block", body) => return .block (← readList (stmt n) body)
    | (tag, _) => .error (.unknownVariant tag)

def switchCase : Nat → Json → Read SwitchCase
  | 0, _ => .error (.expected "fewer levels")
  | n + 1, j => do
    let r ← record ["value", "body"] j
    return .mk (← r.required "value" readInt64)
      (← r.required "body" (readList (stmt n)))

end

def stmts : Json → Read (List Stmt) := readList (stmt maxNesting)

def names : Json → Read (List String) := readList readString

def function (j : Json) : Read FunctionDecl := do
  let r ← record
    ["name", "generic_params", "params", "return_type", "body", "is_static", "location"] j
  return {
    name := ← r.required "name" readString
    typeParams := ← r.defaulted "generic_params" [] names
    params := ← r.defaulted "params" [] fields
    returnType := ← r.required "return_type" type
    body := ← r.defaulted "body" [] stmts
    isStatic := ← r.defaulted "is_static" false readBool
    location := ← locationOf r }

def struct (j : Json) : Read StructDecl := do
  let r ← record ["name", "generic_params", "parent", "fields", "methods", "location"] j
  return {
    name := ← r.required "name" readString
    typeParams := ← r.defaulted "generic_params" [] names
    parent := ← r.nullable "parent" type
    fields := ← r.defaulted "fields" [] fields
    methods := ← r.defaulted "methods" [] (readList function)
    location := ← locationOf r }

def payload (j : Json) : Read Payload := do
  match ← tagged j with
  | ("tuple", body) => return .tuple (← types body)
  | ("struct", body) => return .struct (← fields body)
  | (tag, _) => .error (.unknownVariant tag)

def variant (j : Json) : Read Variant := do
  let r ← record ["name", "payload"] j
  return { name := ← r.required "name" readString, payload := ← r.nullable "payload" payload }

def enum (j : Json) : Read EnumDecl := do
  let r ← record ["name", "generic_params", "variants", "methods", "location"] j
  return {
    name := ← r.required "name" readString
    typeParams := ← r.defaulted "generic_params" [] names
    variants := ← r.required "variants" (readList variant)
    methods := ← r.defaulted "methods" [] (readList function)
    location := ← locationOf r }

def external (j : Json) : Read ExternDecl := do
  let r ← record ["name", "params", "return_type", "variadic", "location"] j
  return {
    name := ← r.required "name" readString
    params := ← r.defaulted "params" [] fields
    returnType := ← r.required "return_type" type
    variadic := ← r.defaulted "variadic" false readBool
    location := ← locationOf r }

def typeAlias (j : Json) : Read AliasDecl := do
  let r ← record ["name", "generic_params", "target", "location"] j
  return {
    name := ← r.required "name" readString
    typeParams := ← r.defaulted "generic_params" [] names
    target := ← r.required "target" type
    location := ← locationOf r }

def decl (j : Json) : Read Decl := do
  match ← tagged j with
  | ("struct", body) => return .struct (← struct body)
  | ("enum", body) => return .enum (← enum body)
  | ("function", body) => return .function (← function body)
  | ("extern", body) => return .external (← external body)
  | ("type_alias", body) => return .typeAlias (← typeAlias body)
  | (tag, _) => .error (.unknownVariant tag)

def module (j : Json) : Read Module := do
  let r ← record ["name", "decls"] j
  return {
    name := ← r.required "name" readString
    decls := ← r.defaulted "decls" [] (readList decl) }

def limited {α : Type} (read : Json → Read α) (j : Json) : Read α := read (j.cut maxNesting)

end Decode

def Module.ofJson (j : Json) : Read Module := Decode.limited Decode.module j

def Module.parse (text : String) : Read Module :=
  match Json.parse? text with
  | some j => Module.ofJson j
  | none => .error .notJson

end Backend
