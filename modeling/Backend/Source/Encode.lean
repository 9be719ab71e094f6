import Backend.Json.Value
import Backend.Source.Decl

/-! The JSON form of source modules. Every field is written, defaults included. -/

namespace Backend

def jsonStrings (names : List String) : Json := .array (names.map .string)

def jsonOption (j : Option Json) : Json := j.getD .null

def jsonTagged (tag : String) (body : Json) : Json := .object [(tag, body)]

def Location.toJson (l : Location) : Json :=
  .object [("file", .string l.file), ("line", .int l.line), ("column", .int l.column)]

def DeclKind.name : DeclKind → String
  | .struct => "struct"
  | .enum => "enum"

mutual

def TypeRef.toJson : TypeRef → Json
  | .primitive p => jsonTagged "primitive" (.string p.name)
  | .pointer inner depth =>
    jsonTagged "pointer" (.object [("inner", inner.toJson), ("depth", .int depth)])
  | .array inner dims =>
    jsonTagged "array"
      (.object [("inner", inner.toJson), ("dims", .array (dims.map fun (d : Nat) => .int d))])
  | .tuple elems => jsonTagged "tuple" (.array (typesJson elems))
  | .function params ret variadic =>
    jsonTagged "function"
      (.object [("params", .array (typesJson params)), ("ret", ret.toJson),
        ("variadic", .bool variadic)])
  | .named name args hint =>
    jsonTagged "named"
      (.object [("name", .string name), ("generic_args", .array (typesJson args)),
        ("resolved", jsonOption (hint.map fun k => .string k.name))])

def typesJson : List TypeRef → List Json
  | [] => []
  | t :: ts => t.toJson :: typesJson ts

end

def Field.toJson (f : Field) : Json := .object [("name", .string f.name), ("ty", f.ty.toJson)]

def jsonFields (fields : List Field) : Json := .array (fields.map Field.toJson)

def Literal.toJson : Literal → Json
  | .int n => jsonTagged "int" (.int n)
  | .float x => jsonTagged "float" (.float x)
  | .bool b => jsonTagged "bool" (.bool b)
  | .string s => jsonTagged "string" (.string s)
  | .null => .string "null"

def BinaryOp.name : BinaryOp → String
  | .add => "add"
  | .sub => "sub"
  | .mul => "mul"
  | .div => "div"
  | .rem => "rem"
  | .eq => "eq"
  | .ne => "ne"
  | .lt => "lt"
  | .le => "le"
  | .gt => "gt"
  | .ge => "ge"
  | .and => "and"
  | .or => "or"
  | .bitAnd => "bit_and"
  | .bitOr => "bit_or"
  | .bitXor => "bit_xor"
  | .shl => "shl"
  | .shr => "shr"

def UnaryOp.name : UnaryOp → String
  | .neg => "neg"
  | .not => "not"
  | .deref => "deref"
  | .addressOf => "address_of"

def ExprInfo.wrap (info : ExprInfo) (kind : Json) : Json :=
  .object [("kind", kind), ("ty", info.ty.toJson), ("location", info.location.toJson)]

mutual

def Expr.toJson : Expr → Json
  | .literal i v => i.wrap (jsonTagged "literal" v.toJson)
  | .var i name => i.wrap (jsonTagged "variable" (.string name))
  | .binary i op lhs rhs =>
    i.wrap (jsonTagged "binary"
      (.object [("op", .string op.name), ("lhs", lhs.toJson), ("rhs", rhs.toJson)]))
  | .unary i op operand =>
    i.wrap (jsonTagged "unary" (.object [("op", .string op.name), ("operand", operand.toJson)]))
  | .assign i target value =>
    i.wrap (jsonTagged "assign" (.object [("target", target.toJson), ("value", value.toJson)]))
  | .call i callee typeArgs args =>
    i.wrap (jsonTagged "call"
      (.object [("callee", .string callee), ("generic_args", .array (typesJson typeArgs)),
        ("args", .array (exprsJson args))]))
  | .methodCall i receiver method typeArgs args =>
    i.wrap (jsonTagged "method_call"
      (.object [("receiver", receiver.toJson), ("method", .string method),
        ("generic_args", .array (typesJson typeArgs)), ("args", .array (exprsJson args))]))
  | .staticCall i owner method typeArgs args =>
    i.wrap (jsonTagged "static_call"
      (.object [("owner", owner.toJson), ("method", .string method),
        ("generic_args", .array (typesJson typeArgs)), ("args", .array (exprsJson args))]))
  | .closureCall i callee args =>
    i.wrap (jsonTagged "closure_call"
      (.object [("callee", callee.toJson), ("args", .array (exprsJson args))]))
  | .functionRef i name typeArgs =>
    i.wrap (jsonTagged "function_ref"
      (.object [("name", .string name), ("generic_args", .array (typesJson typeArgs))]))
  | .member i object field =>
    i.wrap (jsonTagged "member" (.object [("object", object.toJson), ("field", .string field)]))
  | .index i object position =>
    i.wrap (jsonTagged "index" (.object [("object", object.toJson), ("index", position.toJson)]))
  | .tupleIndex i object position =>
    i.wrap (jsonTagged "tuple_index"
      (.object [("object", object.toJson), ("index", .int position)]))
  | .structLiteral i fields =>
    i.wrap (jsonTagged "struct_literal" (.object [("fields", .array (initsJson fields))]))
  | .tupleLiteral i elems => i.wrap (jsonTagged "tuple_literal" (.array (exprsJson elems)))
  | .arrayLiteral i elems => i.wrap (jsonTagged "array_literal" (.array (exprsJson elems)))
  | .enumVariant i variant args =>
    i.wrap (jsonTagged "enum_variant"
      (.object [("variant", .string variant), ("args", .array (exprsJson args))]))
  | .matchOn i scrutinee arms =>
    i.wrap (jsonTagged "match"
      (.object [("scrutinee", scrutinee.toJson), ("arms", .array (armsJson arms))]))
  | .lambda i params body captures =>
    i.wrap (jsonTagged "lambda"
      (.object [("params", jsonFields params), ("body", .array (stmtsJson body)),
        ("captures", jsonFields captures)]))
  | .ternary i condition thenValue elseValue =>
    i.wrap (jsonTagged "ternary"
      (.object [("condition", condition.toJson), ("then_value", thenValue.toJson),
        ("else_value", elseValue.toJson)]))
  | .cast i value => i.wrap (jsonTagged "cast" (.object [("value", value.toJson)]))
  | .sizeof i ty => i.wrap (jsonTagged "sizeof" ty.toJson)

def exprsJson : List Expr → List Json
  | [] => []
  | e :: es => e.toJson :: exprsJson es

def initsJson : List FieldInit → List Json
  | [] => []
  | .mk name value :: rest =>
    .object [("name", .string name), ("value", value.toJson)] :: initsJson rest

def armsJson : List MatchArm → List Json
  | [] => []
  | .mk variant bindings body :: rest =>
    .object [("variant", jsonOption (variant.map .string)), ("bindings", jsonStrings bindings),
      ("body", body.toJson)] :: armsJson rest

def Stmt.toJson : Stmt → Json
  | .letVar name ty value l =>
    jsonTagged "let"
      (.object [("name", .string name), ("ty", ty.toJson), ("value", exprOptionJson value),
        ("location", l.toJson)])
  | .expr e => jsonTagged "expr" e.toJson
  | .ret value l =>
    jsonTagged "return" (.object [("value", exprOptionJson value), ("location", l.toJson)])
  | .ifElse condition thenBlock elseBlock l =>
    jsonTagged "if"
      (.object [("condition", condition.toJson), ("then_block", .array (stmtsJson thenBlock)),
        ("else_block", blockOptionJson elseBlock), ("location", l.toJson)])
  | .whileLoop condition body l =>
    jsonTagged "while"
      (.object [("condition", condition.toJson), ("body", .array (stmtsJson body)),
        ("location", l.toJson)])
  | .breakLoop l => jsonTagged "break" (.object [("location", l.toJson)])
  | .continueLoop l => jsonTagged "continue" (.object [("location", l.toJson)])
  | .switch scrutinee cases default l =>
    jsonTagged "switch"
      (.object [("scrutinee", scrutinee.toJson), ("cases", .array (casesJson cases)),
        ("default", blockOptionJson default), ("location", l.toJson)])
  | .block body => jsonTagged "block" (.array (stmtsJson body))

def exprOptionJson : Option Expr → Json
  | none => .null
  | some e => e.toJson

def blockOptionJson : Option (List Stmt) → Json
  | none => .null
  | some body => .array (stmtsJson body)

def stmtsJson : List Stmt → List Json
  | [] => []
  | s :: ss => s.toJson :: stmtsJson ss

def casesJson : List SwitchCase → List Json
  | [] => []
  | .mk value body :: rest =>
    .object [("value", .int value), ("body", .array (stmtsJson body))] :: casesJson rest

end

def FunctionDecl.toJson (f : FunctionDecl) : Json :=
  .object [("name", .string f.name), ("generic_params", jsonStrings f.typeParams),
    ("params", jsonFields f.params), ("return_type", f.returnType.toJson),
    ("body", .array (stmtsJson f.body)), ("is_static", .bool f.isStatic),
    ("location", f.location.toJson)]

def jsonMethods (methods : List FunctionDecl) : Json := .array (methods.map FunctionDecl.toJson)

def StructDecl.toJson (s : StructDecl) : Json :=
  .object [("name", .string s.name), ("generic_params", jsonStrings s.typeParams),
    ("parent", jsonOption (s.parent.map TypeRef.toJson)), ("fields", jsonFields s.fields),
    ("methods", jsonMethods s.methods), ("location", s.location.toJson)]

def Payload.toJson : Payload → Json
  | .tuple types => jsonTagged "tuple" (.array (typesJson types))
  | .struct fields => jsonTagged "struct" (jsonFields fields)

def Variant.toJson (v : Variant) : Json :=
  .object [("name", .string v.name), ("payload", jsonOption (v.payload.map Payload.toJson))]

def EnumDecl.toJson (e : EnumDecl) : Json :=
  .object [("name", .string e.name), ("generic_params", jsonStrings e.typeParams),
    ("variants", .array (e.variants.map Variant.toJson)), ("methods", jsonMethods e.methods),
    ("location", e.location.toJson)]

def ExternDecl.toJson (e : ExternDecl) : Json :=
  .object [("name", .string e.name), ("params", jsonFields e.params),
    ("return_type", e.returnType.toJson), ("variadic", .bool e.variadic),
    ("location", e.location.toJson)]

def AliasDecl.toJson (a : AliasDecl) : Json :=
  .object [("name", .string a.name), ("generic_params", jsonStrings a.typeParams),
    ("target", a.target.toJson), ("location", a.location.toJson)]

def Decl.toJson : Decl → Json
  | .struct d => jsonTagged "struct" d.toJson
  | .enum d => jsonTagged "enum" d.toJson
  | .function d => jsonTagged "function" d.toJson
  | .external d => jsonTagged "extern" d.toJson
  | .typeAlias d => jsonTagged "type_alias" d.toJson

def Module.toJson (m : Module) : Json :=
  .object [("name", .string m.name), ("decls", .array (m.decls.map Decl.toJson))]

end Backend
