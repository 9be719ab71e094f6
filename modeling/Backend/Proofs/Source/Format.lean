import Backend.Source.Encode
import Backend.Proofs.Json.Variation

/-!
The JSON format of source modules: which objects are records, which of their fields may be left
out and what they stand for then. A module is portable if its numbers fit the widths of their
fields.
-/

namespace Backend

open Json (Form)

/-- What the format nests: types, expressions and statements. -/
inductive Category where
  | type | expr | stmt

namespace Format

def location : Form Category :=
  .record [("file", some (.string ""), .plain), ("line", some (.int 0), .plain),
    ("column", some (.int 0), .plain)]

def place : String × Option Json × Form Category :=
  ("location", some (Location.toJson {}), location)

def types : Form Category := .list (.of .type)

def exprs : Form Category := .list (.of .expr)

def block : Form Category := .list (.of .stmt)

def typeArgs : String × Option Json × Form Category := ("generic_args", some (.array []), types)

def field : Form Category := .record [("name", none, .plain), ("ty", none, .of .type)]

def fields : Form Category := .list field

def type : Form Category :=
  .variants [
    ("primitive", .plain),
    ("pointer", .record [("inner", none, .of .type), ("depth", none, .plain)]),
    ("array", .record [("inner", none, .of .type), ("dims", none, .plain)]),
    ("tuple", types),
    ("function", .record [("params", none, types), ("ret", none, .of .type),
      ("variadic", some (.bool false), .plain)]),
    ("named", .record [("name", none, .plain), typeArgs,
      ("resolved", some .null, .nullable .plain)])]

def fieldInit : Form Category := .record [("name", none, .plain), ("value", none, .of .expr)]

def matchArm : Form Category :=
  .record [("variant", some .null, .nullable .plain), ("bindings", some (.array []), .plain),
    ("body", none, .of .expr)]

def exprKind : Form Category :=
  .variants [
    ("literal", .plain),
    ("variable", .plain),
    ("binary", .record [("op", none, .plain), ("lhs", none, .of .expr), ("rhs", none, .of .expr)]),
    ("unary", .record [("op", none, .plain), ("operand", none, .of .expr)]),
    ("assign", .record [("target", none, .of .expr), ("value", none, .of .expr)]),
    ("call", .record [("callee", none, .plain), typeArgs, ("args", none, exprs)]),
    ("method_call", .record [("receiver", none, .of .expr), ("method", none, .plain), typeArgs,
      ("args", none, exprs)]),
    ("static_call", .record [("owner", none, .of .type), ("method", none, .plain), typeArgs,
      ("args", none, exprs)]),
    ("closure_call", .record [("callee", none, .of .expr), ("args", none, exprs)]),
    ("function_ref", .record [("name", none, .plain), typeArgs]),
    ("member", .record [("object", none, .of .expr), ("field", none, .plain)]),
    ("index", .record [("object", none, .of .expr), ("index", none, .of .expr)]),
    ("tuple_index", .record [("object", none, .of .expr), ("index", none, .plain)]),
    ("struct_literal", .record [("fields", none, .list fieldInit)]),
    ("tuple_literal", exprs),
    ("array_literal", exprs),
    ("enum_variant", .record [("variant", none, .plain), ("args", some (.array []), exprs)]),
    ("match", .record [("scrutinee", none, .of .expr), ("arms", none, .list matchArm)]),
    ("lambda", .record [("params", none, fields), ("body", none, block),
      ("captures", some (.array []), fields)]),
    ("ternary", .record [("condition", none, .of .expr), ("then_value", none, .of .expr),
      ("else_value", none, .of .expr)]),
    ("cast", .record [("value", none, .of .expr)]),
    ("sizeof", .of .type)]

def expr : Form Category :=
  .record [("kind", none, exprKind), ("ty", none, .of .type), place]

def switchCase : Form Category := .record [("value", none, .plain), ("body", none, block)]

def stmt : Form Category :=
  .variants [
    ("let", .record [("name", none, .plain), ("ty", none, .of .type),
      ("value", some .null, .nullable (.of .expr)), place]),
    ("expr", .of .expr),
    ("return", .record [("value", some .null, .nullable (.of .expr)), place]),
    ("if", .record [("condition", none, .of .expr), ("then_block", none, block),
      ("else_block", some .null, .nullable block), place]),
    ("while", .record [("condition", none, .of .expr), ("body", none, block), place]),
    ("break", .record [place]),
    ("continue", .record [place]),
    ("switch", .record [("scrutinee", none, .of .expr), ("cases", none, .list switchCase),
      ("default", some .null, .nullable block), place]),
    ("block", block)]

def forms : Category → Form Category
  | .type => type
  | .expr => expr
  | .stmt => stmt

def typeParams : String × Option Json × Form Category :=
  ("generic_params", some (.array []), .plain)

def function : Form Category :=
  .record [("name", none, .plain), typeParams, ("params", some (.array []), fields),
    ("return_type", none, .of .type), ("body", some (.array []), block),
    ("is_static", some (.bool false), .plain), place]

def methods : String × Option Json × Form Category :=
  ("methods", some (.array []), .list function)

def struct : Form Category :=
  .record [("name", none, .plain), typeParams, ("parent", some .null, .nullable (.of .type)),
    ("fields", some (.array []), fields), methods, place]

def payload : Form Category := .variants [("tuple", types), ("struct", fields)]

def variant : Form Category :=
  .record [("name", none, .plain), ("payload", some .null, .nullable payload)]

def enum : Form Category :=
  .record [("name", none, .plain), typeParams, ("variants", none, .list variant), methods, place]

def external : Form Category :=
  .record [("name", none, .plain), ("params", some (.array []), fields),
    ("return_type", none, .of .type), ("variadic", some (.bool false), .plain), place]

def typeAlias : Form Category :=
  .record [("name", none, .plain), typeParams, ("target", none, .of .type), place]

def decl : Form Category :=
  .variants [("struct", struct), ("enum", enum), ("function", function), ("extern", external),
    ("type_alias", typeAlias)]

def module : Form Category :=
  .record [("name", none, .plain), ("decls", some (.array []), .list decl)]

end Format

/-! ### Portable modules -/

def Location.portable (l : Location) : Bool :=
  decide (l.line < twoPow 32) && decide (l.column < twoPow 32)

mutual

def TypeRef.portable : TypeRef → Bool
  | .primitive _ => true
  | .pointer inner depth => decide (depth < twoPow 32) && inner.portable
  | .array inner dims => (dims.all fun d => decide (d < twoPow 64)) && inner.portable
  | .tuple elems => typesPortable elems
  | .function params ret _ => typesPortable params && ret.portable
  | .named _ args _ => typesPortable args

def typesPortable : List TypeRef → Bool
  | [] => true
  | t :: ts => t.portable && typesPortable ts

end

def fieldsPortable (fields : List Field) : Bool := fields.all fun f => f.ty.portable

def Literal.portable : Literal → Bool
  | .int n => decide (-(twoPow 63 : Int) ≤ n) && decide (n < twoPow 63)
  | _ => true

def ExprInfo.portable (i : ExprInfo) : Bool := i.ty.portable && i.location.portable

mutual

def Expr.portable : Expr → Bool
  | .literal i v => i.portable && v.portable
  | .var i _ => i.portable
  | .binary i _ lhs rhs => i.portable && lhs.portable && rhs.portable
  | .unary i _ operand => i.portable && operand.portable
  | .assign i target value => i.portable && target.portable && value.portable
  | .call i _ typeArgs args => i.portable && typesPortable typeArgs && exprsPortable args
  | .methodCall i receiver _ typeArgs args =>
    i.portable && receiver.portable && typesPortable typeArgs && exprsPortable args
  | .staticCall i owner _ typeArgs args =>
    i.portable && owner.portable && typesPortable typeArgs && exprsPortable args
  | .closureCall i callee args => i.portable && callee.portable && exprsPortable args
  | .functionRef i _ typeArgs => i.portable && typesPortable typeArgs
  | .member i object _ => i.portable && object.portable
  | .index i object position => i.portable && object.portable && position.portable
  | .tupleIndex i object position =>
    i.portable && object.portable && decide (position < twoPow 64)
  | .structLiteral i fields => i.portable && initsPortable fields
  | .tupleLiteral i elems | .arrayLiteral i elems => i.portable && exprsPortable elems
  | .enumVariant i _ args => i.portable && exprsPortable args
  | .matchOn i scrutinee arms => i.portable && scrutinee.portable && armsPortable arms
  | .lambda i params body captures =>
    i.portable && fieldsPortable params && stmtsPortable body && fieldsPortable captures
  | .ternary i condition thenValue elseValue =>
    i.portable && condition.portable && thenValue.portable && elseValue.portable
  | .cast i value => i.portable && value.portable
  | .sizeof i ty => i.portable && ty.portable

def exprsPortable : List Expr → Bool
  | [] => true
  | e :: rest => e.portable && exprsPortable rest

def initsPortable : List FieldInit → Bool
  | [] => true
  | .mk _ value :: rest => value.portable && initsPortable rest

def armsPortable : List MatchArm → Bool
  | [] => true
  | .mk _ _ body :: rest => body.portable && armsPortable rest

def Stmt.portable : Stmt → Bool
  | .letVar _ ty value l => ty.portable && valuePortable value && l.portable
  | .expr e => e.portable
  | .ret value l => valuePortable value && l.portable
  | .ifElse condition thenBlock elseBlock l =>
    condition.portable && stmtsPortable thenBlock && blockPortable elseBlock && l.portable
  | .whileLoop condition body l => condition.portable && stmtsPortable body && l.portable
  | .breakLoop l | .continueLoop l => l.portable
  | .switch scrutinee cases default l =>
    scrutinee.portable && casesPortable cases && blockPortable default && l.portable
  | .block body => stmtsPortable body

def valuePortable : Option Expr → Bool
  | none => true
  | some e => e.portable

def blockPortable : Option (List Stmt) → Bool
  | none => true
  | some body => stmtsPortable body

def stmtsPortable : List Stmt → Bool
  | [] => true
  | s :: rest => s.portable && stmtsPortable rest

def casesPortable : List SwitchCase → Bool
  | [] => true
  | .mk value body :: rest =>
    decide (-(twoPow 63 : Int) ≤ value) && decide (value < twoPow 63) && stmtsPortable body &&
      casesPortable rest

end

def FunctionDecl.portable (f : FunctionDecl) : Bool :=
  fieldsPortable f.params && f.returnType.portable && stmtsPortable f.body && f.location.portable

def StructDecl.portable (s : StructDecl) : Bool :=
  s.parent.all TypeRef.portable && fieldsPortable s.fields && s.methods.all FunctionDecl.portable &&
    s.location.portable

def Payload.portable : Payload → Bool
  | .tuple types => typesPortable types
  | .struct fields => fieldsPortable fields

def EnumDecl.portable (e : EnumDecl) : Bool :=
  (e.variants.all fun v => v.payload.all Payload.portable) &&
    e.methods.all FunctionDecl.portable && e.location.portable

def Decl.portable : Decl → Bool
  | .struct d => d.portable
  | .enum d => d.portable
  | .function d => d.portable
  | .external d => fieldsPortable d.params && d.returnType.portable && d.location.portable
  | .typeAlias d => d.target.portable && d.location.portable

def Module.portable (m : Module) : Bool := m.decls.all Decl.portable

end Backend
