import Backend.Binary64
import Backend.Source.Location
import Backend.Source.Type

/-!
Typed expressions and statements. Every expression carries its type and its place; a lambda holds
statements, so the two are defined together.
-/

namespace Backend

/-- A name with a type: a parameter, a captured variable or a field. -/
structure Field where
  name : String
  ty : TypeRef

inductive Literal where
  | int (n : Int)
  | float (x : Binary64)
  | bool (b : Bool)
  | string (s : String)
  | null

inductive BinaryOp where
  | add | sub | mul | div | rem
  | eq | ne | lt | le | gt | ge
  | and | or
  | bitAnd | bitOr | bitXor | shl | shr
  deriving DecidableEq

def BinaryOp.isComparison : BinaryOp → Bool
  | .eq | .ne | .lt | .le | .gt | .ge => true
  | _ => false

def BinaryOp.title : BinaryOp → String
  | .add => "Add"
  | .sub => "Sub"
  | .mul => "Mul"
  | .div => "Div"
  | .rem => "Rem"
  | .eq => "Eq"
  | .ne => "Ne"
  | .lt => "Lt"
  | .le => "Le"
  | .gt => "Gt"
  | .ge => "Ge"
  | .and => "And"
  | .or => "Or"
  | .bitAnd => "BitAnd"
  | .bitOr => "BitOr"
  | .bitXor => "BitXor"
  | .shl => "Shl"
  | .shr => "Shr"

inductive UnaryOp where
  | neg | not | deref | addressOf
  deriving DecidableEq

/-- What every expression carries. -/
structure ExprInfo where
  ty : TypeRef
  location : Location := {}

mutual

inductive Expr where
  | literal (info : ExprInfo) (value : Literal)
  /-- A local variable, or a function of that name if there is no such variable. -/
  | var (info : ExprInfo) (name : String)
  | binary (info : ExprInfo) (op : BinaryOp) (lhs rhs : Expr)
  | unary (info : ExprInfo) (op : UnaryOp) (operand : Expr)
  | assign (info : ExprInfo) (target value : Expr)
  | call (info : ExprInfo) (callee : String) (typeArgs : List TypeRef) (args : List Expr)
  | methodCall (info : ExprInfo) (receiver : Expr) (method : String) (typeArgs : List TypeRef)
      (args : List Expr)
  | staticCall (info : ExprInfo) (owner : TypeRef) (method : String) (typeArgs : List TypeRef)
      (args : List Expr)
  | closureCall (info : ExprInfo) (callee : Expr) (args : List Expr)
  | functionRef (info : ExprInfo) (name : String) (typeArgs : List TypeRef)
  | member (info : ExprInfo) (object : Expr) (field : String)
  | index (info : ExprInfo) (object position : Expr)
  | tupleIndex (info : ExprInfo) (object : Expr) (position : Nat)
  | structLiteral (info : ExprInfo) (fields : List FieldInit)
  | tupleLiteral (info : ExprInfo) (elems : List Expr)
  | arrayLiteral (info : ExprInfo) (elems : List Expr)
  | enumVariant (info : ExprInfo) (variant : String) (args : List Expr)
  | matchOn (info : ExprInfo) (scrutinee : Expr) (arms : List MatchArm)
  | lambda (info : ExprInfo) (params : List Field) (body : List Stmt) (captures : List Field)
  | ternary (info : ExprInfo) (condition thenValue elseValue : Expr)
  | cast (info : ExprInfo) (value : Expr)
  | sizeof (info : ExprInfo) (ty : TypeRef)

inductive FieldInit where
  | mk (name : String) (value : Expr)

/-- One arm of a match. Without a variant it takes every value. -/
inductive MatchArm where
  | mk (variant : Option String) (bindings : List String) (body : Expr)

inductive Stmt where
  | letVar (name : String) (ty : TypeRef) (value : Option Expr) (location : Location)
  | expr (e : Expr)
  | ret (value : Option Expr) (location : Location)
  | ifElse (condition : Expr) (thenBlock : List Stmt) (elseBlock : Option (List Stmt))
      (location : Location)
  | whileLoop (condition : Expr) (body : List Stmt) (location : Location)
  | breakLoop (location : Location)
  | continueLoop (location : Location)
  | switch (scrutinee : Expr) (cases : List SwitchCase) (default : Option (List Stmt))
      (location : Location)
  | block (body : List Stmt)

inductive SwitchCase where
  | mk (value : Int) (body : List Stmt)

end

namespace Expr

def info : Expr → ExprInfo
  | .literal i _ | .var i _ | .binary i _ _ _ | .unary i _ _ | .assign i _ _ | .call i _ _ _
  | .methodCall i _ _ _ _ | .staticCall i _ _ _ _ | .closureCall i _ _ | .functionRef i _ _
  | .member i _ _ | .index i _ _ | .tupleIndex i _ _ | .structLiteral i _ | .tupleLiteral i _
  | .arrayLiteral i _ | .enumVariant i _ _ | .matchOn i _ _ | .lambda i _ _ _ | .ternary i _ _ _
  | .cast i _ | .sizeof i _ => i

def ty (e : Expr) : TypeRef := e.info.ty

def location (e : Expr) : Location := e.info.location

def withInfo (i : ExprInfo) : Expr → Expr
  | .literal _ v => .literal i v
  | .var _ n => .var i n
  | .binary _ op l r => .binary i op l r
  | .unary _ op e => .unary i op e
  | .assign _ t v => .assign i t v
  | .call _ f ts as => .call i f ts as
  | .methodCall _ r m ts as => .methodCall i r m ts as
  | .staticCall _ o m ts as => .staticCall i o m ts as
  | .closureCall _ f as => .closureCall i f as
  | .functionRef _ n ts => .functionRef i n ts
  | .member _ o f => .member i o f
  | .index _ o p => .index i o p
  | .tupleIndex _ o p => .tupleIndex i o p
  | .structLiteral _ fs => .structLiteral i fs
  | .tupleLiteral _ es => .tupleLiteral i es
  | .arrayLiteral _ es => .arrayLiteral i es
  | .enumVariant _ v as => .enumVariant i v as
  | .matchOn _ s arms => .matchOn i s arms
  | .lambda _ ps b cs => .lambda i ps b cs
  | .ternary _ c t e => .ternary i c t e
  | .cast _ v => .cast i v
  | .sizeof _ t => .sizeof i t

def placedAt (e : Expr) (location : Location) : Expr := e.withInfo { e.info with location }

def ofInt (n : Int) : Expr := .literal { ty := .i32 } (.int n)

def ofBool (b : Bool) : Expr := .literal { ty := .bool } (.bool b)

end Expr

/-- The place of a statement. An expression has its own, a block has none. -/
def Stmt.location? : Stmt → Option Location
  | .letVar _ _ _ l | .ret _ l | .ifElse _ _ _ l | .whileLoop _ _ l | .breakLoop l
  | .continueLoop l | .switch _ _ _ l => some l
  | .expr e => some e.location
  | .block _ => none

end Backend
