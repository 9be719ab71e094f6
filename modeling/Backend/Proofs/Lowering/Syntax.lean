import Backend.Lowering.Function

/-!
The types in a body. A body can be written again with other types, and a condition can be asked of
all its types and of all names that it calls.
-/

namespace Backend

def Field.mapType (g : TypeRef → TypeRef) (f : Field) : Field := { f with ty := g f.ty }

def ExprInfo.mapType (g : TypeRef → TypeRef) (i : ExprInfo) : ExprInfo := { i with ty := g i.ty }

mutual

def Expr.mapTypes (g : TypeRef → TypeRef) : Expr → Expr
  | .literal i v => .literal (i.mapType g) v
  | .var i name => .var (i.mapType g) name
  | .binary i op lhs rhs => .binary (i.mapType g) op (lhs.mapTypes g) (rhs.mapTypes g)
  | .unary i op operand => .unary (i.mapType g) op (operand.mapTypes g)
  | .assign i target value => .assign (i.mapType g) (target.mapTypes g) (value.mapTypes g)
  | .call i callee typeArgs args => .call (i.mapType g) callee (typeArgs.map g) (mapExprs g args)
  | .methodCall i receiver method typeArgs args =>
    .methodCall (i.mapType g) (receiver.mapTypes g) method (typeArgs.map g) (mapExprs g args)
  | .staticCall i owner method typeArgs args =>
    .staticCall (i.mapType g) (g owner) method (typeArgs.map g) (mapExprs g args)
  | .closureCall i callee args => .closureCall (i.mapType g) (callee.mapTypes g) (mapExprs g args)
  | .functionRef i name typeArgs => .functionRef (i.mapType g) name (typeArgs.map g)
  | .member i object field => .member (i.mapType g) (object.mapTypes g) field
  | .index i object position => .index (i.mapType g) (object.mapTypes g) (position.mapTypes g)
  | .tupleIndex i object position => .tupleIndex (i.mapType g) (object.mapTypes g) position
  | .structLiteral i fields => .structLiteral (i.mapType g) (mapInits g fields)
  | .tupleLiteral i elems => .tupleLiteral (i.mapType g) (mapExprs g elems)
  | .arrayLiteral i elems => .arrayLiteral (i.mapType g) (mapExprs g elems)
  | .enumVariant i variant args => .enumVariant (i.mapType g) variant (mapExprs g args)
  | .matchOn i scrutinee arms => .matchOn (i.mapType g) (scrutinee.mapTypes g) (mapArms g arms)
  | .lambda i params body captures =>
    .lambda (i.mapType g) (params.map (Field.mapType g)) (mapStmts g body)
      (captures.map (Field.mapType g))
  | .ternary i condition thenValue elseValue =>
    .ternary (i.mapType g) (condition.mapTypes g) (thenValue.mapTypes g) (elseValue.mapTypes g)
  | .cast i value => .cast (i.mapType g) (value.mapTypes g)
  | .sizeof i ty => .sizeof (i.mapType g) (g ty)

def mapExprs (g : TypeRef → TypeRef) : List Expr → List Expr
  | [] => []
  | e :: rest => e.mapTypes g :: mapExprs g rest

def mapInits (g : TypeRef → TypeRef) : List FieldInit → List FieldInit
  | [] => []
  | .mk name value :: rest => .mk name (value.mapTypes g) :: mapInits g rest

def mapArms (g : TypeRef → TypeRef) : List MatchArm → List MatchArm
  | [] => []
  | .mk variant bindings body :: rest =>
    .mk variant bindings (body.mapTypes g) :: mapArms g rest

def Stmt.mapTypes (g : TypeRef → TypeRef) : Stmt → Stmt
  | .letVar name ty value l => .letVar name (g ty) (mapValue g value) l
  | .expr e => .expr (e.mapTypes g)
  | .ret value l => .ret (mapValue g value) l
  | .ifElse condition thenBlock elseBlock l =>
    .ifElse (condition.mapTypes g) (mapStmts g thenBlock) (mapBlock g elseBlock) l
  | .whileLoop condition body l => .whileLoop (condition.mapTypes g) (mapStmts g body) l
  | .breakLoop l => .breakLoop l
  | .continueLoop l => .continueLoop l
  | .switch scrutinee cases default l =>
    .switch (scrutinee.mapTypes g) (mapCases g cases) (mapBlock g default) l
  | .block body => .block (mapStmts g body)

def mapStmts (g : TypeRef → TypeRef) : List Stmt → List Stmt
  | [] => []
  | s :: rest => s.mapTypes g :: mapStmts g rest

def mapValue (g : TypeRef → TypeRef) : Option Expr → Option Expr
  | none => none
  | some e => some (e.mapTypes g)

def mapBlock (g : TypeRef → TypeRef) : Option (List Stmt) → Option (List Stmt)
  | none => none
  | some body => some (mapStmts g body)

def mapCases (g : TypeRef → TypeRef) : List SwitchCase → List SwitchCase
  | [] => []
  | .mk value body :: rest => .mk value (mapStmts g body) :: mapCases g rest

end

section

variable (types : TypeRef → Bool) (calls : String → Bool)

def Field.allTypes (fields : List Field) : Bool := fields.all fun f => types f.ty

mutual

/-- All types satisfy `types`, and all names that are called satisfy `calls`. -/
def Expr.all : Expr → Bool
  | .literal i _ | .var i _ => types i.ty
  | .binary i _ lhs rhs => types i.ty && lhs.all && rhs.all
  | .unary i _ operand => types i.ty && operand.all
  | .assign i target value => types i.ty && target.all && value.all
  | .call i callee typeArgs args =>
    types i.ty && calls callee && typeArgs.all types && allExprs args
  | .methodCall i receiver _ typeArgs args =>
    types i.ty && receiver.all && typeArgs.all types && allExprs args
  | .staticCall i owner _ typeArgs args =>
    types i.ty && types owner && typeArgs.all types && allExprs args
  | .closureCall i callee args => types i.ty && callee.all && allExprs args
  | .functionRef i _ typeArgs => types i.ty && typeArgs.all types
  | .member i object _ => types i.ty && object.all
  | .index i object position => types i.ty && object.all && position.all
  | .tupleIndex i object _ => types i.ty && object.all
  | .structLiteral i fields => types i.ty && allInits fields
  | .tupleLiteral i elems => types i.ty && allExprs elems
  | .arrayLiteral i elems => types i.ty && allExprs elems
  | .enumVariant i _ args => types i.ty && allExprs args
  | .matchOn i scrutinee arms => types i.ty && scrutinee.all && allArms arms
  | .lambda i params body captures =>
    types i.ty && Field.allTypes types params && allStmts body && Field.allTypes types captures
  | .ternary i condition thenValue elseValue =>
    types i.ty && condition.all && thenValue.all && elseValue.all
  | .cast i value => types i.ty && value.all
  | .sizeof i ty => types i.ty && types ty

def allExprs : List Expr → Bool
  | [] => true
  | e :: rest => e.all && allExprs rest

def allInits : List FieldInit → Bool
  | [] => true
  | .mk _ value :: rest => value.all && allInits rest

def allArms : List MatchArm → Bool
  | [] => true
  | .mk _ _ body :: rest => body.all && allArms rest

def Stmt.all : Stmt → Bool
  | .letVar _ ty value _ => types ty && allValue value
  | .expr e => e.all
  | .ret value _ => allValue value
  | .ifElse condition thenBlock elseBlock _ =>
    condition.all && allStmts thenBlock && allBlock elseBlock
  | .whileLoop condition body _ => condition.all && allStmts body
  | .breakLoop _ | .continueLoop _ => true
  | .switch scrutinee cases default _ => scrutinee.all && allCases cases && allBlock default
  | .block body => allStmts body

def allStmts : List Stmt → Bool
  | [] => true
  | s :: rest => s.all && allStmts rest

def allValue : Option Expr → Bool
  | none => true
  | some e => e.all

def allBlock : Option (List Stmt) → Bool
  | none => true
  | some body => allStmts body

def allCases : List SwitchCase → Bool
  | [] => true
  | .mk _ body :: rest => allStmts body && allCases rest

end

end

theorem Field.allTypes_true (fields : List Field) : Field.allTypes (fun _ => true) fields = true :=
  List.all_eq_true.mpr fun _ _ => rfl

mutual

theorem Expr.all_true : (e : Expr) → e.all (fun _ => true) (fun _ => true) = true
  | .literal i _ | .var i _ => by rw [Expr.all]
  | .binary i _ lhs rhs => by simp [Expr.all, lhs.all_true, rhs.all_true]
  | .unary i _ operand => by simp [Expr.all, operand.all_true]
  | .assign i target value => by simp [Expr.all, target.all_true, value.all_true]
  | .call i callee typeArgs args => by simp [Expr.all, allExprs_true args]
  | .methodCall i receiver _ typeArgs args => by
    simp [Expr.all, receiver.all_true, allExprs_true args]
  | .staticCall i owner _ typeArgs args => by simp [Expr.all, allExprs_true args]
  | .closureCall i callee args => by simp [Expr.all, callee.all_true, allExprs_true args]
  | .functionRef i _ typeArgs => by simp [Expr.all]
  | .member i object _ => by simp [Expr.all, object.all_true]
  | .index i object position => by simp [Expr.all, object.all_true, position.all_true]
  | .tupleIndex i object _ => by simp [Expr.all, object.all_true]
  | .structLiteral i fields => by simp [Expr.all, allInits_true fields]
  | .tupleLiteral i elems => by simp [Expr.all, allExprs_true elems]
  | .arrayLiteral i elems => by simp [Expr.all, allExprs_true elems]
  | .enumVariant i _ args => by simp [Expr.all, allExprs_true args]
  | .matchOn i scrutinee arms => by simp [Expr.all, scrutinee.all_true, allArms_true arms]
  | .lambda i params body captures => by simp [Expr.all, Field.allTypes_true, allStmts_true body]
  | .ternary i condition thenValue elseValue => by
    simp [Expr.all, condition.all_true, thenValue.all_true, elseValue.all_true]
  | .cast i value => by simp [Expr.all, value.all_true]
  | .sizeof i ty => by simp [Expr.all]

theorem allExprs_true : (es : List Expr) → allExprs (fun _ => true) (fun _ => true) es = true
  | [] => by rw [allExprs]
  | e :: rest => by rw [allExprs, e.all_true, allExprs_true rest, Bool.and_self]

theorem allInits_true :
    (inits : List FieldInit) → allInits (fun _ => true) (fun _ => true) inits = true
  | [] => by rw [allInits]
  | .mk _ value :: rest => by rw [allInits, value.all_true, allInits_true rest, Bool.and_self]

theorem allArms_true : (arms : List MatchArm) → allArms (fun _ => true) (fun _ => true) arms = true
  | [] => by rw [allArms]
  | .mk _ _ body :: rest => by rw [allArms, body.all_true, allArms_true rest, Bool.and_self]

theorem Stmt.all_true : (s : Stmt) → s.all (fun _ => true) (fun _ => true) = true
  | .letVar _ ty value _ => by rw [Stmt.all, allValue_true value, Bool.and_self]
  | .expr e => by rw [Stmt.all, e.all_true]
  | .ret value _ => by rw [Stmt.all, allValue_true value]
  | .ifElse condition thenBlock elseBlock _ => by
    simp [Stmt.all, condition.all_true, allStmts_true thenBlock, allBlock_true elseBlock]
  | .whileLoop condition body _ => by
    rw [Stmt.all, condition.all_true, allStmts_true body, Bool.and_self]
  | .breakLoop _ | .continueLoop _ => by rw [Stmt.all]
  | .switch scrutinee cases default _ => by
    simp [Stmt.all, scrutinee.all_true, allCases_true cases, allBlock_true default]
  | .block body => by rw [Stmt.all, allStmts_true body]

theorem allStmts_true : (body : List Stmt) → allStmts (fun _ => true) (fun _ => true) body = true
  | [] => by rw [allStmts]
  | s :: rest => by rw [allStmts, s.all_true, allStmts_true rest, Bool.and_self]

theorem allValue_true :
    (value : Option Expr) → allValue (fun _ => true) (fun _ => true) value = true
  | none => by rw [allValue]
  | some e => by rw [allValue, e.all_true]

theorem allBlock_true :
    (block : Option (List Stmt)) → allBlock (fun _ => true) (fun _ => true) block = true
  | none => by rw [allBlock]
  | some body => by rw [allBlock, allStmts_true body]

theorem allCases_true :
    (cases : List SwitchCase) → allCases (fun _ => true) (fun _ => true) cases = true
  | [] => by rw [allCases]
  | .mk _ body :: rest => by rw [allCases, allStmts_true body, allCases_true rest, Bool.and_self]

end

/-! ### Signatures -/

def Signature.mapTypes (g : TypeRef → TypeRef) (sig : Signature) : Signature :=
  { sig with
    params := sig.params.map (Field.mapType g)
    returnType := g sig.returnType
    captures := sig.captures.map fun c => { c with fields := c.fields.map (Field.mapType g) } }

def Signature.all (types : TypeRef → Bool) (sig : Signature) : Bool :=
  Field.allTypes types sig.params && types sig.returnType &&
    sig.captures.all fun c => Field.allTypes types c.fields

def LiftedLambda.mapTypes (g : TypeRef → TypeRef) (l : LiftedLambda) : LiftedLambda :=
  { l with
    params := l.params.map (Field.mapType g)
    captures := l.captures.map (Field.mapType g)
    body := mapStmts g l.body
    returnType := g l.returnType }

def LiftedLambda.all (types : TypeRef → Bool) (calls : String → Bool) (l : LiftedLambda) : Bool :=
  Field.allTypes types l.params && Field.allTypes types l.captures && allStmts types calls l.body &&
    types l.returnType

@[simp] theorem Expr.info_mapTypes (g : TypeRef → TypeRef) (e : Expr) :
    (e.mapTypes g).info = e.info.mapType g := by
  cases e <;> simp only [Expr.mapTypes, Expr.info]

theorem Expr.location_mapTypes (g : TypeRef → TypeRef) (e : Expr) :
    (e.mapTypes g).location = e.location := by
  simp only [Expr.location, Expr.info_mapTypes, ExprInfo.mapType]

end Backend
