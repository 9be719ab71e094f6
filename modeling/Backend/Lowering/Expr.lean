import Backend.Lowering.Aggregate
import Backend.Lowering.Lambda
import Backend.Lowering.Operator
import Backend.Lowering.Variant

/-! The lowering of expressions, part by part. -/

namespace Backend

mutual

def Expr.code : Expr → Code
  | .literal info l => .literal info l
  | .var info name => .var info name
  | .binary info op lhs rhs => .binary info op lhs.code rhs.code
  | .unary info op operand => .unary info op operand.code
  | .assign info target value => .assign info target.code value.code
  | .call info callee typeArgs args => .call info callee ⟨typeArgs, exprCodes args⟩
  | .methodCall info receiver method typeArgs args =>
    .methodCall info receiver.code method ⟨typeArgs, exprCodes args⟩
  | .staticCall info owner method typeArgs args =>
    .staticCall info owner method ⟨typeArgs, exprCodes args⟩
  | .closureCall info callee args => .closureCall info callee.code (exprCodes args)
  | .functionRef info name typeArgs => .functionRef info name typeArgs
  | .member info object field => .member info object.code field
  | .index info object position => .index info object.code position.code
  | .tupleIndex info object position => .tupleIndex info object.code position
  | .structLiteral info fields => .structLiteral info (fieldCodes fields)
  | .tupleLiteral info elems => .tupleLiteral info (exprCodes elems)
  | .arrayLiteral info elems => .arrayLiteral info (exprCodes elems)
  | .enumVariant info variant args => .enumVariant info variant (exprCodes args)
  | .matchOn info scrutinee arms => .matchOn info scrutinee.code (armCodes arms)
  | .lambda info params body captures => .lambda info params body captures
  | .ternary info condition thenValue elseValue =>
    .ternary info condition.code thenValue.code elseValue.code
  | .cast info value => .cast info value.code
  | .sizeof info ty => .sizeof info ty

def exprCodes : List Expr → List Code
  | [] => []
  | e :: rest => e.code :: exprCodes rest

def fieldCodes : List FieldInit → List (String × Code)
  | [] => []
  | .mk name value :: rest => (name, value.code) :: fieldCodes rest

def armCodes : List MatchArm → List ArmCode
  | [] => []
  | .mk variant bindings body :: rest => ⟨variant, bindings, body.code⟩ :: armCodes rest

end

end Backend
