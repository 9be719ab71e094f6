import Backend.Lowering.Expr

/-! The lowering of statements. A failure is placed at the innermost statement it happens in. -/

namespace Backend

namespace Emit

/-- Failures of `x` are placed at `l`, unless they have a place. -/
def locating {α : Type} (l : Location) (x : Emit α) : Emit α :=
  fun frame => Gen.locating l (x frame)

def defaultReturn : Emit Unit := do
  let f ← get
  if f.isMain then terminate (.ret ⟨.int 0, .i32⟩)
  else if f.returnType.isVoid then terminate .retVoid
  else terminate (.ret ⟨f.returnType.zero, f.returnType⟩)

def initialValue (ir : IrType) : Option Code → Emit Value
  | some c => c.coerced ir
  | none => return ⟨ir.zero, ir⟩

def letVar (name : String) (ty : TypeRef) (value : Option Code) : Emit Unit := do
  let ir ← resolve ty
  let slot ← alloca ir
  let init ← initialValue ir value
  store init (.reg slot)
  bindLocal name { slot, ty, ir }

/-- A function without a result may still evaluate what it returns. -/
def ret (value : Option Code) : Emit Unit := do
  let ty := (← get).returnType
  match value with
  | none => defaultReturn
  | some c =>
    if ty.isVoid then
      discard c.value
      defaultReturn
    else terminate (.ret (← c.coerced ty))

def inBlock (label next : Label) (body : Emit Unit) : Emit Unit := do
  startBlock label
  body
  jumpTo next

def ifElse (condition : Code) (thenBlock : Emit Unit) (elseBlock : Option (Emit Unit)) :
    Emit Unit := do
  let test ← condition.condition
  let thenLabel ← freshLabel "if.then"
  let endLabel ← freshLabel "if.end"
  match elseBlock with
  | none =>
    terminate (.branch test thenLabel endLabel)
    inBlock thenLabel endLabel thenBlock
  | some elseBlock =>
    let elseLabel ← freshLabel "if.else"
    terminate (.branch test thenLabel elseLabel)
    inBlock thenLabel endLabel thenBlock
    inBlock elseLabel endLabel elseBlock
  startBlock endLabel

def inLoop (labels : LoopLabels) (body : Emit Unit) : Emit Unit := do
  let outer := (← get).loops
  modify fun f => { f with loops := labels :: outer }
  body
  modify fun f => { f with loops := outer }

def whileLoop (condition : Code) (body : Emit Unit) : Emit Unit := do
  let conditionLabel ← freshLabel "while.cond"
  let bodyLabel ← freshLabel "while.body"
  let endLabel ← freshLabel "while.end"
  startBlock conditionLabel
  let test ← condition.condition
  terminate (.branch test bodyLabel endLabel)
  inBlock bodyLabel conditionLabel (inLoop { leave := endLabel, again := conditionLabel } body)
  startBlock endLabel

def loopJump (keyword : String) (target : LoopLabels → Label) : Emit Unit := do
  match (← get).loops with
  | labels :: _ => terminate (.jump (target labels))
  | [] => fail (.outsideLoop keyword)

def labelCases : List (Int × Emit Unit) → Emit (List (Int × Label × Emit Unit))
  | [] => return []
  | (n, body) :: rest => do
    let label ← freshLabel "switch.case"
    return (n, label, body) :: (← labelCases rest)

/-- Chooses among the cases; `defaultLabel` is where other values go. -/
def switchCases (v : Value) (endLabel defaultLabel : Label) (cases : List (Int × Emit Unit)) :
    Emit Unit := do
  let labelled ← labelCases cases
  terminate (.switch v defaultLabel (firstCases (labelled.map fun (n, label, _) => (n, label))))
  labelled.forM fun (_, label, body) => inBlock label endLabel body

def switchOn (v : Value) (cases : List (Int × Emit Unit)) (default : Option (Emit Unit)) :
    Emit Unit := do
  let endLabel ← freshLabel "switch.end"
  match default with
  | none => switchCases v endLabel endLabel cases
  | some body =>
    let defaultLabel ← freshLabel "switch.default"
    switchCases v endLabel defaultLabel cases
    inBlock defaultLabel endLabel body
  startBlock endLabel

def switch (scrutinee : Code) (cases : List (Int × Emit Unit)) (default : Option (Emit Unit)) :
    Emit Unit := do
  let v ← scrutinee.value
  if v.ty.isInt then switchOn v cases default
  else fail (.unsupported s!"switch on '{v.ty.display}'")

/-- Sets the place of a statement and gives it to the failures of `x`. -/
def placed (location : Location) (x : Emit Unit) : Emit Unit := do
  setLocation location
  locating location x

end Emit

mutual

def Stmt.emit : Stmt → Emit Unit
  | .letVar name ty value l => Emit.placed l (Emit.letVar name ty (value.map Expr.code))
  | .expr e => Emit.placed e.location (discard e.code.value)
  | .ret value l => Emit.placed l (Emit.ret (value.map Expr.code))
  | .ifElse condition thenBlock elseBlock l =>
    Emit.placed l
      (Emit.ifElse condition.code (Emit.inScope (emitStmts thenBlock)) (emitOptional elseBlock))
  | .whileLoop condition body l =>
    Emit.placed l (Emit.whileLoop condition.code (Emit.inScope (emitStmts body)))
  | .breakLoop l => Emit.placed l (Emit.loopJump "break" LoopLabels.leave)
  | .continueLoop l => Emit.placed l (Emit.loopJump "continue" LoopLabels.again)
  | .switch scrutinee cases default l =>
    Emit.placed l (Emit.switch scrutinee.code (emitCases cases) (emitOptional default))
  | .block body => Emit.inScope (emitStmts body)

def emitStmts : List Stmt → Emit Unit
  | [] => pure ()
  | s :: rest => do
    s.emit
    emitStmts rest

def emitOptional : Option (List Stmt) → Option (Emit Unit)
  | none => none
  | some body => some (Emit.inScope (emitStmts body))

def emitCases : List SwitchCase → List (Int × Emit Unit)
  | [] => []
  | .mk value body :: rest => (value, Emit.inScope (emitStmts body)) :: emitCases rest

end

def emitBlock (body : List Stmt) : Emit Unit := Emit.inScope (emitStmts body)

end Backend
