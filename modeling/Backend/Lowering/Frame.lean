import Backend.Resolution.Resolve

/-!
The body of one function while it is being emitted. Registers and labels are numbered as they are
asked for. After a terminator the next instruction opens a block that nothing jumps to.
-/

namespace Backend

structure Local where
  /-- Its stack slot. -/
  slot : Register
  ty : TypeRef
  ir : IrType

/-- Where a loop is left and where it starts again. -/
structure LoopLabels where
  leave : Label
  again : Label

structure Frame where
  symbol : String
  subst : Substitution
  returnType : IrType := .void
  slots : Array (Register × IrType) := #[]
  body : Array Line := #[]
  nextReg : Nat := 0
  nextLabel : Nat := 0
  block : Label := .entry
  terminated : Bool := false
  locals : Table Local := {}
  loops : List LoopLabels := []
  /-- Debug number of the function. -/
  scope : Option Nat := none
  /-- Debug number of the place of the current statement. -/
  location : Option Nat := none

def Frame.isMain (f : Frame) : Bool := f.symbol = "main"

abbrev Emit := StateT Frame Gen

namespace Emit

def freshReg : Emit Register := do
  let f ← get
  set { f with nextReg := f.nextReg + 1 }
  return .temp f.nextReg

def freshLabel (stem : String) : Emit Label := do
  let f ← get
  set { f with nextLabel := f.nextLabel + 1 }
  return .fresh stem f.nextLabel

def pushLine (line : Line) : Emit Unit := modify fun f => { f with body := f.body.push line }

def enter (label : Label) : Emit Unit :=
  modify fun f => { f with body := f.body.push (.label label), block := label, terminated := false }

def reopen : Emit Unit := do
  if (← get).terminated then
    enter (← freshLabel "dead")

def emit (i : Instr) : Emit Unit := do
  reopen
  pushLine (.instr i (← get).location)

def emitValue (ty : IrType) (i : Register → Instr) : Emit Value := do
  let dst ← freshReg
  emit (i dst)
  return ⟨.reg dst, ty⟩

def terminate (t : Terminator) : Emit Unit := do
  reopen
  pushLine (.term t (← get).location)
  modify fun f => { f with terminated := true }

def startBlock (label : Label) : Emit Unit := do
  unless (← get).terminated do
    pushLine (.term (.jump label) none)
  enter label

def jumpTo (label : Label) : Emit Unit := do
  unless (← get).terminated do
    terminate (.jump label)

def alloca (ty : IrType) : Emit Register := do
  let dst ← freshReg
  modify fun f => { f with slots := f.slots.push (dst, ty) }
  return dst

def load (ty : IrType) (address : Operand) : Emit Value :=
  emitValue ty fun dst => .load dst ty address

def store (v : Value) (address : Operand) : Emit Unit := emit (.store v address)

def slotAddress (base : IrType) (start : Operand) (slot : Nat) (ty : IrType) : Emit Value :=
  emitValue (.ptr ty) fun dst => .address dst base start [⟨.int 0, .i32⟩, ⟨.int slot, .i32⟩]

def insertAt (aggregate elem : Value) (position : Nat) : Emit Value :=
  emitValue aggregate.ty fun dst => .insert dst aggregate elem position

def resolve (ty : TypeRef) : Emit IrType := do Gen.resolve ty (← get).subst

def resolveAll (types : List TypeRef) : Emit (List IrType) := do
  Gen.resolveAll types (← get).subst

def concrete (ty : TypeRef) : Emit TypeRef := do Gen.substitute (← get).subst ty

def findLocal? (name : String) : Emit (Option Local) := do return (← get).locals.find? name

def bindLocal (name : String) (l : Local) : Emit Unit :=
  modify fun f => { f with locals := f.locals.insert name l }

def declareLocal (name : String) (ty : TypeRef) (value : Value) : Emit Unit := do
  let slot ← alloca value.ty
  store value (.reg slot)
  bindLocal name { slot, ty, ir := value.ty }

def inScope {α : Type} (x : Emit α) : Emit α := do
  let saved := (← get).locals
  let result ← x
  modify fun f => { f with locals := saved }
  return result

def locationId (location : Location) : Option Nat → Emit (Option Nat)
  | some scope => Gen.describeLocation location scope
  | none => return none

def setLocation (location : Location) : Emit Unit := do
  let id ← locationId location (← get).scope
  modify fun f => { f with location := id }

end Emit

end Backend
