import Backend.Lowering.Code

/-!
Enum values and matches. A value is made in a stack slot: its tag is written, then its payload
through a view of the data. A match switches on the tag; of arms for one variant the first counts.
-/

namespace Backend

def panicSymbol : String := "__tessera_panic"

/-- An arm of a match whose body is lowered. -/
structure ArmCode where
  variant : Option String
  bindings : List String
  body : Code

namespace Emit

def variantOf (layout : EnumLayout) (variant : String) : Emit VariantLayout :=
  orFail (layout.variant? variant) (.unknownVariant layout.name variant)

def tagAddress (name : String) (base : Operand) : Emit Value :=
  slotAddress (.enum name) base 0 .i32

def payloadView (layout : EnumLayout) (base : Operand) (v : VariantLayout) : Emit Value := do
  let data ← slotAddress (.enum layout.name) base 1 layout.dataType
  emitValue (.ptr v.payloadType) fun dst => .cast dst .bitcast data (.ptr v.payloadType)

def payloadField (v : VariantLayout) (view : Value) (i : Nat) (ty : IrType) : Emit Value :=
  slotAddress v.payloadType view.operand i ty

def storePayload (v : VariantLayout) (view : Value) :
    List (Code × IrType) → Nat → Emit Unit
  | [], _ => return
  | (arg, ty) :: rest, i => do
    let value ← arg.coerced ty
    let field ← payloadField v view i ty
    store value field.operand
    storePayload v view rest (i + 1)

def fillPayload (layout : EnumLayout) (v : VariantLayout) (base : Operand) (args : List Code) :
    Emit Unit := do
  unless args.isEmpty do
    let view ← payloadView layout base v
    storePayload v view (args.zip v.payload) 0

def makeVariant (name : String) (layout : EnumLayout) (v : VariantLayout) (args : List Code) :
    Emit Value := do
  let slot ← alloca (.enum name)
  let tag ← tagAddress name (.reg slot)
  store ⟨.int v.tag, .i32⟩ tag.operand
  fillPayload layout v (.reg slot) args
  load (.enum name) (.reg slot)

def enumVariant (ty : TypeRef) (variant : String) (args : List Code) : Emit Value := do
  match ← resolve ty with
  | .enum name =>
    let layout ← Gen.enumLayout name
    let v ← variantOf layout variant
    let expected := v.payload.length
    if expected ≠ args.length then
      fail (.unsupported
        s!"variant '{name}::{variant}' takes {expected} values, got {args.length}")
    else makeVariant name layout v args
  | other => fail (.unsupported s!"enum variant of non-enum type '{other.display}'")

/-! ### Match -/

/-- Copies the payload from position `i` on to new local variables. `_` binds nothing. -/
def bindFields (v : VariantLayout) (view : Value) :
    List String → List (IrType × TypeRef) → Nat → Emit Unit
  | name :: names, (ir, ty) :: fields, i => do
    unless name = "_" do
      let field ← payloadField v view i ir
      let value ← load ir field.operand
      declareLocal name ty value
    bindFields v view names fields (i + 1)
  | _, _, _ => return

def bindPayload (layout : EnumLayout) (base : Operand) (v : VariantLayout)
    (bindings : List String) : Emit Unit := do
  unless bindings.isEmpty || v.payload.isEmpty do
    if v.payload.length < bindings.length then
      fail (.unsupported
        s!"{bindings.length} bindings for a payload of {v.payload.length} values")
    else
      let view ← payloadView layout base v
      bindFields v view bindings (v.payload.zip v.sources) 0

def armTag (layout : EnumLayout) : Option String → Emit (Option Nat)
  | some variant => do return some (← variantOf layout variant).tag
  | none => return none

def armTargets (layout : EnumLayout) : List ArmCode → Emit (List (Option Nat × Label))
  | [] => return []
  | arm :: rest => do
    let label ← freshLabel "match.arm"
    let tag ← armTag layout arm.variant
    return (tag, label) :: (← armTargets layout rest)

def firstCases (targets : List (Int × Label)) : List (Int × Label) :=
  targets.foldl (fun done t => if done.any (·.1 = t.1) then done else done ++ [t]) []

def bindArm (layout : EnumLayout) (base : Operand) (arm : ArmCode) : Emit Unit :=
  match arm.variant with
  | some variant => do bindPayload layout base (← variantOf layout variant) arm.bindings
  | none => return

/-- Where the value of a match goes; nothing is kept of one without a value. -/
abbrev MatchResult := Option (Register × IrType)

def matchResult (target : IrType) : Emit MatchResult :=
  if target.isVoid then return none else do return some (← alloca target, target)

def keepResult (result : MatchResult) (value : Value) (source : TypeRef) : Emit Unit :=
  match result with
  | some (slot, ty) => do
    unless (← get).terminated do
      store (← coerce value source ty) (.reg slot)
  | none => return

def takeResult : MatchResult → Emit Value
  | some (slot, ty) => load ty (.reg slot)
  | none => return .void

def matchArm (layout : EnumLayout) (base : Operand) (result : MatchResult) (endLabel : Label)
    (arm : ArmCode) (label : Label) : Emit Unit := do
  startBlock label
  let value ← inScope do
    bindArm layout base arm
    arm.body.value
  keepResult result value arm.body.ty
  jumpTo endLabel

def matchDefault (name : String) (label : Label) : Emit Unit := do
  startBlock label
  let message ← Gen.internString ("non-exhaustive match on " ++ name)
  emit (.call none .void (.global panicSymbol) [⟨message, .bytePtr⟩])
  terminate .unreachable

def matchSwitch (name : String) (layout : EnumLayout) (base : Operand) (result : MatchResult)
    (tag : Value) (arms : List ArmCode) : Emit Unit := do
  let endLabel ← freshLabel "match.end"
  let defaultLabel ← freshLabel "match.default"
  let targets ← armTargets layout arms
  let wildcard := (targets.find? fun t => t.1.isNone).map Prod.snd
  let cases := targets.filterMap fun t => t.1.map fun (tag : Nat) => ((tag : Int), t.2)
  terminate (.switch tag (wildcard.getD defaultLabel) (firstCases cases))
  (arms.zip (targets.map Prod.snd)).forM fun (arm, label) =>
    matchArm layout base result endLabel arm label
  if wildcard.isNone then matchDefault name defaultLabel
  startBlock endLabel

def matchOn (scrutinee : Code) (arms : List ArmCode) (ty : TypeRef) : Emit Value := do
  let base ← scrutinee.aggregate
  match base.ty with
  | .enum name =>
    let layout ← Gen.enumLayout name
    let target ← resolve ty
    let result ← matchResult target
    let tagPlace ← tagAddress name base.address
    let tag ← load .i32 tagPlace.operand
    matchSwitch name layout base.address result tag arms
    takeResult result
  | other => fail (.unsupported s!"match on '{other.display}'")

end Emit

namespace Code

def enumVariant (info : ExprInfo) (variant : String) (args : List Code) : Code :=
  ofValue "temporary value" info.ty (Emit.enumVariant info.ty variant args)

def matchOn (info : ExprInfo) (scrutinee : Code) (arms : List ArmCode) : Code :=
  ofValue "temporary value" info.ty (Emit.matchOn scrutinee arms info.ty)

end Code

end Backend
