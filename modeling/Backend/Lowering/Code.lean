import Backend.Lowering.Convert

/-!
What an expression is lowered to: code for its value and code for its address. The lowering of an
expression is built from those of its parts, so each rule is stated on its own.
-/

namespace Backend

/-- An address and the type of what is there. -/
structure Place where
  address : Operand
  ty : IrType

structure Code where
  /-- The expression's source type. -/
  ty : TypeRef
  value : Emit Value
  /-- The address of something that can be assigned to. -/
  lvalue : Emit Place
  /-- An address in any case; a plain value is put into a stack slot first. -/
  place : Emit Place

namespace Place

def load (p : Place) : Emit Value := Emit.load p.ty p.address

end Place

/-- A plain value has no address. The message is made only when it is needed, since types can be
large. -/
def unaddressable (what : String) (ty : TypeRef) : Emit Place := fun frame =>
  (fail (.notAddressable s!"cannot take the address of a {what} of type '{ty.display}'") :
    Emit Place) frame

def materialize (what : String) (ty : TypeRef) (value : Emit Value) : Emit Place := do
  let v ← value
  if v.ty.isVoid then unaddressable what ty
  else
    let slot ← Emit.alloca v.ty
    Emit.store v (.reg slot)
    return ⟨.reg slot, v.ty⟩

namespace Code

def ofValue (what : String) (ty : TypeRef) (value : Emit Value) : Code where
  ty
  value
  lvalue := unaddressable what ty
  place := materialize what ty value

def ofPlace (ty : TypeRef) (place : Emit Place) : Code where
  ty
  value := do (← place).load
  lvalue := place
  place

def condition (c : Code) : Emit Operand := do Emit.truth (← c.value)

def coerced (c : Code) (target : IrType) : Emit Value := do Emit.coerce (← c.value) c.ty target

/-- The address of an aggregate; a pointer to one is used as it is. -/
def aggregate (c : Code) : Emit Place := do
  match ← Emit.resolve c.ty with
  | .ptr inner =>
    if inner.isAggregate then return ⟨(← c.value).operand, inner⟩
    else c.place
  | _ => c.place

end Code

end Backend
