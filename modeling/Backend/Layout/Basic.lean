import Backend.Ir.Module
import Backend.Layout.Extent
import Backend.Table

/-!
Layouts of structs and enums. The slots of a struct are the inherited fields, the dispatch pointer
if there is one, the own fields and last the liveness bit. An enum is a tag and, unless all its
variants are empty, as many bytes as the largest payload takes.
-/

namespace Backend

def dispatchField : String := "__vtable__"

def livenessField : String := "__null_bit__"

structure StructLayout where
  name : String
  /-- By slot. -/
  fields : List (String × IrType)
  /-- Its extent, or why it has none. -/
  extent : Except Halt Extent

namespace StructLayout

def types (l : StructLayout) : List IrType := l.fields.map Prod.snd

/-- Slots by field name. Of a repeated name the last slot counts, at the place of the first. -/
def slots (l : StructLayout) : Table Nat :=
  Table.ofList (l.fields.zipIdx.map fun (field, i) => (field.1, i))

def slot? (l : StructLayout) (field : String) : Option Nat := l.slots.find? field

def type? (l : StructLayout) (slot : Nat) : Option IrType := l.types[slot]?

def fieldCount (l : StructLayout) : Nat := l.fields.length - 1

def livenessSlot (l : StructLayout) : Nat := l.fieldCount

def dispatchSlot? (l : StructLayout) : Option Nat := l.slot? dispatchField

def inherited (l : StructLayout) : List (String × IrType) :=
  (l.slots.keys.zip l.types).filter fun (name, _) => name ≠ livenessField

def definition (l : StructLayout) : TypeDef := .struct l.name l.types

end StructLayout

structure VariantLayout where
  tag : Nat
  payload : List IrType
  /-- The payload's types as they are written in the source. -/
  sources : List TypeRef
  /-- Bytes of the payload, without rounding at the end. -/
  size : Nat

def VariantLayout.payloadType (v : VariantLayout) : IrType := .record v.payload

/-- The data of an enum and its slots follow from its largest payload. -/
def enumDataType (dataSize : Nat) : IrType := .array dataSize .i8

def enumTypes (dataSize : Nat) : List IrType :=
  if 0 < dataSize then [.i32, enumDataType dataSize] else [.i32]

structure EnumLayout where
  name : String
  variants : Table VariantLayout
  dataSize : Nat
  extent : Except Halt Extent

namespace EnumLayout

def variant? (l : EnumLayout) (name : String) : Option VariantLayout := l.variants.find? name

def hasData (l : EnumLayout) : Bool := 0 < l.dataSize

def dataType (l : EnumLayout) : IrType := enumDataType l.dataSize

def types (l : EnumLayout) : List IrType := enumTypes l.dataSize

def definition (l : EnumLayout) : TypeDef := .enum l.name l.types

end EnumLayout

structure Layouts where
  structs : Table StructLayout := {}
  enums : Table EnumLayout := {}
  /-- Names of the dispatched methods of a struct, by slot. -/
  dispatch : Table (List String) := {}

namespace Layouts

def extent? (l : Layouts) (kind : DeclKind) (name : String) : Except Halt Extent :=
  match kind with
  | .struct =>
    match l.structs.find? name with
    | some layout => layout.extent
    | none => fail (.unresolvedType name "struct layout")
  | .enum =>
    match l.enums.find? name with
    | some layout => layout.extent
    | none => fail (.unresolvedType name "enum layout")

def contains (l : Layouts) (kind : DeclKind) (name : String) : Bool :=
  match kind with
  | .struct => l.structs.contains name
  | .enum => l.enums.contains name

def aggregate (l : Layouts) (fields : List IrType) : Except Halt Extent :=
  Extent.aggregate l.extent? fields

end Layouts

end Backend
