/-!
Source types. The smart constructors `pointerTo` and `arrayOf` merge a pointer into a pointer and
an array into an array, so a type built with them alone has one spelling for each wrapping.
-/

namespace Backend

inductive Primitive where
  | i8 | i16 | i32 | i64 | u8 | u16 | u32 | u64 | f32 | f64 | bool | void | string | null
  deriving DecidableEq

namespace Primitive

/-- The primitive that a type name stands for. `float` is the 64-bit type. -/
def ofName? (name : String) : Option Primitive :=
  match name with
  | "int" | "i32" => some .i32
  | "uint" | "u32" => some .u32
  | "char" | "i8" => some .i8
  | "uchar" | "u8" | "byte" => some .u8
  | "short" | "i16" => some .i16
  | "ushort" | "u16" => some .u16
  | "long" | "i64" => some .i64
  | "ulong" | "u64" => some .u64
  | "float" | "double" | "f64" => some .f64
  | "f32" => some .f32
  | "bool" | "i1" => some .bool
  | "void" => some .void
  | "string" => some .string
  | "null" | "nullptr" => some .null
  | _ => none

def name : Primitive → String
  | .i8 => "i8"
  | .i16 => "i16"
  | .i32 => "i32"
  | .i64 => "i64"
  | .u8 => "u8"
  | .u16 => "u16"
  | .u32 => "u32"
  | .u64 => "u64"
  | .f32 => "f32"
  | .f64 => "f64"
  | .bool => "bool"
  | .void => "void"
  | .string => "string"
  | .null => "null"

def intBits? : Primitive → Option Nat
  | .i8 | .u8 => some 8
  | .i16 | .u16 => some 16
  | .i32 | .u32 => some 32
  | .i64 | .u64 => some 64
  | .bool => some 1
  | _ => none

def isInteger : Primitive → Bool
  | .i8 | .i16 | .i32 | .i64 | .u8 | .u16 | .u32 | .u64 => true
  | _ => false

def isUnsigned : Primitive → Bool
  | .u8 | .u16 | .u32 | .u64 | .bool => true
  | _ => false

def isFloat : Primitive → Bool
  | .f32 | .f64 => true
  | _ => false

end Primitive

inductive DeclKind where
  | struct | enum
  deriving DecidableEq

inductive TypeRef where
  | primitive (p : Primitive)
  | pointer (inner : TypeRef) (depth : Nat)
  /-- Dimensions from the outermost inwards. -/
  | array (inner : TypeRef) (dims : List Nat)
  | tuple (elems : List TypeRef)
  | function (params : List TypeRef) (ret : TypeRef) (variadic : Bool)
  /-- A struct, enum, alias or type parameter. The hint says which kind of declaration is meant. -/
  | named (name : String) (args : List TypeRef) (hint : Option DeclKind)

namespace TypeRef

def i32 : TypeRef := .primitive .i32
def i64 : TypeRef := .primitive .i64
def bool : TypeRef := .primitive .bool
def void : TypeRef := .primitive .void
def string : TypeRef := .primitive .string

def ofName (name : String) : TypeRef := .named name [] none

def pointerTo (inner : TypeRef) (depth : Nat) : TypeRef :=
  if depth = 0 then inner
  else match inner with
    | .pointer t d => .pointer t (d + depth)
    | t => .pointer t depth

def arrayOf (inner : TypeRef) (dims : List Nat) : TypeRef :=
  if dims.isEmpty then inner
  else match inner with
    | .array t ds => .array t (dims ++ ds)
    | t => .array t dims

def withKind (t : TypeRef) (kind : DeclKind) : TypeRef :=
  match t with
  | .named name args _ => .named name args (some kind)
  | t => t

/-- The primitive a type is, written as such or by one of its names. -/
def asPrimitive? : TypeRef → Option Primitive
  | .primitive p => some p
  | .named name [] _ => Primitive.ofName? name
  | _ => none

def isVoid (t : TypeRef) : Bool := t.asPrimitive? = some .void

def isUnsigned (t : TypeRef) : Bool := t.asPrimitive?.any Primitive.isUnsigned

def pointee? : TypeRef → Option TypeRef
  | .pointer inner depth => some (pointerTo inner (depth - 1))
  | .primitive .string => some (.primitive .i8)
  | _ => none

def asNamed? : TypeRef → Option (String × List TypeRef)
  | .named name args _ =>
    if (Primitive.ofName? name).isNone || !args.isEmpty then some (name, args) else none
  | _ => none

def depthBound : Nat := 4294967296

mutual

def fits : TypeRef → Bool
  | .primitive _ => true
  | .pointer inner depth => depth < depthBound && inner.fits
  | .array inner _ => inner.fits
  | .tuple elems => allFit elems
  | .function params ret _ => allFit params && ret.fits
  | .named _ args _ => allFit args

def allFit : List TypeRef → Bool
  | [] => true
  | t :: ts => t.fits && allFit ts

end

mutual

def display : TypeRef → String
  | .primitive p => p.name
  | .pointer inner depth => inner.display ++ String.ofList (List.replicate depth '*')
  | .array inner dims => inner.display ++ String.join (dims.map fun d => s!"[{d}]")
  | .tuple elems => "(" ++ ", ".intercalate (displayAll elems) ++ ")"
  | .function params ret variadic =>
    let rest := if variadic then ", ..." else ""
    "fn(" ++ ", ".intercalate (displayAll params) ++ rest ++ ") -> " ++ ret.display
  | .named name [] _ => name
  | .named name (arg :: args) _ =>
    name ++ "<" ++ ", ".intercalate (arg.display :: displayAll args) ++ ">"

def displayAll : List TypeRef → List String
  | [] => []
  | t :: ts => t.display :: displayAll ts

end

end TypeRef

end Backend
