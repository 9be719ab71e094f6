import Backend.Source.Expr

/-! Top-level declarations and modules. -/

namespace Backend

structure FunctionDecl where
  name : String
  typeParams : List String := []
  params : List Field := []
  returnType : TypeRef
  body : List Stmt := []
  isStatic : Bool := false
  location : Location := {}

namespace FunctionDecl

def isGeneric (f : FunctionDecl) : Bool := !f.typeParams.isEmpty

def isVirtual (f : FunctionDecl) : Bool := !f.isGeneric && !f.isStatic

def paramTypes (f : FunctionDecl) : List TypeRef := f.params.map Field.ty

end FunctionDecl

structure StructDecl where
  name : String
  typeParams : List String := []
  parent : Option TypeRef := none
  fields : List Field := []
  methods : List FunctionDecl := []
  location : Location := {}

namespace StructDecl

/-- A template has type parameters and is laid out only through its instances. -/
def isTemplate (s : StructDecl) : Bool := !s.typeParams.isEmpty

def method? (s : StructDecl) (name : String) : Option FunctionDecl :=
  s.methods.find? fun m => m.name = name

end StructDecl

inductive Payload where
  | tuple (types : List TypeRef)
  | struct (fields : List Field)

structure Variant where
  name : String
  payload : Option Payload := none

def Variant.payloadTypes (v : Variant) : List TypeRef :=
  match v.payload with
  | none => []
  | some (.tuple types) => types
  | some (.struct fields) => fields.map Field.ty

structure EnumDecl where
  name : String
  typeParams : List String := []
  variants : List Variant
  methods : List FunctionDecl := []
  location : Location := {}

namespace EnumDecl

def isTemplate (e : EnumDecl) : Bool := !e.typeParams.isEmpty

def method? (e : EnumDecl) (name : String) : Option FunctionDecl :=
  e.methods.find? fun m => m.name = name

end EnumDecl

/-- A function that is defined elsewhere. -/
structure ExternDecl where
  name : String
  params : List Field := []
  returnType : TypeRef
  variadic : Bool := false
  location : Location := {}

structure AliasDecl where
  name : String
  typeParams : List String := []
  target : TypeRef
  location : Location := {}

inductive Decl where
  | struct (d : StructDecl)
  | enum (d : EnumDecl)
  | function (d : FunctionDecl)
  | external (d : ExternDecl)
  | typeAlias (d : AliasDecl)

namespace Decl

def name : Decl → String
  | .struct d => d.name
  | .enum d => d.name
  | .function d => d.name
  | .external d => d.name
  | .typeAlias d => d.name

def location : Decl → Location
  | .struct d => d.location
  | .enum d => d.location
  | .function d => d.location
  | .external d => d.location
  | .typeAlias d => d.location

end Decl

structure Module where
  name : String
  decls : List Decl := []

end Backend
