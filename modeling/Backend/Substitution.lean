import Backend.Source.Decl
import Backend.Table

/-!
Type parameters and the types that stand for them. Applying a substitution rebuilds pointers and
arrays with the merging constructors, so `T*` under `T ↦ Foo*` is `Foo**`. The empty substitution
leaves every type as it is written.
-/

namespace Backend

abbrev Substitution := Table TypeRef

namespace Substitution

/-- Parameters and arguments paired in order; what is left over on one side is dropped. -/
def ofParams (params : List String) (args : List TypeRef) : Substitution :=
  Table.ofList (params.zip args)

def isEmpty (σ : Substitution) : Bool := σ.entries.isEmpty

def extended (σ other : Substitution) : Substitution :=
  other.entries.foldl (fun t e => t.insert e.1 e.2) σ

def without (σ : Substitution) (shadowed : List String) : Substitution :=
  ⟨σ.entries.filter fun e => e.1 ∉ shadowed⟩

/-- The parameter stands for itself, as inside the body of its own template. -/
def isSelfMapped (σ : Substitution) (param : String) : Bool :=
  match σ.find? param with
  | some (.named name [] _) => name = param
  | _ => false

mutual

def replace (σ : Substitution) : TypeRef → TypeRef
  | .primitive p => .primitive p
  | .pointer inner depth => .pointerTo (replace σ inner) depth
  | .array inner dims => .arrayOf (replace σ inner) dims
  | .tuple elems => .tuple (replaceAll σ elems)
  | .function params ret variadic => .function (replaceAll σ params) (replace σ ret) variadic
  | .named name [] hint => (σ.find? name).getD (.named name [] hint)
  | .named name (arg :: args) hint => .named name (replace σ arg :: replaceAll σ args) hint

def replaceAll (σ : Substitution) : List TypeRef → List TypeRef
  | [] => []
  | t :: ts => replace σ t :: replaceAll σ ts

end

def apply (σ : Substitution) (t : TypeRef) : TypeRef := if σ.isEmpty then t else σ.replace t

def applyAll (σ : Substitution) (ts : List TypeRef) : List TypeRef := ts.map σ.apply

def applyField (σ : Substitution) (f : Field) : Field := { f with ty := σ.apply f.ty }

/-- A function with its signature substituted. Its own parameters are shadowed, and its body is
kept as written. -/
def applySignature (σ : Substitution) (f : FunctionDecl) : FunctionDecl :=
  let inner := σ.without f.typeParams
  { f with params := f.params.map inner.applyField, returnType := inner.apply f.returnType }

def applyStruct (σ : Substitution) (s : StructDecl) (name : String) : StructDecl :=
  { s with
    name
    typeParams := []
    parent := s.parent.map σ.apply
    fields := s.fields.map σ.applyField
    methods := s.methods.map σ.applySignature }

def applyPayload (σ : Substitution) : Payload → Payload
  | .tuple types => .tuple (σ.applyAll types)
  | .struct fields => .struct (fields.map σ.applyField)

def applyVariant (σ : Substitution) (v : Variant) : Variant :=
  { v with payload := v.payload.map σ.applyPayload }

def applyEnum (σ : Substitution) (e : EnumDecl) (name : String) : EnumDecl :=
  { e with
    name
    typeParams := []
    variants := e.variants.map σ.applyVariant
    methods := e.methods.map σ.applySignature }

end Substitution

/-! ### Depth bounds on declarations -/

def FunctionDecl.signatureFits (f : FunctionDecl) : Bool :=
  TypeRef.allFit f.paramTypes && f.returnType.fits

def StructDecl.fits (s : StructDecl) : Bool :=
  s.parent.all TypeRef.fits && TypeRef.allFit (s.fields.map Field.ty) &&
    s.methods.all FunctionDecl.signatureFits

def EnumDecl.fits (e : EnumDecl) : Bool :=
  e.variants.all (fun v => TypeRef.allFit v.payloadTypes) &&
    e.methods.all FunctionDecl.signatureFits

end Backend
