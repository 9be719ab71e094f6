import Backend.Resolution.Resolve

/-!
What names stand for, read off the declarations alone: a primitive, a struct or an enum, an
instance of a template, or what an alias expands to.
-/

namespace Backend

namespace Template

def kind : Template → DeclKind
  | .struct _ => .struct
  | .enum _ => .enum

def concrete (t : Template) (σ : Substitution) (name : String) : Template :=
  match t with
  | .struct d => .struct (σ.applyStruct d name)
  | .enum d => .enum (σ.applyEnum d name)

end Template

/-- What a name stands for at some arguments. -/
inductive Meaning where
  | primitive (p : Primitive)
  | declared (kind : DeclKind)
  | expands (a : AliasDecl)
  | unknown

namespace Declarations

variable (D : Declarations)

def template? (kind : DeclKind) (name : String) : Option Template :=
  match kind with
  | .struct => (D.structs.find? name).map .struct
  | .enum => (D.enums.find? name).map .enum

def meaning (name : String) (args : List TypeRef) (hint : Option DeclKind) : Meaning :=
  match if args.isEmpty then Primitive.ofName? name else none with
  | some p => .primitive p
  | none =>
    match D.kind? name hint with
    | some kind => .declared kind
    | none =>
      match D.aliases.find? name with
      | some a => .expands a
      | none => .unknown

def Expands (t target : TypeRef) : Prop :=
  ∃ name args hint a, t = .named name args hint ∧ D.meaning name args hint = .expands a ∧
    target = (Substitution.ofParams a.typeParams args).apply a.target

def Instance (t : TypeRef) (kind : DeclKind) (base : String) (args : List TypeRef) : Prop :=
  ∃ hint, t = .named base args hint ∧ args ≠ [] ∧ D.meaning base args hint = .declared kind

/-- The name of an instance. At its own parameters a template keeps its name. -/
def instanceName (kind : DeclKind) (base : String) (args : List TypeRef) : String :=
  if (D.template? kind base).any fun t => isIdentity t.typeParams args then base
  else D.aliases.genericName base args

/-- The type is the name of a struct or an enum. -/
inductive Stands : TypeRef → DeclKind → String → Prop where
  | declared {name : String} {hint : Option DeclKind} {kind : DeclKind}
    (h : D.meaning name [] hint = .declared kind) : Stands (.named name [] hint) kind name
  | made {t : TypeRef} {kind : DeclKind} {base : String} {args : List TypeRef}
    (h : D.Instance t kind base args) : Stands t kind (D.instanceName kind base args)
  | expands {t target : TypeRef} {kind : DeclKind} {name : String} (h : D.Expands t target)
    (stands : Stands target kind name) : Stands t kind name
  | pointer {inner : TypeRef} {kind : DeclKind} {name : String} (stands : Stands inner kind name) :
    Stands (.pointer inner 0) kind name
  | array {inner : TypeRef} {kind : DeclKind} {name : String} (stands : Stands inner kind name) :
    Stands (.array inner []) kind name

variable {D}

theorem template?_struct {name : String} {d : StructDecl} :
    D.template? .struct name = some (.struct d) ↔ D.structs.find? name = some d := by
  simp [template?]

theorem template?_enum {name : String} {d : EnumDecl} :
    D.template? .enum name = some (.enum d) ↔ D.enums.find? name = some d := by
  simp [template?]

theorem kind_of_template? {kind : DeclKind} {name : String} {t : Template}
    (h : D.template? kind name = some t) : t.kind = kind := by
  cases kind with
  | struct => obtain ⟨d, -, rfl⟩ := Option.map_eq_some_iff.mp h; rfl
  | enum => obtain ⟨d, -, rfl⟩ := Option.map_eq_some_iff.mp h; rfl

theorem contains_eq (kind : DeclKind) (name : String) :
    D.contains kind name = (D.template? kind name).isSome := by
  cases kind <;> simp [contains, template?, Table.contains]

def declare (decls : Declarations) (name : String) : Template → Declarations
  | .struct d => { decls with structs := decls.structs.insert name d }
  | .enum d => { decls with enums := decls.enums.insert name d }

section

variable {decls : Declarations} {name : String} {t : Template}

theorem aliases_declare : (decls.declare name t).aliases = decls.aliases := by
  cases t <;> rfl

theorem template?_declare (kind : DeclKind) (other : String) :
    (decls.declare name t).template? kind other =
      if t.kind = kind ∧ name = other then some t else decls.template? kind other := by
  cases t <;> cases kind <;> by_cases same : name = other <;>
    simp [declare, template?, Template.kind, same]

end

end Declarations

end Backend
