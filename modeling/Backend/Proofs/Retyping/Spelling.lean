import Backend.Proofs.Retyping.Structural
import Backend.Proofs.Substitution.Normal

/-!
Spellings of primitives. A name without arguments that stands for a primitive can be written as the
primitive itself. Main statement: `Module.generate_respelled`, modules that differ only in how they
spell primitives have the same text, or both have none.
-/

namespace Backend

namespace TypeRef

mutual

def plain : TypeRef → TypeRef
  | .primitive p => .primitive p
  | .pointer inner depth => .pointer inner.plain depth
  | .array inner dims => .array inner.plain dims
  | .tuple elems => .tuple (plainAll elems)
  | .function params ret variadic => .function (plainAll params) ret.plain variadic
  | .named name [] hint =>
    match Primitive.ofName? name with
    | some p => .primitive p
    | none => .named name [] hint
  | .named name (arg :: args) hint => .named name (arg.plain :: plainAll args) hint

def plainAll : List TypeRef → List TypeRef
  | [] => []
  | t :: rest => t.plain :: plainAll rest

end

theorem plainAll_eq_map (types : List TypeRef) : plainAll types = types.map plain := by
  induction types with
  | nil => rfl
  | cons t rest ih => rw [plainAll, ih, List.map_cons]

theorem plain_simple (name : String) (hint : Option DeclKind) :
    plain (.named name [] hint) = .named name [] hint ∨
      ∃ p, Primitive.ofName? name = some p ∧ plain (.named name [] hint) = .primitive p := by
  rw [plain]
  cases Primitive.ofName? name with
  | none => exact .inl rfl
  | some p => exact .inr ⟨p, rfl, rfl⟩

theorem plain_of_not_primitive {name : String} (h : Primitive.ofName? name = none)
    (hint : Option DeclKind) : plain (.named name [] hint) = .named name [] hint := by
  rw [plain, h]

theorem plain_of_primitive {name : String} {p : Primitive} (h : Primitive.ofName? name = some p)
    (hint : Option DeclKind) : plain (.named name [] hint) = .primitive p := by
  rw [plain, h]

/-! ### What is read off a type -/

mutual

theorem fits_plain : (t : TypeRef) → t.plain.fits = t.fits
  | .primitive _ => rfl
  | .pointer inner _ => by rw [plain, fits, fits, fits_plain inner]
  | .array inner _ => by rw [plain, fits, fits, fits_plain inner]
  | .tuple elems => by rw [plain, fits, fits, allFit_plain elems]
  | .function params ret _ => by rw [plain, fits, fits, allFit_plain params, fits_plain ret]
  | .named name [] hint => by
    rcases plain_simple name hint with same | ⟨p, -, same⟩
    · rw [same]
    · rw [same]
      rfl
  | .named _ (arg :: args) _ => by
    rw [plain, fits, fits, allFit, allFit, fits_plain arg, allFit_plain args]

theorem allFit_plain : (types : List TypeRef) → allFit (plainAll types) = allFit types
  | [] => rfl
  | t :: rest => by rw [plainAll, allFit, allFit, fits_plain t, allFit_plain rest]

end

theorem asPrimitive?_plain (t : TypeRef) : t.plain.asPrimitive? = t.asPrimitive? := by
  cases t with
  | named name args hint =>
    cases args with
    | nil =>
      rcases plain_simple name hint with same | ⟨p, spelled, same⟩
      · rw [same]
      · rw [same, asPrimitive?, asPrimitive?, spelled]
    | cons arg rest => rfl
  | _ => rfl

theorem isFunction_plain (t : TypeRef) : t.plain.isFunction = t.isFunction := by
  cases t with
  | named name args hint =>
    cases args with
    | nil =>
      rcases plain_simple name hint with same | ⟨p, -, same⟩
      · rw [same]
      · rw [same]
        rfl
    | cons arg rest => rfl
  | _ => rfl

theorem pointerTo_plain (t : TypeRef) (depth : Nat) :
    pointerTo t.plain depth = (pointerTo t depth).plain := by
  unfold pointerTo
  split
  · rfl
  · cases t with
    | named name args hint =>
      cases args with
      | nil => rcases plain_simple name hint with same | ⟨p, -, same⟩ <;> rw [plain, same]
      | cons arg rest => rfl
    | _ => rfl

theorem arrayOf_plain (t : TypeRef) (dims : List Nat) :
    arrayOf t.plain dims = (arrayOf t dims).plain := by
  unfold arrayOf
  split
  · rfl
  · cases t with
    | named name args hint =>
      cases args with
      | nil => rcases plain_simple name hint with same | ⟨p, -, same⟩ <;> rw [plain, same]
      | cons arg rest => rfl
    | _ => rfl

end TypeRef

/-! ### Substitution -/

/-- Primitives are written as such; any type may occur, under parameters that are no spelling. -/
def spelling (aliases : AliasTable) : Retyping where
  type := TypeRef.plain
  allows := fun _ => true
  param := fun name => (Primitive.ofName? name).isNone
  payload := fun _ _ => True
  aliases := aliases
  depths := Eq
  quiet := False
  named := fun _ _ => true
  limit := fun _ => False
  limit_retold := fun limit _ => limit
  overflows := False

namespace Substitution

variable {σ : Substitution}

def Unspelled (σ : Substitution) : Prop := ∀ e ∈ σ.entries, Primitive.ofName? e.1 = none

theorem unspelled_of_admits {aliases : AliasTable} (h : (spelling aliases).Admits σ) :
    σ.Unspelled :=
  fun e member => Option.isNone_iff_eq_none.mp (h e member).1

theorem unspelled_ofParams {params : List String}
    (h : ∀ param ∈ params, Primitive.ofName? param = none) (args : List TypeRef) :
    (Substitution.ofParams params args).Unspelled :=
  unspelled_of_admits (Retyping.admits_ofParams (R := spelling {})
    (List.all_eq_true.mpr fun param member => Option.isNone_iff_eq_none.mpr (h param member))
    (List.all_eq_true.mpr fun _ _ => rfl))

theorem Unspelled.find? (h : σ.Unspelled) {name : String} {p : Primitive}
    (spelled : Primitive.ofName? name = some p) : σ.find? name = none := by
  cases found : σ.find? name with
  | none => rfl
  | some t =>
    have unspelled := h (name, t) (Table.mem_of_lookup found)
    rw [spelled] at unspelled
    cases unspelled

mutual

theorem replace_plain (h : σ.Unspelled) : (t : TypeRef) →
    (σ.retype TypeRef.plain).replace t.plain = (σ.replace t).plain
  | .primitive _ => rfl
  | .pointer inner depth => by
    rw [TypeRef.plain, replace, replace, replace_plain h inner, TypeRef.pointerTo_plain]
  | .array inner dims => by
    rw [TypeRef.plain, replace, replace, replace_plain h inner, TypeRef.arrayOf_plain]
  | .tuple elems => by
    rw [TypeRef.plain, replace, replace, replaceAll_plain h elems, TypeRef.plain]
  | .function params ret variadic => by
    rw [TypeRef.plain, replace, replace, replaceAll_plain h params, replace_plain h ret,
      TypeRef.plain]
  | .named name [] hint => by
    cases spelled : Primitive.ofName? name with
    | some p =>
      rw [TypeRef.plain_of_primitive spelled, replace, replace, h.find? spelled, Option.getD_none,
        TypeRef.plain_of_primitive spelled]
    | none =>
      rw [TypeRef.plain_of_not_primitive spelled, replace, replace, Table.find?_map]
      cases σ.find? name with
      | none => exact (TypeRef.plain_of_not_primitive spelled hint).symm
      | some t => rfl
  | .named name (arg :: args) hint => by
    rw [TypeRef.plain, replace, replace, replace_plain h arg, replaceAll_plain h args,
      TypeRef.plain]

theorem replaceAll_plain (h : σ.Unspelled) : (types : List TypeRef) →
    (σ.retype TypeRef.plain).replaceAll (TypeRef.plainAll types) =
      TypeRef.plainAll (σ.replaceAll types)
  | [] => rfl
  | t :: rest => by
    rw [TypeRef.plainAll, replaceAll, replaceAll, replace_plain h t, replaceAll_plain h rest,
      TypeRef.plainAll]

end

theorem apply_plain (h : σ.Unspelled) (t : TypeRef) :
    (σ.retype TypeRef.plain).apply t.plain = (σ.apply t).plain := by
  unfold apply
  rw [Retyping.retype_isEmpty]
  split
  · rfl
  · exact replace_plain h t

theorem isSelfMapped_plain (h : σ.Unspelled) (name : String) :
    (σ.retype TypeRef.plain).isSelfMapped name = σ.isSelfMapped name := by
  unfold isSelfMapped
  rw [Table.find?_map]
  cases found : σ.find? name with
  | none => rfl
  | some t =>
    have unspelled := h (name, t) (Table.mem_of_lookup found)
    cases t with
    | named other args hint =>
      cases args with
      | cons arg rest => rfl
      | nil =>
        rcases TypeRef.plain_simple other hint with same | ⟨p, spelled, same⟩
        · rw [Option.map_some, same]
        · rw [Option.map_some, same]
          symm
          rw [decide_eq_false_iff_not]
          rintro rfl
          rw [spelled] at unspelled
          cases unspelled
    | _ => rfl

end Substitution

/-! ### Names of instances -/

namespace Symbol

variable {expand expand' : Expansion} {enc enc' : TypeRef → String}

mutual

theorem encodeWith_plain
    (he : ∀ name args, expand' name (args.map TypeRef.plain) = (expand name args).map TypeRef.plain)
    (hn : ∀ t, enc' t.plain = enc t) :
    (t : TypeRef) → encodeWith expand' enc' t.plain = encodeWith expand enc t
  | .primitive _ => rfl
  | .pointer inner _ => by rw [TypeRef.plain, encodeWith, encodeWith, encodeWith_plain he hn inner]
  | .array inner _ => by rw [TypeRef.plain, encodeWith, encodeWith, encodeWith_plain he hn inner]
  | .tuple elems => by
    rw [TypeRef.plain, encodeWith, encodeWith, encodeAll_plain he hn elems,
      TypeRef.plainAll_eq_map, List.length_map]
  | .function params ret _ => by
    rw [TypeRef.plain, encodeWith, encodeWith, encodeAll_plain he hn params,
      encodeWith_plain he hn ret, TypeRef.plainAll_eq_map, List.length_map]
  | .named name [] hint => by
    have known := he name []
    rw [List.map_nil] at known
    rcases TypeRef.plain_simple name hint with same | ⟨p, spelled, same⟩
    · rw [same, encodeWith, encodeWith, known]
      cases Primitive.ofName? name with
      | some p => rfl
      | none =>
        cases expand name [] with
        | none => rfl
        | some t => exact hn t
    · rw [same, encodeWith, encodeWith, spelled]
  | .named name (arg :: args) hint => by
    have known := he name (arg :: args)
    rw [List.map_cons] at known
    rw [TypeRef.plain, encodeWith, encodeWith, encodeWith_plain he hn arg,
      encodeAll_plain he hn args, TypeRef.plainAll_eq_map, known]
    cases expand name (arg :: args) with
    | none => rfl
    | some t => exact hn t

theorem encodeAll_plain
    (he : ∀ name args, expand' name (args.map TypeRef.plain) = (expand name args).map TypeRef.plain)
    (hn : ∀ t, enc' t.plain = enc t) : (types : List TypeRef) →
    encodeAll expand' enc' (TypeRef.plainAll types) = encodeAll expand enc types
  | [] => rfl
  | t :: rest => by
    rw [TypeRef.plainAll, encodeAll, encodeAll, encodeWith_plain he hn t, encodeAll_plain he hn rest]

end

end Symbol

namespace AliasTable

variable {aliases : AliasTable}

def Unspelled (aliases : AliasTable) : Prop :=
  ∀ a ∈ aliases.values, ∀ param ∈ a.typeParams, Primitive.ofName? param = none

theorem expand?_plain (h : aliases.Unspelled) (name : String) (args : List TypeRef) :
    (aliases.retype TypeRef.plain).expand? name (args.map TypeRef.plain) =
      (aliases.expand? name args).map TypeRef.plain := by
  unfold expand?
  rw [Table.find?_map]
  cases found : aliases.find? name with
  | none => rfl
  | some a =>
    have unspelled := Substitution.unspelled_ofParams (h a (Table.mem_values_of_find? found)) args
    simp only [Option.map_some, AliasDecl.retype, Option.some.injEq]
    split
    · rfl
    · rw [← Retyping.retype_ofParams]
      exact Substitution.apply_plain unspelled a.target

theorem encode_plain (h : aliases.Unspelled) (t : TypeRef) :
    (aliases.retype TypeRef.plain).encode t.plain = aliases.encode t := by
  unfold encode
  generalize Symbol.maxAliasDepth = n
  induction n generalizing t with
  | zero => exact Symbol.encodeWith_plain (fun _ _ => rfl) (fun _ => rfl) t
  | succ n ih => exact Symbol.encodeWith_plain (expand?_plain h) ih t

mutual

theorem expandsWith_plain (h : aliases.Unspelled) {check check' : TypeRef → Bool}
    (hc : ∀ t, check' t.plain = check t) : (t : TypeRef) →
    (aliases.retype TypeRef.plain).expandsWith check' t.plain = aliases.expandsWith check t
  | .primitive _ => rfl
  | .pointer inner _ => by
    rw [TypeRef.plain, expandsWith, expandsWith, expandsWith_plain h hc inner]
  | .array inner _ => by
    rw [TypeRef.plain, expandsWith, expandsWith, expandsWith_plain h hc inner]
  | .tuple elems => by rw [TypeRef.plain, expandsWith, expandsWith, allExpand_plain h hc elems]
  | .function params ret _ => by
    rw [TypeRef.plain, expandsWith, expandsWith, allExpand_plain h hc params,
      expandsWith_plain h hc ret]
  | .named name [] hint => by
    have known := expand?_plain h name []
    rw [List.map_nil] at known
    rcases TypeRef.plain_simple name hint with same | ⟨p, spelled, same⟩
    · rw [same, expandsWith, expandsWith, known]
      cases aliases.expand? name [] with
      | none => rfl
      | some t => simp only [Option.map_some, Option.all_some, hc, TypeRef.fits_plain]
    · rw [same, expandsWith, expandsWith, spelled]
      rfl
  | .named name (arg :: args) hint => by
    have known := expand?_plain h name (arg :: args)
    rw [List.map_cons] at known
    rw [TypeRef.plain, expandsWith, expandsWith, expandsWith_plain h hc arg,
      allExpand_plain h hc args, TypeRef.plainAll_eq_map, known]
    cases aliases.expand? name (arg :: args) with
    | none => rfl
    | some t => simp only [Option.map_some, hc, TypeRef.fits_plain]

theorem allExpand_plain (h : aliases.Unspelled) {check check' : TypeRef → Bool}
    (hc : ∀ t, check' t.plain = check t) : (types : List TypeRef) →
    (aliases.retype TypeRef.plain).allExpand check' (TypeRef.plainAll types) =
      aliases.allExpand check types
  | [] => rfl
  | t :: rest => by
    rw [TypeRef.plainAll, allExpand, allExpand, expandsWith_plain h hc t, allExpand_plain h hc rest]

end

theorem expands_plain (h : aliases.Unspelled) (t : TypeRef) :
    (aliases.retype TypeRef.plain).expands t.plain = aliases.expands t := by
  unfold expands
  generalize Symbol.maxAliasDepth = n
  induction n generalizing t with
  | zero => rfl
  | succ n ih => exact expandsWith_plain h ih t

end AliasTable

/-! ### Modules -/

namespace TypeRef

theorem isUnsigned_plain (t : TypeRef) : t.plain.isUnsigned = t.isUnsigned := by
  unfold isUnsigned
  rw [asPrimitive?_plain]

end TypeRef

theorem isIdentity_plain (params : List String) (args : List TypeRef) :
    isIdentity params (args.map TypeRef.plain) = isIdentity params args := by
  unfold isIdentity
  rw [List.length_map, List.zip_map_right, List.all_map]
  congr 1
  refine congrArg (List.all _) (funext fun e => ?_)
  obtain ⟨param, arg⟩ := e
  simp only [Function.comp_apply, Prod.map_apply, id_eq]
  cases arg with
  | named name args hint =>
    cases args with
    | nil =>
      rcases TypeRef.plain_simple name hint with same | ⟨p, spelled, same⟩
      · rw [same]
      · simp [same, TypeRef.asNamed?, spelled]
    | cons arg rest => simp [TypeRef.plain, TypeRef.asNamed?]
  | _ => rfl

theorem Substitution.apply_receiver_unknown {σ : Substitution} {owner : String}
    (h : σ.find? owner = none) :
    σ.apply (.pointerTo (.ofName owner) 1) = .pointerTo (.ofName owner) 1 := by
  have kept : σ.replace (.ofName owner) = .ofName owner := by
    rw [TypeRef.ofName, replace, h, Option.getD_none]
  unfold apply
  split
  · rfl
  · show σ.replace (.pointer (.ofName owner) 1) = _
    rw [replace, kept]

theorem Substitution.Unspelled.fits_receiver {σ : Substitution} (h : σ.Unspelled)
    (owner : String) :
    ((σ.retype TypeRef.plain).apply (.pointerTo (.ofName owner) 1)).fits =
      (σ.apply (.pointerTo (.ofName owner) 1)).fits := by
  cases spelled : Primitive.ofName? owner with
  | some p =>
    have unknown := h.find? spelled
    have unknown' : (σ.retype TypeRef.plain).find? owner = none := by
      rw [Table.find?_map, unknown, Option.map_none]
    rw [apply_receiver_unknown unknown, apply_receiver_unknown unknown']
  | none =>
    have kept : (TypeRef.pointerTo (.ofName owner) 1).plain = .pointerTo (.ofName owner) 1 := by
      rw [← TypeRef.pointerTo_plain, TypeRef.ofName, TypeRef.plain_of_not_primitive spelled]
    have replaced := apply_plain h (.pointerTo (.ofName owner) 1)
    rw [kept] at replaced
    rw [replaced, TypeRef.fits_plain]

namespace AliasTable

variable {aliases : AliasTable}

theorem Unspelled.lawful (h : aliases.Unspelled) : (spelling aliases).walk.Lawful where
  apply := fun _ admits => ⟨rfl, Substitution.apply_plain (Substitution.unspelled_of_admits admits) _⟩
  fits := fun _ => .of_eq (TypeRef.fits_plain _)
  isIdentity := fun _ _ => isIdentity_plain _ _
  encode := fun _ => encode_plain h _
  expands := fun _ => expands_plain h _
  function := fun {params ret variadic} _ => ⟨rfl, TypeRef.plainAll params, rfl⟩
  other := fun {t} _ other => by
    show t.plain.isFunction = false
    rw [TypeRef.isFunction_plain, other]
  sign := fun _ => TypeRef.isUnsigned_plain _
  receiver := fun admits => .of_eq ((Substitution.unspelled_of_admits admits).fits_receiver _)
  instanceName := fun _ _ => rfl
  push := Retyping.push_walk
  caught := .inr fun _ limit => limit

theorem structural (aliases : AliasTable) : (spelling aliases).walk.Structural where
  primitive := fun _ => rfl
  pointer := fun _ => ⟨rfl, rfl⟩
  array := fun _ => ⟨rfl, rfl⟩
  tuple := fun {elems} _ =>
    ⟨List.all_eq_true.mpr fun _ _ => rfl, congrArg TypeRef.tuple (TypeRef.plainAll_eq_map elems)⟩
  function := fun {params ret variadic} _ =>
    ⟨List.all_eq_true.mpr fun _ _ => rfl, rfl,
      congrArg (TypeRef.function · ret.plain variadic) (TypeRef.plainAll_eq_map params)⟩
  applied := fun {name arg args hint} _ =>
    ⟨List.all_eq_true.mpr fun _ _ => rfl,
      congrArg (fun rest => TypeRef.named name (arg.plain :: rest) hint)
        (TypeRef.plainAll_eq_map args)⟩
  simple := TypeRef.plain_simple
  isSelfMapped := fun admits =>
    Substitution.isSelfMapped_plain (Substitution.unspelled_of_admits admits)

end AliasTable

theorem spelling_decl {aliases : AliasTable} {d : Decl}
    (h : ∀ name ∈ d.paramNames, Primitive.ofName? name = none) :
    (spelling aliases).decl d = true := by
  have params {names : List String} (sub : ∀ name ∈ names, name ∈ d.paramNames) :
      names.all (spelling aliases).param = true :=
    List.all_eq_true.mpr fun name member => Option.isNone_iff_eq_none.mpr (h name (sub name member))
  have types (types : List TypeRef) : types.all (spelling aliases).allows = true :=
    List.all_eq_true.mpr fun _ _ => rfl
  have fields : ∀ fields, Field.allTypes (spelling aliases).allows fields = true :=
    Field.allTypes_true
  have function {f : FunctionDecl} (sub : ∀ name ∈ f.typeParams, name ∈ d.paramNames) :
      (spelling aliases).function f = true := by
    have body : allStmts (spelling aliases).allows (fun _ => true) f.body = true :=
      allStmts_true f.body
    simp only [Retyping.function, Retyping.signature, params sub, fields, body]
    rfl
  have methods {methods : List FunctionDecl}
      (sub : ∀ f ∈ methods, ∀ name ∈ f.typeParams, name ∈ d.paramNames) :
      methods.all (spelling aliases).function = true :=
    List.all_eq_true.mpr fun f member => function (sub f member)
  cases d with
  | struct d =>
    simp only [Retyping.decl, Retyping.struct, fields]
    rw [params fun _ => List.mem_append_left _, methods fun f member name named =>
      List.mem_append_right _ (List.mem_flatMap.mpr ⟨f, member, named⟩)]
    cases d.parent <;> rfl
  | enum d =>
    simp only [Retyping.decl, Retyping.enum, types]
    rw [params fun _ => List.mem_append_left _, methods fun f member name named =>
      List.mem_append_right _ (List.mem_flatMap.mpr ⟨f, member, named⟩)]
    simp [spelling]
  | function f => exact function fun _ => id
  | external e => simp only [Retyping.decl, Retyping.external, fields]; rfl
  | typeAlias a =>
    simp only [Retyping.decl, Retyping.typeAlias]
    have unspelled : a.typeParams.all (spelling aliases).param = true := params fun _ => id
    rw [unspelled]
    rfl

namespace Module

variable {m m' : Module} {options : Options} {collector : Option Collector}

theorem covered (h : ∀ name ∈ m.paramNames, Primitive.ofName? name = none) :
    (spelling m.declarations.aliases).Covers m options collector where
  decls := List.all_eq_true.mpr fun d member => spelling_decl fun name named =>
    h name (List.mem_flatMap.mpr ⟨d, member, named⟩)
  aliases := rfl
  depths := rfl
  quiet := False.elim

theorem aliases_unspelled (h : ∀ name ∈ m.paramNames, Primitive.ofName? name = none) :
    m.declarations.aliases.Unspelled := by
  have covers : (spelling m.declarations.aliases).Covers m {} none := covered h
  have start := covers.sessions.holds.decls.typeAliases
  rw [Session.registerAll_eq] at start
  intro a member param named
  have allowed := start a member
  simp only [Retyping.typeAlias, Bool.and_eq_true] at allowed
  exact Option.isNone_iff_eq_none.mp (List.all_eq_true.mp allowed.1 param named)

theorem generate_plain (h : ∀ name ∈ m.paramNames, Primitive.ofName? name = none) :
    ((m.generate (.ofOptions options collector)).map Session.text).toOption =
      (((m.retype TypeRef.plain).generate (.ofOptions options collector)).map
        Session.text).toOption := by
  have law := (aliases_unspelled h).lawful
  have resolves : (spelling m.declarations.aliases).walk.Resolves :=
    (AliasTable.structural _).resolves law (fun _ _ _ => trivial) rfl
  rcases Retyping.generate_text law resolves (covered h) with ⟨_, _, limit⟩ | ⟨_, overflows⟩ | same
  · exact limit.elim
  · exact overflows.elim
  · exact same

theorem paramNames_retype (g : TypeRef → TypeRef) (m : Module) :
    (m.retype g).paramNames = m.paramNames := by
  have methods (fs : List FunctionDecl) : (fs.map (FunctionDecl.retype g)).flatMap
      FunctionDecl.typeParams = fs.flatMap FunctionDecl.typeParams := List.flatMap_map _ _ _
  have each (d : Decl) : (d.retype g).paramNames = d.paramNames := by
    cases d with
    | struct d => exact congrArg (d.typeParams ++ ·) (methods d.methods)
    | enum d => exact congrArg (d.typeParams ++ ·) (methods d.methods)
    | _ => rfl
  unfold paramNames retype
  rw [List.flatMap_map]
  simp only [each]

/-- If no type parameter is spelled like a primitive then modules that differ only in how they spell
primitives have the same text, or both have none. -/
theorem generate_respelled (h : ∀ name ∈ m.paramNames, Primitive.ofName? name = none)
    (same : m.retype TypeRef.plain = m'.retype TypeRef.plain) :
    ((m.generate (.ofOptions options collector)).map Session.text).toOption =
      ((m'.generate (.ofOptions options collector)).map Session.text).toOption := by
  have h' : ∀ name ∈ m'.paramNames, Primitive.ofName? name = none := by
    rw [← paramNames_retype TypeRef.plain m', ← same, paramNames_retype]
    exact h
  rw [generate_plain h, same, ← generate_plain h']

/-- A template, an alias and a division, with two ways of writing the primitives open. -/
def quotientModule (byte int : TypeRef) : Module where
  name := "quotient"
  decls := [
    .struct { name := "Box", typeParams := ["T"], fields := [⟨"v", .ofName "T"⟩] },
    .typeAlias { name := "Count", target := int },
    .function
      { name := "quotient"
        params := [⟨"x", byte⟩, ⟨"b", .pointerTo (.named "Box" [int] none) 1⟩]
        returnType := .ofName "Count"
        body := [.ret (some (.cast ⟨.ofName "Count", {}⟩
          (.binary ⟨byte, {}⟩ .div (.var ⟨byte, {}⟩ "x") (.var ⟨byte, {}⟩ "x")))) {}] }]

theorem generate_respelled_quotient :
    (((quotientModule (.ofName "byte") (.ofName "int")).generate (.ofOptions {})).map
        Session.text).toOption =
      (((quotientModule (.primitive .u8) (.ofName "i32")).generate (.ofOptions {})).map
        Session.text).toOption ∧
    ((quotientModule (.ofName "byte") (.ofName "int")).generate (.ofOptions {})).toOption.isSome =
      true :=
  ⟨generate_respelled (by decide) rfl, by decide +kernel⟩

end Module

end Backend
