import Backend.Proofs.Json.Compact
import Backend.Proofs.Source.Format

/-!
Modules without doubles. The compact text of a double does not read back, but there are no doubles
in the JSON form of a module except in its literals. Main statement: `Module.exact_toJson`.
-/

namespace Backend

open Json (exact exactItems exactMembers)

/-! ### Literals -/

def Literal.isDouble : Literal → Bool
  | .float _ => true
  | _ => false

mutual

/-- No literal is a double. -/
def Expr.doubleFree : Expr → Bool
  | .literal _ v => !v.isDouble
  | .var .. | .functionRef .. | .sizeof .. => true
  | .binary _ _ lhs rhs => lhs.doubleFree && rhs.doubleFree
  | .unary _ _ operand => operand.doubleFree
  | .assign _ target value => target.doubleFree && value.doubleFree
  | .call _ _ _ args | .staticCall _ _ _ _ args => exprsDoubleFree args
  | .methodCall _ receiver _ _ args => receiver.doubleFree && exprsDoubleFree args
  | .closureCall _ callee args => callee.doubleFree && exprsDoubleFree args
  | .member _ object _ | .tupleIndex _ object _ => object.doubleFree
  | .index _ object position => object.doubleFree && position.doubleFree
  | .structLiteral _ fields => initsDoubleFree fields
  | .tupleLiteral _ elems | .arrayLiteral _ elems => exprsDoubleFree elems
  | .enumVariant _ _ args => exprsDoubleFree args
  | .matchOn _ scrutinee arms => scrutinee.doubleFree && armsDoubleFree arms
  | .lambda _ _ body _ => stmtsDoubleFree body
  | .ternary _ condition thenValue elseValue =>
    condition.doubleFree && thenValue.doubleFree && elseValue.doubleFree
  | .cast _ value => value.doubleFree

def exprsDoubleFree : List Expr → Bool
  | [] => true
  | e :: rest => e.doubleFree && exprsDoubleFree rest

def initsDoubleFree : List FieldInit → Bool
  | [] => true
  | .mk _ value :: rest => value.doubleFree && initsDoubleFree rest

def armsDoubleFree : List MatchArm → Bool
  | [] => true
  | .mk _ _ body :: rest => body.doubleFree && armsDoubleFree rest

def Stmt.doubleFree : Stmt → Bool
  | .letVar _ _ value _ | .ret value _ => valueDoubleFree value
  | .expr e => e.doubleFree
  | .ifElse condition thenBlock elseBlock _ =>
    condition.doubleFree && stmtsDoubleFree thenBlock && blockDoubleFree elseBlock
  | .whileLoop condition body _ => condition.doubleFree && stmtsDoubleFree body
  | .breakLoop _ | .continueLoop _ => true
  | .switch scrutinee cases default _ =>
    scrutinee.doubleFree && casesDoubleFree cases && blockDoubleFree default
  | .block body => stmtsDoubleFree body

def valueDoubleFree : Option Expr → Bool
  | none => true
  | some e => e.doubleFree

def blockDoubleFree : Option (List Stmt) → Bool
  | none => true
  | some body => stmtsDoubleFree body

def stmtsDoubleFree : List Stmt → Bool
  | [] => true
  | s :: rest => s.doubleFree && stmtsDoubleFree rest

def casesDoubleFree : List SwitchCase → Bool
  | [] => true
  | .mk _ body :: rest => stmtsDoubleFree body && casesDoubleFree rest

end

def Decl.bodies : Decl → List (List Stmt)
  | .struct d => d.methods.map FunctionDecl.body
  | .enum d => d.methods.map FunctionDecl.body
  | .function f => [f.body]
  | .external _ | .typeAlias _ => []

def Module.doubleFree (m : Module) : Bool := m.decls.all fun d => d.bodies.all stmtsDoubleFree

/-! ### Parts of the form -/

namespace Json

@[simp] theorem exact_null : null.exact = true := by rw [exact]

@[simp] theorem exact_bool (b : Bool) : (bool b).exact = true := by rw [exact]

@[simp] theorem exact_string (s : String) : (string s).exact = true := by rw [exact]

@[simp] theorem exact_array (items : List Json) : (array items).exact = exactItems items := by
  rw [exact]

@[simp] theorem exact_object (members : List (String × Json)) :
    (object members).exact = exactMembers members := by rw [exact]

attribute [simp] exactItems exactMembers

theorem exactItems_map {α : Type} {write : α → Json} {as : List α}
    (h : ∀ a ∈ as, (write a).exact = true) : exactItems (as.map write) = true := by
  induction as with
  | nil => rw [List.map_nil, exactItems]
  | cons a as ih =>
    rw [List.map_cons, exactItems, h a List.mem_cons_self, Bool.true_and]
    exact ih fun b member => h b (List.mem_cons_of_mem _ member)

theorem exact_nat {bits n : Nat} (h : n < twoPow bits) (bound : bits ≤ 64) :
    (int n).exact = true := by
  have le : twoPow bits ≤ twoPow 64 := Nat.pow_le_pow_right Nat.two_pos bound
  simp only [exact, Bool.and_eq_true, decide_eq_true_eq]
  omega

theorem exact_int64 {n : Int} (low : -(twoPow 63 : Int) ≤ n) (high : n < twoPow 63) :
    (int n).exact = true := by
  have le : twoPow 63 ≤ twoPow 64 := Nat.pow_le_pow_right Nat.two_pos (by decide)
  simp only [exact, Bool.and_eq_true, decide_eq_true_eq]
  omega

end Json

open Json (exactItems_map exact_nat exact_int64)

@[simp] theorem exact_tagged (tag : String) (body : Json) :
    (jsonTagged tag body).exact = body.exact := by simp [jsonTagged]

@[simp] theorem exact_strings (names : List String) : (jsonStrings names).exact = true := by
  rw [jsonStrings, Json.exact_array]
  exact exactItems_map fun _ _ => Json.exact_string _

theorem Location.exact_toJson {l : Location} (h : l.portable = true) : l.toJson.exact = true := by
  simp only [Location.portable, Bool.and_eq_true, decide_eq_true_eq] at h
  simp [Location.toJson, exact_nat h.1 (by decide), exact_nat h.2 (by decide)]

mutual

theorem TypeRef.exact_toJson : (t : TypeRef) → t.portable = true → t.toJson.exact = true
  | .primitive _, _ => by simp [TypeRef.toJson]
  | .pointer inner depth, h => by
    simp only [TypeRef.portable, Bool.and_eq_true, decide_eq_true_eq] at h
    simp [TypeRef.toJson, inner.exact_toJson h.2, exact_nat h.1 (by decide)]
  | .array inner dims, h => by
    simp only [TypeRef.portable, Bool.and_eq_true, List.all_eq_true, decide_eq_true_eq] at h
    have numbers : exactItems (dims.map fun (d : Nat) => .int d) = true :=
      exactItems_map fun d member => exact_nat (h.1 d member) (Nat.le_refl 64)
    simp [TypeRef.toJson, inner.exact_toJson h.2, numbers]
  | .tuple elems, h => by simp [TypeRef.toJson, exactItems_types elems h]
  | .function params ret _, h => by
    simp only [TypeRef.portable, Bool.and_eq_true] at h
    simp [TypeRef.toJson, exactItems_types params h.1, ret.exact_toJson h.2]
  | .named _ args hint, h => by
    cases hint <;> simp [TypeRef.toJson, jsonOption, exactItems_types args h]

theorem exactItems_types : (ts : List TypeRef) → typesPortable ts = true →
    exactItems (typesJson ts) = true
  | [], _ => by simp [typesJson]
  | t :: ts, h => by
    simp only [typesPortable, Bool.and_eq_true] at h
    simp [typesJson, t.exact_toJson h.1, exactItems_types ts h.2]

end

theorem exact_jsonFields {fields : List Field} (h : fieldsPortable fields = true) :
    (jsonFields fields).exact = true := by
  rw [jsonFields, Json.exact_array]
  refine exactItems_map fun f member => ?_
  simp [Field.toJson, f.ty.exact_toJson (List.all_eq_true.mp h f member)]

theorem ExprInfo.exact_wrap {i : ExprInfo} (h : i.portable = true) {kind : Json}
    (exact : kind.exact = true) : (i.wrap kind).exact = true := by
  simp only [ExprInfo.portable, Bool.and_eq_true] at h
  simp [ExprInfo.wrap, exact, i.ty.exact_toJson h.1, Location.exact_toJson h.2]

theorem Literal.exact_toJson {v : Literal} (h : v.portable = true) (free : v.isDouble = false) :
    v.toJson.exact = true := by
  cases v with
  | int n =>
    simp only [Literal.portable, Bool.and_eq_true, decide_eq_true_eq] at h
    simp [Literal.toJson, exact_int64 h.1 h.2]
  | float x => cases free
  | bool b => simp [Literal.toJson]
  | string s => simp [Literal.toJson]
  | null => simp [Literal.toJson]

/-! ### Expressions and statements -/

mutual

theorem Expr.exact_toJson : (e : Expr) → e.portable = true → e.doubleFree = true →
    e.toJson.exact = true
  | .literal i v, h, free => by
    simp only [Expr.portable, Expr.doubleFree, Bool.and_eq_true, Bool.not_eq_true'] at h free
    exact i.exact_wrap h.1 (by simp [v.exact_toJson h.2 free])
  | .var i _, h, _ => i.exact_wrap h (by simp)
  | .binary i _ lhs rhs, h, free => by
    simp only [Expr.portable, Expr.doubleFree, Bool.and_eq_true] at h free
    exact i.exact_wrap h.1.1 (by simp [lhs.exact_toJson h.1.2 free.1, rhs.exact_toJson h.2 free.2])
  | .unary i _ operand, h, free => by
    simp only [Expr.portable, Bool.and_eq_true] at h
    exact i.exact_wrap h.1 (by simp [operand.exact_toJson h.2 free])
  | .assign i target value, h, free => by
    simp only [Expr.portable, Expr.doubleFree, Bool.and_eq_true] at h free
    exact i.exact_wrap h.1.1
      (by simp [target.exact_toJson h.1.2 free.1, value.exact_toJson h.2 free.2])
  | .call i _ typeArgs args, h, free => by
    simp only [Expr.portable, Bool.and_eq_true] at h
    exact i.exact_wrap h.1.1 (by simp [exactItems_types typeArgs h.1.2, exactItems_exprs args h.2 free])
  | .methodCall i receiver _ typeArgs args, h, free => by
    simp only [Expr.portable, Expr.doubleFree, Bool.and_eq_true] at h free
    exact i.exact_wrap h.1.1.1 (by simp [receiver.exact_toJson h.1.1.2 free.1,
      exactItems_types typeArgs h.1.2, exactItems_exprs args h.2 free.2])
  | .staticCall i owner _ typeArgs args, h, free => by
    simp only [Expr.portable, Bool.and_eq_true] at h
    exact i.exact_wrap h.1.1.1 (by simp [owner.exact_toJson h.1.1.2,
      exactItems_types typeArgs h.1.2, exactItems_exprs args h.2 free])
  | .closureCall i callee args, h, free => by
    simp only [Expr.portable, Expr.doubleFree, Bool.and_eq_true] at h free
    exact i.exact_wrap h.1.1
      (by simp [callee.exact_toJson h.1.2 free.1, exactItems_exprs args h.2 free.2])
  | .functionRef i _ typeArgs, h, _ => by
    simp only [Expr.portable, Bool.and_eq_true] at h
    exact i.exact_wrap h.1 (by simp [exactItems_types typeArgs h.2])
  | .member i object _, h, free => by
    simp only [Expr.portable, Bool.and_eq_true] at h
    exact i.exact_wrap h.1 (by simp [object.exact_toJson h.2 free])
  | .index i object position, h, free => by
    simp only [Expr.portable, Expr.doubleFree, Bool.and_eq_true] at h free
    exact i.exact_wrap h.1.1
      (by simp [object.exact_toJson h.1.2 free.1, position.exact_toJson h.2 free.2])
  | .tupleIndex i object position, h, free => by
    simp only [Expr.portable, Bool.and_eq_true, decide_eq_true_eq] at h
    exact i.exact_wrap h.1.1
      (by simp [object.exact_toJson h.1.2 free, exact_nat h.2 (Nat.le_refl 64)])
  | .structLiteral i fields, h, free => by
    simp only [Expr.portable, Bool.and_eq_true] at h
    exact i.exact_wrap h.1 (by simp [exactItems_inits fields h.2 free])
  | .tupleLiteral i elems, h, free | .arrayLiteral i elems, h, free => by
    simp only [Expr.portable, Bool.and_eq_true] at h
    exact i.exact_wrap h.1 (by simp [exactItems_exprs elems h.2 free])
  | .enumVariant i _ args, h, free => by
    simp only [Expr.portable, Bool.and_eq_true] at h
    exact i.exact_wrap h.1 (by simp [exactItems_exprs args h.2 free])
  | .matchOn i scrutinee arms, h, free => by
    simp only [Expr.portable, Expr.doubleFree, Bool.and_eq_true] at h free
    exact i.exact_wrap h.1.1
      (by simp [scrutinee.exact_toJson h.1.2 free.1, exactItems_arms arms h.2 free.2])
  | .lambda i params body captures, h, free => by
    simp only [Expr.portable, Bool.and_eq_true] at h
    exact i.exact_wrap h.1.1.1 (by simp [exact_jsonFields h.1.1.2, exactItems_stmts body h.1.2 free,
      exact_jsonFields h.2])
  | .ternary i condition thenValue elseValue, h, free => by
    simp only [Expr.portable, Expr.doubleFree, Bool.and_eq_true] at h free
    exact i.exact_wrap h.1.1.1 (by simp [condition.exact_toJson h.1.1.2 free.1.1,
      thenValue.exact_toJson h.1.2 free.1.2, elseValue.exact_toJson h.2 free.2])
  | .cast i value, h, free => by
    simp only [Expr.portable, Bool.and_eq_true] at h
    exact i.exact_wrap h.1 (by simp [value.exact_toJson h.2 free])
  | .sizeof i ty, h, _ => by
    simp only [Expr.portable, Bool.and_eq_true] at h
    exact i.exact_wrap h.1 (by simp [ty.exact_toJson h.2])

theorem exactItems_exprs : (es : List Expr) → exprsPortable es = true →
    exprsDoubleFree es = true → exactItems (exprsJson es) = true
  | [], _, _ => by simp [exprsJson]
  | e :: rest, h, free => by
    simp only [exprsPortable, exprsDoubleFree, Bool.and_eq_true] at h free
    simp [exprsJson, e.exact_toJson h.1 free.1, exactItems_exprs rest h.2 free.2]

theorem exactItems_inits : (inits : List FieldInit) → initsPortable inits = true →
    initsDoubleFree inits = true → exactItems (initsJson inits) = true
  | [], _, _ => by simp [initsJson]
  | .mk _ value :: rest, h, free => by
    simp only [initsPortable, initsDoubleFree, Bool.and_eq_true] at h free
    simp [initsJson, value.exact_toJson h.1 free.1, exactItems_inits rest h.2 free.2]

theorem exactItems_arms : (arms : List MatchArm) → armsPortable arms = true →
    armsDoubleFree arms = true → exactItems (armsJson arms) = true
  | [], _, _ => by simp [armsJson]
  | .mk variant _ body :: rest, h, free => by
    simp only [armsPortable, armsDoubleFree, Bool.and_eq_true] at h free
    have tag : (jsonOption (variant.map .string)).exact = true := by
      cases variant <;> simp [jsonOption]
    simp [armsJson, tag, body.exact_toJson h.1 free.1, exactItems_arms rest h.2 free.2]

theorem Stmt.exact_toJson : (s : Stmt) → s.portable = true → s.doubleFree = true →
    s.toJson.exact = true
  | .letVar _ ty value l, h, free => by
    simp only [Stmt.portable, Bool.and_eq_true] at h
    simp [Stmt.toJson, ty.exact_toJson h.1.1, exact_value value h.1.2 free, l.exact_toJson h.2]
  | .expr e, h, free => by simp [Stmt.toJson, e.exact_toJson h free]
  | .ret value l, h, free => by
    simp only [Stmt.portable, Bool.and_eq_true] at h
    simp [Stmt.toJson, exact_value value h.1 free, l.exact_toJson h.2]
  | .ifElse condition thenBlock elseBlock l, h, free => by
    simp only [Stmt.portable, Stmt.doubleFree, Bool.and_eq_true] at h free
    simp [Stmt.toJson, condition.exact_toJson h.1.1.1 free.1.1,
      exactItems_stmts thenBlock h.1.1.2 free.1.2, exact_block elseBlock h.1.2 free.2,
      l.exact_toJson h.2]
  | .whileLoop condition body l, h, free => by
    simp only [Stmt.portable, Stmt.doubleFree, Bool.and_eq_true] at h free
    simp [Stmt.toJson, condition.exact_toJson h.1.1 free.1, exactItems_stmts body h.1.2 free.2,
      l.exact_toJson h.2]
  | .breakLoop l, h, _ | .continueLoop l, h, _ => by simp [Stmt.toJson, l.exact_toJson h]
  | .switch scrutinee cases default l, h, free => by
    simp only [Stmt.portable, Stmt.doubleFree, Bool.and_eq_true] at h free
    simp [Stmt.toJson, scrutinee.exact_toJson h.1.1.1 free.1.1,
      exactItems_cases cases h.1.1.2 free.1.2, exact_block default h.1.2 free.2, l.exact_toJson h.2]
  | .block body, h, free => by simp [Stmt.toJson, exactItems_stmts body h free]

theorem exact_value : (value : Option Expr) → valuePortable value = true →
    valueDoubleFree value = true → (exprOptionJson value).exact = true
  | none, _, _ => by simp [exprOptionJson]
  | some e, h, free => by simp [exprOptionJson, e.exact_toJson h free]

theorem exact_block : (block : Option (List Stmt)) → blockPortable block = true →
    blockDoubleFree block = true → (blockOptionJson block).exact = true
  | none, _, _ => by simp [blockOptionJson]
  | some body, h, free => by simp [blockOptionJson, exactItems_stmts body h free]

theorem exactItems_stmts : (body : List Stmt) → stmtsPortable body = true →
    stmtsDoubleFree body = true → exactItems (stmtsJson body) = true
  | [], _, _ => by simp [stmtsJson]
  | s :: rest, h, free => by
    simp only [stmtsPortable, stmtsDoubleFree, Bool.and_eq_true] at h free
    simp [stmtsJson, s.exact_toJson h.1 free.1, exactItems_stmts rest h.2 free.2]

theorem exactItems_cases : (cases : List SwitchCase) → casesPortable cases = true →
    casesDoubleFree cases = true → exactItems (casesJson cases) = true
  | [], _, _ => by simp [casesJson]
  | .mk value body :: rest, h, free => by
    simp only [casesPortable, casesDoubleFree, Bool.and_eq_true, decide_eq_true_eq] at h free
    simp [casesJson, exact_int64 h.1.1.1 h.1.1.2, exactItems_stmts body h.1.2 free.1,
      exactItems_cases rest h.2 free.2]

end

/-! ### Declarations -/

theorem FunctionDecl.exact_toJson {f : FunctionDecl} (h : f.portable = true)
    (free : stmtsDoubleFree f.body = true) : f.toJson.exact = true := by
  simp only [FunctionDecl.portable, Bool.and_eq_true] at h
  simp [FunctionDecl.toJson, exact_jsonFields h.1.1.1, f.returnType.exact_toJson h.1.1.2,
    exactItems_stmts f.body h.1.2 free, Location.exact_toJson h.2]

theorem exact_jsonMethods {methods : List FunctionDecl}
    (h : methods.all FunctionDecl.portable = true)
    (free : (methods.map FunctionDecl.body).all stmtsDoubleFree = true) :
    (jsonMethods methods).exact = true := by
  rw [jsonMethods, Json.exact_array]
  refine exactItems_map fun f member => ?_
  exact f.exact_toJson (List.all_eq_true.mp h f member)
    (List.all_eq_true.mp free f.body (List.mem_map_of_mem member))

theorem Variant.exact_toJson {v : Variant} (h : v.payload.all Payload.portable = true) :
    v.toJson.exact = true := by
  obtain ⟨name, payload⟩ := v
  cases payload with
  | none => simp [Variant.toJson, jsonOption]
  | some p =>
    cases p with
    | tuple types => simp [Variant.toJson, jsonOption, Payload.toJson, exactItems_types types h]
    | struct fields => simp [Variant.toJson, jsonOption, Payload.toJson, exact_jsonFields h]

theorem Decl.exact_toJson {d : Decl} (h : d.portable = true)
    (free : d.bodies.all stmtsDoubleFree = true) : d.toJson.exact = true := by
  cases d with
  | struct d =>
    simp only [Decl.portable, StructDecl.portable, Bool.and_eq_true] at h
    have parent : (jsonOption (d.parent.map TypeRef.toJson)).exact = true := by
      cases isParent : d.parent with
      | none => simp [jsonOption]
      | some t => simpa [jsonOption] using t.exact_toJson (by simpa [isParent] using h.1.1.1)
    simp [Decl.toJson, StructDecl.toJson, parent, exact_jsonFields h.1.1.2,
      exact_jsonMethods h.1.2 free, Location.exact_toJson h.2]
  | enum d =>
    simp only [Decl.portable, EnumDecl.portable, Bool.and_eq_true] at h
    have variants : exactItems (d.variants.map Variant.toJson) = true :=
      exactItems_map fun v member => v.exact_toJson (List.all_eq_true.mp h.1.1 v member)
    simp [Decl.toJson, EnumDecl.toJson, variants, exact_jsonMethods h.1.2 free,
      Location.exact_toJson h.2]
  | function f =>
    have body := List.all_eq_true.mp free f.body (List.mem_singleton.mpr rfl)
    simp [Decl.toJson, f.exact_toJson h body]
  | external d =>
    simp only [Decl.portable, Bool.and_eq_true] at h
    simp [Decl.toJson, ExternDecl.toJson, exact_jsonFields h.1.1, d.returnType.exact_toJson h.1.2,
      Location.exact_toJson h.2]
  | typeAlias d =>
    simp only [Decl.portable, Bool.and_eq_true] at h
    simp [Decl.toJson, AliasDecl.toJson, d.target.exact_toJson h.1, Location.exact_toJson h.2]

/-- The form of a portable module without doubles is exact. -/
theorem Module.exact_toJson {m : Module} (h : m.portable = true) (free : m.doubleFree = true) :
    m.toJson.exact = true := by
  have decls : exactItems (m.decls.map Decl.toJson) = true := exactItems_map fun d member =>
    d.exact_toJson (List.all_eq_true.mp h d member) (List.all_eq_true.mp free d member)
  simp [Module.toJson, decls]

end Backend
