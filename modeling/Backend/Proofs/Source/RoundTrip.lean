import Backend.Source.Decode
import Backend.Proofs.Source.Exact

/-!
Reading back what was written. The reader takes every variation of the JSON form of a portable
module to that module, if the form nests no deeper than the reader goes; values that were added may
nest deeper.
-/

namespace Backend

open Json (Form Varies Carries Decodes Read Record readString readBool readNat readInt64 readList)
open Format

namespace Json

theorem tagged_ok {α : Type} {tag : String} {body : Json} {f : String × Json → Read α} {y : Read α}
    (h : f (tag, body) = y) : (tagged (.object [(tag, body)]) >>= f) = y := h

theorem variant_object (tag : String) (body : Json) :
    variant (.object [(tag, body)]) = .ok (tag, some body) := rfl

theorem readNat_int {bits n : Nat} (h : n < twoPow bits) : readNat bits (.int n) = .ok n := by
  have range : (0 : Int) ≤ n ∧ (n : Int) < twoPow bits := by omega
  rw [readNat, readInt, if_pos range]
  rfl

theorem readInt64_int {n : Int} (low : -(twoPow 63 : Int) ≤ n) (high : n < twoPow 63) :
    readInt64 (.int n) = .ok n := by
  rw [readInt64, readInt, if_pos ⟨low, high⟩]

theorem readList_map {α : Type} {write : α → Json} {read : Json → Read α} {as : List α}
    (h : ∀ a ∈ as, read (write a) = .ok a) : readList read (.array (as.map write)) = .ok as := by
  rw [readList]
  induction as with
  | nil => rfl
  | cons a as ih =>
    rw [List.map_cons, List.mapM_cons]
    exact bind_ok (h a List.mem_cons_self)
      (bind_ok (ih fun b hb => h b (List.mem_cons_of_mem _ hb)) rfl)

variable {n : Nat}

theorem decodes_map {α : Type} {f : Form Category} {write : α → Json} {read : Json → Read α}
    {as : List α} (h : ∀ a ∈ as, Decodes forms n f read (write a) a) :
    Decodes forms n (.list f) (readList read) (.array (as.map write)) as := by
  refine .list (List.forall₂_map_left_iff.mpr ?_)
  exact List.forall₂_same.mpr h

theorem string_decodes (s : String) : Decodes forms n .plain readString (.string s) s :=
  .plain rfl

theorem bool_decodes (b : Bool) : Decodes forms n .plain readBool (.bool b) b :=
  .plain rfl

end Json

open Json

variable {n : Nat}

/-! ### Names, places and types -/

theorem primitive_name (p : Primitive) : Decode.primitive (.string p.name) = .ok p := by
  cases p <;> rfl

theorem binaryOp_name (o : BinaryOp) : Decode.binaryOp (.string o.name) = .ok o := by
  cases o <;> rfl

theorem unaryOp_name (o : UnaryOp) : Decode.unaryOp (.string o.name) = .ok o := by
  cases o <;> rfl

theorem declKind_name (k : DeclKind) : Decode.declKind (.string k.name) = .ok k := by
  cases k <;> rfl

theorem names_decode (names : List String) :
    Decodes forms n .plain (readList readString) (jsonStrings names) names :=
  .plain (readList_map fun _ _ => rfl)

theorem Location.decodes {l : Location} (h : l.portable = true) :
    Decodes forms n location Decode.location l.toJson l := by
  simp only [Location.portable, Bool.and_eq_true, decide_eq_true_eq] at h
  refine .mono (.record ["file", "line", "column"] rfl rfl (by decide) ?_) n.le_succ
  rintro j r read ⟨c₁, c₂, c₃, -⟩
  have file := c₁.defaulted (string_decodes l.file) Json.string.inj
  have line := c₂.defaulted (.plain (readNat_int h.1)) fun same =>
    Int.ofNat.inj (Json.int.inj same)
  have column := c₃.defaulted (.plain (readNat_int h.2)) fun same =>
    Int.ofNat.inj (Json.int.inj same)
  exact bind_ok read (bind_ok file (bind_ok line (bind_ok column rfl)))

theorem Location.eq_default {l : Location} (h : l.toJson = Location.toJson {}) : l = {} := by
  obtain ⟨file, line, column⟩ := l
  simp [Location.toJson] at h
  simp [h]

theorem locationOf_carries {r : Record} {l : Location} (h : l.portable = true)
    (c : Carries forms n r place l.toJson) : Decode.locationOf r = .ok l :=
  c.defaulted (Location.decodes h) Location.eq_default

theorem typesJson_eq_nil {ts : List TypeRef} (h : Json.array (typesJson ts) = .array []) :
    ts = [] := by
  cases ts with
  | nil => rfl
  | cons t ts => simp [typesJson] at h

mutual

theorem TypeRef.decodes : (t : TypeRef) → (n : Nat) → t.portable = true →
    Decodes forms n (.of .type) (Decode.typeRef n) t.toJson t
  | t, 0, _ => by cases t <;> exact .zero
  | .primitive p, n + 1, _ => by
    refine .of (.variant rfl (.plain (primitive_name p)) fun body read => ?_)
    exact tagged_ok (bind_ok read rfl)
  | .pointer inner depth, n + 1, h => by
    simp only [TypeRef.portable, Bool.and_eq_true, decide_eq_true_eq] at h
    refine .of (.variantRecord ["inner", "depth"] rfl rfl rfl (by decide) ?_)
    rintro body r read ⟨c₁, c₂, -⟩
    have inner' := c₁.required (inner.decodes n h.2)
    have depth' := c₂.required (.plain (readNat_int h.1))
    exact tagged_ok (bind_ok read (bind_ok inner' (bind_ok depth' rfl)))
  | .array inner dims, n + 1, h => by
    simp only [TypeRef.portable, Bool.and_eq_true, List.all_eq_true, decide_eq_true_eq] at h
    refine .of (.variantRecord ["inner", "dims"] rfl rfl rfl (by decide) ?_)
    rintro body r read ⟨c₁, c₂, -⟩
    have inner' := c₁.required (inner.decodes n h.2)
    have dims' := c₂.required (.plain (readList_map fun d hd => readNat_int (h.1 d hd)))
    exact tagged_ok (bind_ok read (bind_ok inner' (bind_ok dims' rfl)))
  | .tuple elems, n + 1, h => by
    refine .of (.variant rfl (.list (types_decode elems n h)) fun body read => ?_)
    exact tagged_ok (bind_ok read rfl)
  | .function params ret variadic, n + 1, h => by
    simp only [TypeRef.portable, Bool.and_eq_true] at h
    refine .of (.variantRecord ["params", "ret", "variadic"] rfl rfl rfl (by decide) ?_)
    rintro body r read ⟨c₁, c₂, c₃, -⟩
    have params' := c₁.required (.list (types_decode params n h.1))
    have ret' := c₂.required (ret.decodes n h.2)
    have variadic' := c₃.defaulted (bool_decodes variadic) Json.bool.inj
    exact tagged_ok (bind_ok read (bind_ok params' (bind_ok ret'
      (bind_ok variadic' rfl))))
  | .named name args hint, n + 1, h => by
    refine .of (.variantRecord ["name", "generic_args", "resolved"] rfl rfl rfl (by decide) ?_)
    rintro body r read ⟨c₁, c₂, c₃, -⟩
    have name' := c₁.required (string_decodes name)
    have args' := c₂.defaulted (.list (types_decode args n h)) typesJson_eq_nil
    have hint' := c₃.nullable fun k _ => ⟨by simp, .plain (declKind_name k)⟩
    exact tagged_ok (bind_ok read (bind_ok name' (bind_ok args'
      (bind_ok hint' rfl))))

theorem types_decode : (ts : List TypeRef) → (n : Nat) → typesPortable ts = true →
    List.Forall₂ (Decodes forms n (.of .type) (Decode.typeRef n)) (typesJson ts) ts
  | [], _, _ => .nil
  | t :: ts, n, h => by
    rw [typesPortable, Bool.and_eq_true] at h
    exact .cons (t.decodes n h.1) (types_decode ts n h.2)

end

theorem map_eq_nil {α : Type} {write : α → Json} {as : List α}
    (h : Json.array (as.map write) = .array []) : as = [] :=
  List.map_eq_nil_iff.mp (Json.array.inj h)

theorem fields_decode {fs : List Field} (h : fieldsPortable fs = true) :
    Decodes forms maxNesting fields Decode.fields (jsonFields fs) fs := by
  rw [fieldsPortable, List.all_eq_true] at h
  refine decodes_map fun f member => ?_
  refine .mono (.record ["name", "ty"] rfl rfl (by decide) ?_) maxNesting.le_succ
  rintro j r read ⟨c₁, c₂, -⟩
  have name := c₁.required (string_decodes f.name)
  have ty := c₂.required (f.ty.decodes maxNesting (h f member))
  exact bind_ok read (bind_ok name (bind_ok ty rfl))

theorem Literal.decodes {v : Literal} (h : v.portable = true) :
    Decode.literal v.toJson = .ok v := by
  cases v with
  | int n =>
    simp only [Literal.portable, Bool.and_eq_true, decide_eq_true_eq] at h
    exact bind_ok (variant_object _ _) (bind_ok (readInt64_int h.1 h.2) rfl)
  | float x => rfl
  | bool b => rfl
  | string s => rfl
  | null => rfl

theorem toJson_type_ne_null (t : TypeRef) : t.toJson ≠ .null := by
  cases t <;> rintro ⟨⟩

theorem toJson_payload_ne_null (p : Payload) : p.toJson ≠ .null := by
  cases p <;> rintro ⟨⟩

/-! ### Expressions and statements -/

theorem ExprInfo.decodes_wrap {i : ExprInfo} {tag : String} {body : Json}
    (make : ExprInfo → Expr) (h : i.portable = true) (bound : n ≤ maxNesting)
    (hk : ∀ k ≤ maxNesting, Decodes forms (k + 1) exprKind (Decode.exprKind (k + 1))
      (.object [(tag, body)]) make) :
    Decodes forms n (.of .expr) (Decode.expr n) (i.wrap (jsonTagged tag body)) (make i) := by
  intro deep
  obtain ⟨k, rfl⟩ : ∃ k, n = k + 2 := by
    simp only [ExprInfo.wrap, jsonTagged, nesting, nestingMembers] at deep
    exact ⟨n - 2, by omega⟩
  rw [ExprInfo.portable, Bool.and_eq_true] at h
  refine Decodes.of (.record ["kind", "ty", "location"] rfl rfl (by decide) ?_) deep
  rintro j r read ⟨c₁, c₂, c₃, -⟩
  have kind := c₁.required (hk k (by omega))
  have ty := c₂.required ((i.ty.decodes maxNesting h.1).mono (by omega))
  have location := locationOf_carries h.2 c₃
  exact bind_ok read (bind_ok kind (bind_ok ty (bind_ok location rfl)))

theorem exprsJson_eq_nil {es : List Expr} (h : Json.array (exprsJson es) = .array []) :
    es = [] := by
  cases es with
  | nil => rfl
  | cons e es => simp [exprsJson] at h

theorem stmtsJson_eq_nil {ss : List Stmt} (h : Json.array (stmtsJson ss) = .array []) :
    ss = [] := by
  cases ss with
  | nil => rfl
  | cons s ss => simp [stmtsJson] at h

theorem toJson_ne_null (e : Expr) : e.toJson ≠ .null := by
  cases e <;> rintro ⟨⟩

theorem types_decode_all {ts : List TypeRef} (h : typesPortable ts = true)
    (bound : n ≤ maxNesting) : Decodes forms n types Decode.types (.array (typesJson ts)) ts :=
  .mono (.list (types_decode ts maxNesting h)) bound

mutual

theorem Expr.decodes : (e : Expr) → (n : Nat) → e.portable = true →
    n ≤ maxNesting → Decodes forms n (.of .expr) (Decode.expr n) e.toJson e
  | .literal i v, n, h, bound => by
    rw [Expr.portable, Bool.and_eq_true] at h
    refine i.decodes_wrap (fun i => .literal i v) h.1 bound fun k bound =>
      .variant rfl (.plain (Literal.decodes h.2)) fun body read => ?_
    exact tagged_ok (bind_ok read rfl)
  | .var i name, n, h, bound => by
    refine i.decodes_wrap (fun i => .var i name) h bound fun k bound =>
      .variant rfl (string_decodes name) fun body read => ?_
    exact tagged_ok (bind_ok read rfl)
  | .binary i op lhs rhs, n, h, bound => by
    simp only [Expr.portable, Bool.and_eq_true] at h
    refine i.decodes_wrap (fun i => .binary i op lhs rhs) h.1.1 bound fun k bound =>
      .variantRecord ["op", "lhs", "rhs"] rfl rfl rfl (by decide) ?_
    rintro body r read ⟨c₁, c₂, c₃, -⟩
    have op' := c₁.required (.plain (binaryOp_name op))
    have lhs' := c₂.required (lhs.decodes k h.1.2 bound)
    have rhs' := c₃.required (rhs.decodes k h.2 bound)
    exact tagged_ok (bind_ok read (bind_ok op' (bind_ok lhs' (bind_ok rhs' rfl))))
  | .unary i op operand, n, h, bound => by
    simp only [Expr.portable, Bool.and_eq_true] at h
    refine i.decodes_wrap (fun i => .unary i op operand) h.1 bound fun k bound =>
      .variantRecord ["op", "operand"] rfl rfl rfl (by decide) ?_
    rintro body r read ⟨c₁, c₂, -⟩
    have op' := c₁.required (.plain (unaryOp_name op))
    have operand' := c₂.required (operand.decodes k h.2 bound)
    exact tagged_ok (bind_ok read (bind_ok op' (bind_ok operand' rfl)))
  | .assign i target value, n, h, bound => by
    simp only [Expr.portable, Bool.and_eq_true] at h
    refine i.decodes_wrap (fun i => .assign i target value) h.1.1 bound fun k bound =>
      .variantRecord ["target", "value"] rfl rfl rfl (by decide) ?_
    rintro body r read ⟨c₁, c₂, -⟩
    have target' := c₁.required (target.decodes k h.1.2 bound)
    have value' := c₂.required (value.decodes k h.2 bound)
    exact tagged_ok (bind_ok read (bind_ok target' (bind_ok value' rfl)))
  | .call i callee typeArgs args, n, h, bound => by
    simp only [Expr.portable, Bool.and_eq_true] at h
    refine i.decodes_wrap (fun i => .call i callee typeArgs args) h.1.1 bound fun k bound =>
      .variantRecord ["callee", "generic_args", "args"] rfl rfl rfl (by decide) ?_
    rintro body r read ⟨c₁, c₂, c₃, -⟩
    have callee' := c₁.required (string_decodes callee)
    have typeArgs' := c₂.defaulted (types_decode_all h.1.2 bound) typesJson_eq_nil
    have args' := c₃.required (.list (exprs_decode args k h.2 bound))
    exact tagged_ok (bind_ok read (bind_ok callee' (bind_ok typeArgs'
      (bind_ok args' rfl))))
  | .methodCall i receiver method typeArgs args, n, h, bound => by
    simp only [Expr.portable, Bool.and_eq_true] at h
    refine i.decodes_wrap (fun i => .methodCall i receiver method typeArgs args) h.1.1.1 bound
      fun k bound => .variantRecord ["receiver", "method", "generic_args", "args"] rfl rfl rfl
        (by decide) ?_
    rintro body r read ⟨c₁, c₂, c₃, c₄, -⟩
    have receiver' := c₁.required (receiver.decodes k h.1.1.2 bound)
    have method' := c₂.required (string_decodes method)
    have typeArgs' := c₃.defaulted (types_decode_all h.1.2 bound) typesJson_eq_nil
    have args' := c₄.required (.list (exprs_decode args k h.2 bound))
    exact tagged_ok (bind_ok read (bind_ok receiver' (bind_ok method'
      (bind_ok typeArgs' (bind_ok args' rfl)))))
  | .staticCall i owner method typeArgs args, n, h, bound => by
    simp only [Expr.portable, Bool.and_eq_true] at h
    refine i.decodes_wrap (fun i => .staticCall i owner method typeArgs args) h.1.1.1 bound
      fun k bound => .variantRecord ["owner", "method", "generic_args", "args"] rfl rfl rfl
        (by decide) ?_
    rintro body r read ⟨c₁, c₂, c₃, c₄, -⟩
    have owner' := c₁.required ((owner.decodes maxNesting h.1.1.2).mono bound)
    have method' := c₂.required (string_decodes method)
    have typeArgs' := c₃.defaulted (types_decode_all h.1.2 bound) typesJson_eq_nil
    have args' := c₄.required (.list (exprs_decode args k h.2 bound))
    exact tagged_ok (bind_ok read (bind_ok owner' (bind_ok method'
      (bind_ok typeArgs' (bind_ok args' rfl)))))
  | .closureCall i callee args, n, h, bound => by
    simp only [Expr.portable, Bool.and_eq_true] at h
    refine i.decodes_wrap (fun i => .closureCall i callee args) h.1.1 bound fun k bound =>
      .variantRecord ["callee", "args"] rfl rfl rfl (by decide) ?_
    rintro body r read ⟨c₁, c₂, -⟩
    have callee' := c₁.required (callee.decodes k h.1.2 bound)
    have args' := c₂.required (.list (exprs_decode args k h.2 bound))
    exact tagged_ok (bind_ok read (bind_ok callee' (bind_ok args' rfl)))
  | .functionRef i name typeArgs, n, h, bound => by
    simp only [Expr.portable, Bool.and_eq_true] at h
    refine i.decodes_wrap (fun i => .functionRef i name typeArgs) h.1 bound fun k bound =>
      .variantRecord ["name", "generic_args"] rfl rfl rfl (by decide) ?_
    rintro body r read ⟨c₁, c₂, -⟩
    have name' := c₁.required (string_decodes name)
    have typeArgs' := c₂.defaulted (types_decode_all h.2 bound) typesJson_eq_nil
    exact tagged_ok (bind_ok read (bind_ok name' (bind_ok typeArgs' rfl)))
  | .member i base field, n, h, bound => by
    simp only [Expr.portable, Bool.and_eq_true] at h
    refine i.decodes_wrap (fun i => .member i base field) h.1 bound fun k bound =>
      .variantRecord ["object", "field"] rfl rfl rfl (by decide) ?_
    rintro body r read ⟨c₁, c₂, -⟩
    have base' := c₁.required (base.decodes k h.2 bound)
    have field' := c₂.required (string_decodes field)
    exact tagged_ok (bind_ok read (bind_ok base' (bind_ok field' rfl)))
  | .index i base position, n, h, bound => by
    simp only [Expr.portable, Bool.and_eq_true] at h
    refine i.decodes_wrap (fun i => .index i base position) h.1.1 bound fun k bound =>
      .variantRecord ["object", "index"] rfl rfl rfl (by decide) ?_
    rintro body r read ⟨c₁, c₂, -⟩
    have base' := c₁.required (base.decodes k h.1.2 bound)
    have position' := c₂.required (position.decodes k h.2 bound)
    exact tagged_ok (bind_ok read (bind_ok base' (bind_ok position' rfl)))
  | .tupleIndex i base position, n, h, bound => by
    simp only [Expr.portable, Bool.and_eq_true, decide_eq_true_eq] at h
    refine i.decodes_wrap (fun i => .tupleIndex i base position) h.1.1 bound fun k bound =>
      .variantRecord ["object", "index"] rfl rfl rfl (by decide) ?_
    rintro body r read ⟨c₁, c₂, -⟩
    have base' := c₁.required (base.decodes k h.1.2 bound)
    have position' := c₂.required (.plain (readNat_int h.2))
    exact tagged_ok (bind_ok read (bind_ok base' (bind_ok position' rfl)))
  | .structLiteral i inits, n, h, bound => by
    simp only [Expr.portable, Bool.and_eq_true] at h
    refine i.decodes_wrap (fun i => .structLiteral i inits) h.1 bound fun k bound =>
      .variantRecord ["fields"] rfl rfl rfl (by decide) ?_
    rintro body r read ⟨c₁, -⟩
    have inits' := c₁.required (.list (inits_decode inits k h.2 bound))
    exact tagged_ok (bind_ok read (bind_ok inits' rfl))
  | .tupleLiteral i elems, n, h, bound => by
    simp only [Expr.portable, Bool.and_eq_true] at h
    refine i.decodes_wrap (fun i => .tupleLiteral i elems) h.1 bound fun k bound =>
      .variant rfl (.list (exprs_decode elems k h.2 bound)) fun body read => ?_
    exact tagged_ok (bind_ok read rfl)
  | .arrayLiteral i elems, n, h, bound => by
    simp only [Expr.portable, Bool.and_eq_true] at h
    refine i.decodes_wrap (fun i => .arrayLiteral i elems) h.1 bound fun k bound =>
      .variant rfl (.list (exprs_decode elems k h.2 bound)) fun body read => ?_
    exact tagged_ok (bind_ok read rfl)
  | .enumVariant i tag args, n, h, bound => by
    simp only [Expr.portable, Bool.and_eq_true] at h
    refine i.decodes_wrap (fun i => .enumVariant i tag args) h.1 bound fun k bound =>
      .variantRecord ["variant", "args"] rfl rfl rfl (by decide) ?_
    rintro body r read ⟨c₁, c₂, -⟩
    have tag' := c₁.required (string_decodes tag)
    have args' := c₂.defaulted (.list (exprs_decode args k h.2 bound))
      exprsJson_eq_nil
    exact tagged_ok (bind_ok read (bind_ok tag' (bind_ok args' rfl)))
  | .matchOn i scrutinee arms, n, h, bound => by
    simp only [Expr.portable, Bool.and_eq_true] at h
    refine i.decodes_wrap (fun i => .matchOn i scrutinee arms) h.1.1 bound fun k bound =>
      .variantRecord ["scrutinee", "arms"] rfl rfl rfl (by decide) ?_
    rintro body r read ⟨c₁, c₂, -⟩
    have scrutinee' := c₁.required (scrutinee.decodes k h.1.2 bound)
    have arms' := c₂.required (.list (arms_decode arms k h.2 bound))
    exact tagged_ok (bind_ok read (bind_ok scrutinee' (bind_ok arms' rfl)))
  | .lambda i params body captures, n, h, bound => by
    simp only [Expr.portable, Bool.and_eq_true] at h
    refine i.decodes_wrap (fun i => .lambda i params body captures) h.1.1.1 bound fun k bound =>
      .variantRecord ["params", "body", "captures"] rfl rfl rfl (by decide) ?_
    rintro _ r read ⟨c₁, c₂, c₃, -⟩
    have params' := c₁.required ((fields_decode h.1.1.2).mono bound)
    have body' := c₂.required (.list (stmts_decode body k h.1.2 bound))
    have captures' := c₃.defaulted ((fields_decode h.2).mono bound) map_eq_nil
    exact tagged_ok (bind_ok read (bind_ok params' (bind_ok body'
      (bind_ok captures' rfl))))
  | .ternary i condition thenValue elseValue, n, h, bound => by
    simp only [Expr.portable, Bool.and_eq_true] at h
    refine i.decodes_wrap (fun i => .ternary i condition thenValue elseValue) h.1.1.1 bound
      fun k bound => .variantRecord ["condition", "then_value", "else_value"] rfl rfl rfl
        (by decide) ?_
    rintro body r read ⟨c₁, c₂, c₃, -⟩
    have condition' := c₁.required (condition.decodes k h.1.1.2 bound)
    have then' := c₂.required (thenValue.decodes k h.1.2 bound)
    have else' := c₃.required (elseValue.decodes k h.2 bound)
    exact tagged_ok (bind_ok read (bind_ok condition' (bind_ok then'
      (bind_ok else' rfl))))
  | .cast i value, n, h, bound => by
    simp only [Expr.portable, Bool.and_eq_true] at h
    refine i.decodes_wrap (fun i => .cast i value) h.1 bound fun k bound =>
      .variantRecord ["value"] rfl rfl rfl (by decide) ?_
    rintro body r read ⟨c₁, -⟩
    have value' := c₁.required (value.decodes k h.2 bound)
    exact tagged_ok (bind_ok read (bind_ok value' rfl))
  | .sizeof i ty, n, h, bound => by
    simp only [Expr.portable, Bool.and_eq_true] at h
    refine i.decodes_wrap (fun i => .sizeof i ty) h.1 bound fun k bound =>
      .variant rfl (.mono (ty.decodes maxNesting h.2) bound) fun body read => ?_
    exact tagged_ok (bind_ok read rfl)

theorem exprs_decode : (es : List Expr) → (n : Nat) → exprsPortable es = true →
    n ≤ maxNesting → List.Forall₂ (Decodes forms n (.of .expr) (Decode.expr n)) (exprsJson es) es
  | [], _, _, _ => .nil
  | e :: es, n, h, bound => by
    rw [exprsPortable, Bool.and_eq_true] at h
    exact .cons (e.decodes n h.1 bound) (exprs_decode es n h.2 bound)

theorem inits_decode : (inits : List FieldInit) → (n : Nat) → initsPortable inits = true →
    n ≤ maxNesting →
    List.Forall₂ (Decodes forms n fieldInit (Decode.fieldInit n)) (initsJson inits) inits
  | [], _, _, _ => .nil
  | .mk name value :: rest, n, h, bound => by
    rw [initsPortable, Bool.and_eq_true] at h
    refine .cons ?_ (inits_decode rest n h.2 bound)
    obtain _ | k := n
    · exact .zero
    refine .record ["name", "value"] rfl rfl (by decide) ?_
    rintro j r read ⟨c₁, c₂, -⟩
    have name' := c₁.required (string_decodes name)
    have value' := c₂.required (value.decodes k h.1 (Nat.le_of_succ_le bound))
    exact bind_ok read (bind_ok name' (bind_ok value' rfl))

theorem arms_decode : (arms : List MatchArm) → (n : Nat) → armsPortable arms = true →
    n ≤ maxNesting →
    List.Forall₂ (Decodes forms n matchArm (Decode.matchArm n)) (armsJson arms) arms
  | [], _, _, _ => .nil
  | .mk tag bindings body :: rest, n, h, bound => by
    rw [armsPortable, Bool.and_eq_true] at h
    refine .cons ?_ (arms_decode rest n h.2 bound)
    obtain _ | k := n
    · exact .zero
    refine .record ["variant", "bindings", "body"] rfl rfl (by decide) ?_
    rintro j r read ⟨c₁, c₂, c₃, -⟩
    have tag' : r.nullable "variant" readString = .ok tag :=
      c₁.nullable fun s _ => ⟨by simp, .plain rfl⟩
    have bindings' := c₂.defaulted (names_decode bindings) map_eq_nil
    have body' := c₃.required (body.decodes k h.1 (Nat.le_of_succ_le bound))
    exact bind_ok read (bind_ok tag' (bind_ok bindings' (bind_ok body' rfl)))

theorem Stmt.decodes : (s : Stmt) → (n : Nat) → s.portable = true →
    n ≤ maxNesting → Decodes forms n (.of .stmt) (Decode.stmt n) s.toJson s
  | s, 0, _, _ => by cases s <;> exact .zero
  | .letVar name ty value l, n + 1, h, bound => by
    replace bound := Nat.le_of_succ_le bound
    simp only [Stmt.portable, Bool.and_eq_true] at h
    refine .of (.variantRecord ["name", "ty", "value", "location"] rfl rfl rfl (by decide) ?_)
    rintro body r read ⟨c₁, c₂, c₃, c₄, -⟩
    have name' := c₁.required (string_decodes name)
    have ty' := c₂.required ((ty.decodes maxNesting h.1.1).mono bound)
    have value' := value_carried value n h.1.2 bound c₃
    have l' := locationOf_carries h.2 c₄
    exact tagged_ok (bind_ok read (bind_ok name' (bind_ok ty' (bind_ok value'
      (bind_ok l' rfl)))))
  | .expr e, n + 1, h, bound => by
    replace bound := Nat.le_of_succ_le bound
    refine .of (.variant rfl (e.decodes n h bound) fun body read => ?_)
    exact tagged_ok (bind_ok read rfl)
  | .ret value l, n + 1, h, bound => by
    replace bound := Nat.le_of_succ_le bound
    simp only [Stmt.portable, Bool.and_eq_true] at h
    refine .of (.variantRecord ["value", "location"] rfl rfl rfl (by decide) ?_)
    rintro body r read ⟨c₁, c₂, -⟩
    have value' := value_carried value n h.1 bound c₁
    have l' := locationOf_carries h.2 c₂
    exact tagged_ok (bind_ok read (bind_ok value' (bind_ok l' rfl)))
  | .ifElse condition thenBlock elseBlock l, n + 1, h, bound => by
    replace bound := Nat.le_of_succ_le bound
    simp only [Stmt.portable, Bool.and_eq_true] at h
    refine .of (.variantRecord ["condition", "then_block", "else_block", "location"] rfl rfl rfl
      (by decide) ?_)
    rintro body r read ⟨c₁, c₂, c₃, c₄, -⟩
    have condition' := c₁.required (condition.decodes n h.1.1.1 bound)
    have then' := c₂.required (.list (stmts_decode thenBlock n h.1.1.2 bound))
    have else' := block_carried elseBlock n h.1.2 bound c₃
    have l' := locationOf_carries h.2 c₄
    exact tagged_ok (bind_ok read (bind_ok condition' (bind_ok then'
      (bind_ok else' (bind_ok l' rfl)))))
  | .whileLoop condition body l, n + 1, h, bound => by
    replace bound := Nat.le_of_succ_le bound
    simp only [Stmt.portable, Bool.and_eq_true] at h
    refine .of (.variantRecord ["condition", "body", "location"] rfl rfl rfl (by decide) ?_)
    rintro _ r read ⟨c₁, c₂, c₃, -⟩
    have condition' := c₁.required (condition.decodes n h.1.1 bound)
    have body' := c₂.required (.list (stmts_decode body n h.1.2 bound))
    have l' := locationOf_carries h.2 c₃
    exact tagged_ok (bind_ok read (bind_ok condition' (bind_ok body'
      (bind_ok l' rfl))))
  | .breakLoop l, n + 1, h, _ => by
    refine .of (.variantRecord ["location"] rfl rfl rfl (by decide) ?_)
    rintro body r read ⟨c₁, -⟩
    have l' := locationOf_carries h c₁
    exact tagged_ok (bind_ok read (bind_ok l' rfl))
  | .continueLoop l, n + 1, h, _ => by
    refine .of (.variantRecord ["location"] rfl rfl rfl (by decide) ?_)
    rintro body r read ⟨c₁, -⟩
    have l' := locationOf_carries h c₁
    exact tagged_ok (bind_ok read (bind_ok l' rfl))
  | .switch scrutinee cases default l, n + 1, h, bound => by
    replace bound := Nat.le_of_succ_le bound
    simp only [Stmt.portable, Bool.and_eq_true] at h
    refine .of (.variantRecord ["scrutinee", "cases", "default", "location"] rfl rfl rfl
      (by decide) ?_)
    rintro body r read ⟨c₁, c₂, c₃, c₄, -⟩
    have scrutinee' := c₁.required (scrutinee.decodes n h.1.1.1 bound)
    have cases' := c₂.required (.list (cases_decode cases n h.1.1.2 bound))
    have default' := block_carried default n h.1.2 bound c₃
    have l' := locationOf_carries h.2 c₄
    exact tagged_ok (bind_ok read (bind_ok scrutinee' (bind_ok cases'
      (bind_ok default' (bind_ok l' rfl)))))
  | .block body, n + 1, h, bound => by
    replace bound := Nat.le_of_succ_le bound
    refine .of (.variant rfl (.list (stmts_decode body n h bound)) fun _ read => ?_)
    exact tagged_ok (bind_ok read rfl)

theorem value_carried : (value : Option Expr) → (n : Nat) → valuePortable value = true →
    n ≤ maxNesting → {r : Record} → {name : String} →
    Carries forms n r (name, some .null, .nullable (.of .expr)) (exprOptionJson value) →
    r.nullable name (Decode.expr n) = .ok value
  | none, _, _, _, _, _, c => c.nullable_none
  | some e, n, h, bound, _, _, c => c.nullable_some (e.decodes n h bound) (toJson_ne_null e)

theorem block_carried : (body : Option (List Stmt)) → (n : Nat) → blockPortable body = true →
    n ≤ maxNesting → {r : Record} → {name : String} →
    Carries forms n r (name, some .null, .nullable block) (blockOptionJson body) →
    r.nullable name (readList (Decode.stmt n)) = .ok body
  | none, _, _, _, _, _, c => c.nullable_none
  | some body, n, h, bound, _, _, c =>
    c.nullable_some (.list (stmts_decode body n h bound)) (by simp [blockOptionJson])

theorem stmts_decode : (ss : List Stmt) → (n : Nat) → stmtsPortable ss = true →
    n ≤ maxNesting → List.Forall₂ (Decodes forms n (.of .stmt) (Decode.stmt n)) (stmtsJson ss) ss
  | [], _, _, _ => .nil
  | s :: ss, n, h, bound => by
    rw [stmtsPortable, Bool.and_eq_true] at h
    exact .cons (s.decodes n h.1 bound) (stmts_decode ss n h.2 bound)

theorem cases_decode : (cases : List SwitchCase) → (n : Nat) → casesPortable cases = true →
    n ≤ maxNesting →
    List.Forall₂ (Decodes forms n switchCase (Decode.switchCase n)) (casesJson cases) cases
  | [], _, _, _ => .nil
  | .mk value body :: rest, n, h, bound => by
    simp only [casesPortable, Bool.and_eq_true, decide_eq_true_eq] at h
    refine .cons ?_ (cases_decode rest n h.2 bound)
    obtain _ | k := n
    · exact .zero
    refine .record ["value", "body"] rfl rfl (by decide) ?_
    rintro j r read ⟨c₁, c₂, -⟩
    have value' := c₁.required (.plain (readInt64_int h.1.1.1 h.1.1.2))
    have body' := c₂.required (.list (stmts_decode body k h.1.2 (Nat.le_of_succ_le bound)))
    exact bind_ok read (bind_ok value' (bind_ok body' rfl))

end

/-! ### Declarations -/

theorem FunctionDecl.decodes {f : FunctionDecl} (h : f.portable = true) :
    Decodes forms maxNesting function Decode.function f.toJson f := by
  simp only [FunctionDecl.portable, Bool.and_eq_true] at h
  refine .mono (.record ["name", "generic_params", "params", "return_type", "body", "is_static",
    "location"] rfl rfl (by decide) ?_) maxNesting.le_succ
  rintro j r read ⟨c₁, c₂, c₃, c₄, c₅, c₆, c₇, -⟩
  have name := c₁.required (string_decodes f.name)
  have typeParams := c₂.defaulted (names_decode f.typeParams) map_eq_nil
  have params := c₃.defaulted (fields_decode h.1.1.1) map_eq_nil
  have returnType := c₄.required (f.returnType.decodes maxNesting h.1.1.2)
  have body := c₅.defaulted
    (.list (stmts_decode f.body maxNesting h.1.2 (Nat.le_refl _))) stmtsJson_eq_nil
  have isStatic := c₆.defaulted (bool_decodes f.isStatic) Json.bool.inj
  have place := locationOf_carries h.2 c₇
  exact bind_ok read (bind_ok name (bind_ok typeParams (bind_ok params (bind_ok returnType
    (bind_ok body (bind_ok isStatic (bind_ok place rfl)))))))

theorem methods_decode {fs : List FunctionDecl} (h : ∀ f ∈ fs, f.portable = true) :
    Decodes forms maxNesting (.list function) (readList Decode.function) (jsonMethods fs) fs :=
  decodes_map fun f member => FunctionDecl.decodes (h f member)

theorem StructDecl.decodes {s : StructDecl} (h : s.portable = true) :
    Decodes forms maxNesting struct Decode.struct s.toJson s := by
  simp only [StructDecl.portable, Bool.and_eq_true, List.all_eq_true, Option.all_eq_true] at h
  refine .mono (.record ["name", "generic_params", "parent", "fields", "methods", "location"]
    rfl rfl (by decide) ?_) maxNesting.le_succ
  rintro j r read ⟨c₁, c₂, c₃, c₄, c₅, c₆, -⟩
  have name := c₁.required (string_decodes s.name)
  have typeParams := c₂.defaulted (names_decode s.typeParams) map_eq_nil
  have parent : r.nullable "parent" Decode.type = .ok s.parent := c₃.nullable fun t ht =>
    ⟨toJson_type_ne_null t, t.decodes maxNesting (h.1.1.1 t ht)⟩
  have fields := c₄.defaulted (fields_decode h.1.1.2) map_eq_nil
  have methods := c₅.defaulted (methods_decode h.1.2) map_eq_nil
  have place := locationOf_carries h.2 c₆
  exact bind_ok read (bind_ok name (bind_ok typeParams (bind_ok parent (bind_ok fields
    (bind_ok methods (bind_ok place rfl))))))

theorem Payload.decodes {p : Payload} (h : p.portable = true) :
    Decodes forms maxNesting payload Decode.payload p.toJson p := by
  cases p with
  | tuple ts =>
    have inner := types_decode_all h (Nat.le_refl maxNesting)
    refine .mono (.variant rfl inner fun body read => ?_) maxNesting.le_succ
    exact tagged_ok (bind_ok read rfl)
  | struct fs =>
    refine .mono (.variant rfl (fields_decode h) fun body read => ?_) maxNesting.le_succ
    exact tagged_ok (bind_ok read rfl)

theorem Variant.decodes {w : Variant} (h : ∀ p, w.payload = some p → p.portable = true) :
    Decodes forms maxNesting variant Decode.variant w.toJson w := by
  refine .mono (.record ["name", "payload"] rfl rfl (by decide) ?_) maxNesting.le_succ
  rintro j r read ⟨c₁, c₂, -⟩
  have name := c₁.required (string_decodes w.name)
  have payload := c₂.nullable fun p hp => ⟨toJson_payload_ne_null p, Payload.decodes (h p hp)⟩
  exact bind_ok read (bind_ok name (bind_ok payload rfl))

theorem EnumDecl.decodes {e : EnumDecl} (h : e.portable = true) :
    Decodes forms maxNesting enum Decode.enum e.toJson e := by
  simp only [EnumDecl.portable, Bool.and_eq_true, List.all_eq_true, Option.all_eq_true] at h
  refine .mono (.record ["name", "generic_params", "variants", "methods", "location"]
    rfl rfl (by decide) ?_) maxNesting.le_succ
  rintro j r read ⟨c₁, c₂, c₃, c₄, c₅, -⟩
  have name := c₁.required (string_decodes e.name)
  have typeParams := c₂.defaulted (names_decode e.typeParams) map_eq_nil
  have variants := c₃.required (decodes_map fun w member => Variant.decodes (h.1.1 w member))
  have methods := c₄.defaulted (methods_decode h.1.2) map_eq_nil
  have place := locationOf_carries h.2 c₅
  exact bind_ok read (bind_ok name (bind_ok typeParams (bind_ok variants (bind_ok methods
    (bind_ok place rfl)))))

theorem ExternDecl.decodes {e : ExternDecl} (h : (Decl.external e).portable = true) :
    Decodes forms maxNesting external Decode.external e.toJson e := by
  simp only [Decl.portable, Bool.and_eq_true] at h
  refine .mono (.record ["name", "params", "return_type", "variadic", "location"]
    rfl rfl (by decide) ?_) maxNesting.le_succ
  rintro j r read ⟨c₁, c₂, c₃, c₄, c₅, -⟩
  have name := c₁.required (string_decodes e.name)
  have params := c₂.defaulted (fields_decode h.1.1) map_eq_nil
  have returnType := c₃.required (e.returnType.decodes maxNesting h.1.2)
  have variadic := c₄.defaulted (bool_decodes e.variadic) Json.bool.inj
  have place := locationOf_carries h.2 c₅
  exact bind_ok read (bind_ok name (bind_ok params (bind_ok returnType (bind_ok variadic
    (bind_ok place rfl)))))

theorem AliasDecl.decodes {a : AliasDecl} (h : (Decl.typeAlias a).portable = true) :
    Decodes forms maxNesting typeAlias Decode.typeAlias a.toJson a := by
  simp only [Decl.portable, Bool.and_eq_true] at h
  refine .mono (.record ["name", "generic_params", "target", "location"]
    rfl rfl (by decide) ?_) maxNesting.le_succ
  rintro j r read ⟨c₁, c₂, c₃, c₄, -⟩
  have name := c₁.required (string_decodes a.name)
  have typeParams := c₂.defaulted (names_decode a.typeParams) map_eq_nil
  have target := c₃.required (a.target.decodes maxNesting h.1)
  have place := locationOf_carries h.2 c₄
  exact bind_ok read (bind_ok name (bind_ok typeParams (bind_ok target (bind_ok place rfl))))

theorem Decl.decodes {d : Decl} (h : d.portable = true) :
    Decodes forms maxNesting decl Decode.decl d.toJson d := by
  refine .mono (k := maxNesting) (n := maxNesting + 1) ?_ maxNesting.le_succ
  cases d with
  | struct d =>
    exact .variant rfl (StructDecl.decodes h) fun body read =>
      tagged_ok (bind_ok read rfl)
  | enum d =>
    exact .variant rfl (EnumDecl.decodes h) fun body read =>
      tagged_ok (bind_ok read rfl)
  | function d =>
    exact .variant rfl (FunctionDecl.decodes h) fun body read =>
      tagged_ok (bind_ok read rfl)
  | external d =>
    exact .variant rfl (ExternDecl.decodes h) fun body read =>
      tagged_ok (bind_ok read rfl)
  | typeAlias d =>
    exact .variant rfl (AliasDecl.decodes h) fun body read =>
      tagged_ok (bind_ok read rfl)

theorem Module.decodes {m : Module} (h : m.portable = true) :
    Decodes forms maxNesting module Decode.module m.toJson m := by
  rw [Module.portable, List.all_eq_true] at h
  refine .mono (.record ["name", "decls"] rfl rfl (by decide) ?_) maxNesting.le_succ
  rintro j r read ⟨c₁, c₂, -⟩
  have name := c₁.required (string_decodes m.name)
  have decls := c₂.defaulted (decodes_map fun d member => Decl.decodes (h d member)) map_eq_nil
  exact bind_ok read (bind_ok name (bind_ok decls rfl))

/-- Every text of a variation of the JSON form is read as the module. So is the compact text of the
form, if there are no doubles in it, that is, if no literal is one (`Module.exact_toJson`). -/
theorem Module.parse_variation (m : Module) (h : m.portable = true)
    (deep : m.toJson.nesting ≤ maxNesting) :
    (m.toJson.exact = true → Module.parse m.toJson.render = .ok m) ∧
      ∀ (j : Json) (text : String), Varies forms module m.toJson j → j.Written text.toList →
        Module.parse text = .ok m := by
  have reads : ∀ (j : Json) (text : String), Varies forms module m.toJson j →
      j.Written text.toList → Module.parse text = .ok m := by
    intro j text varied written
    have value := written.parse?
    rw [String.ofList_toList] at value
    simp only [Module.parse, value, Module.ofJson, Decode.limited]
    exact Module.decodes h deep _ (varied.cut maxNesting deep)
  refine ⟨fun exact => reads m.toJson _ .same ?_, reads⟩
  rw [Json.render, String.toList_ofList]
  exact written_text m.toJson exact

/-- A struct with a method. -/
def counterModule : Module where
  name := "m"
  decls := [
    .struct
      { name := "Counter", fields := [⟨"n", .primitive .i32⟩],
        methods := [
          { name := "zero", returnType := .primitive .i32,
            body := [.ret (some (.literal ⟨.primitive .i32, {}⟩ (.int 0))) {}] }] }]

def counterDecls : Json := .array (counterModule.decls.map Decl.toJson)

theorem Module.parse_variation_later :
    Module.parse counterModule.toJson.render = .ok counterModule ∧
      Module.parse ("\x7b \"later\": 1e999,\"decls\":" ++ counterDecls.render ++
        ",\"name\":\"m\"\x7d") = .ok counterModule := by
  have portable : counterModule.portable = true := by decide
  have whole : counterModule.toJson.exact = true := Module.exact_toJson portable (by decide)
  have reads := Module.parse_variation counterModule portable (by decide)
  refine ⟨reads.1 whole, ?_⟩
  have spelled : Spelled [.char 'l', .char 'a', .char 't', .char 'e', .char 'r']
      ['l', 'a', 't', 'e', 'r'] := by
    repeat' constructor
    all_goals decide
  have later : WrittenName (some "later") ([' '] ++ '"' :: (['l', 'a', 't', 'e', 'r'] ++ ['"'])) :=
    .mk (by simp [isBlank]) spelled (by simp)
  have huge : Written (.unreadable "1e999") [' ', '1', 'e', '9', '9', '9'] :=
    .blankBefore rfl (.number (.mk ⟨by simp, by simp⟩ (by simp) .absent
      (.unsigned (.inl rfl) ⟨by simp, by simp⟩) :
        NumeralText ⟨false, [1], [], some (false, [9, 9, 9])⟩ _))
  have decls : counterDecls.Written counterDecls.text := by
    refine written_text counterDecls ?_
    simpa [counterDecls, Module.toJson] using whole
  have written : Written
      (.object [("later", .unreadable "1e999"), ("decls", counterDecls), ("name", .string "m")]) _ :=
    .object (.more later huge (.more (writtenName_quote "decls") decls
      (.last (writtenName_quote "name") (written_string "m"))))
  have varied : Varies forms module counterModule.toJson
      (.object [("later", .unreadable "1e999"), ("decls", counterDecls), ("name", .string "m")]) :=
    .record (.keep .same (.keep .same .nil))
      (show ∀ m ∈ [("later", Json.unreadable "1e999")], _ by simp)
      (((List.Perm.swap _ _ _).cons _).trans (List.perm_append_singleton _ _).symm)
  refine reads.2 _ _ varied ?_
  rw [String.toList_append, String.toList_append, Json.render, String.toList_ofList]
  simpa [show quote "decls" = ['"', 'd', 'e', 'c', 'l', 's', '"'] from rfl,
    show quote "name" = ['"', 'n', 'a', 'm', 'e', '"'] from rfl,
    show quote "m" = ['"', 'm', '"'] from rfl] using written

end Backend
