import Backend.Proofs.Encoding.Shape
import Backend.Proofs.Substitution.Normal

/-!
Types up to spelling. Two types are the same if their canonical forms agree: one name for each
primitive, a string as a pointer to its characters, no points in names and no hints. On types in
which every mark can be told apart (`TypeRef.clear`) the encoding is injective in this sense, since
the type can be read off its shape; in general it is not.
-/

namespace Backend

open Backend.Symbol

def Primitive.canonical : Primitive → TypeRef
  | .string => .pointer (.primitive .i8) 1
  | p => .primitive p

mutual

def TypeRef.canonical : TypeRef → TypeRef
  | .primitive p => p.canonical
  | .pointer inner depth => .pointerTo inner.canonical depth
  | .array inner dims => .array inner.canonical dims
  | .tuple elems => .tuple (canonicalAll elems)
  | .function params ret variadic => .function (canonicalAll params) ret.canonical variadic
  | .named name [] _ =>
    match Primitive.ofName? name with
    | some p => p.canonical
    | none => .named (sanitize name) [] none
  | .named name (arg :: args) _ => .named (sanitize name) (arg.canonical :: canonicalAll args) none

def canonicalAll : List TypeRef → List TypeRef
  | [] => []
  | t :: rest => t.canonical :: canonicalAll rest

end

/-! ### Reading a type off its shape -/

mutual

/-- The type without marks that a shape ends in, and its marks; nothing if a function comes
first. -/
def Shape.last : Shape → Option (Head × List Mark)
  | .leaf head marks => some (head, marks)
  | .tuple first [] => first.last
  | .tuple _ (s :: rest) => lastOf (s :: rest)
  | .function _ _ => none

def lastOf : List Shape → Option (Head × List Mark)
  | [] => none
  | [s] => s.last
  | _ :: next :: rest => lastOf (next :: rest)

end

def addMark (t : TypeRef) : Mark → TypeRef
  | .ptr => .pointerTo t 1
  | .arr d =>
    match t with
    | .array inner dims => .array inner (dims ++ [d])
    | t => .array t [d]
  | .va => t

def Shape.endsVariadic (s : Shape) : Bool := s.last.any fun l => l.2.getLast? = some .va

mutual

def Head.type : Head → TypeRef
  | .primitive p => .primitive p
  | .unit => .tuple []
  | .name clean args => .named clean (shapeTypes args) none

def Shape.type : Shape → TypeRef
  | .leaf head marks => marks.foldl addMark head.type
  | .tuple first rest => .tuple (first.type :: shapeTypes rest)
  | .function params ret => .function (shapeTypes params) ret.type ret.endsVariadic

def shapeTypes : List Shape → List TypeRef
  | [] => []
  | s :: rest => s.type :: shapeTypes rest

end

/-- A wrapper of this type would be taken for one of its last part. -/
def TypeRef.endsInType : TypeRef → Bool
  | .tuple elems => !elems.isEmpty
  | .function .. => true
  | _ => false

mutual

/-- Wrappers are merged and none is empty, no wrapper stands on a tuple with elements or on a
function, and no variadic function has a result that ends in another function. -/
def TypeRef.clear : TypeRef → Bool
  | .primitive _ => true
  | .pointer inner depth => depth ≠ 0 && !inner.isPointer && !inner.endsInType && inner.clear
  | .array inner dims => !dims.isEmpty && !inner.isArray && !inner.endsInType && inner.clear
  | .tuple elems => allClear elems
  | .function params ret variadic =>
    allClear params && ret.clear && !(variadic && ret.shape.last.isNone)
  | .named _ args _ => allClear args

def allClear : List TypeRef → Bool
  | [] => true
  | t :: rest => t.clear && allClear rest

end

/-! ### Marks at the end of a shape -/

mutual

theorem Shape.mark_nil : (s : Shape) → s.mark [] = s
  | .leaf head before => by rw [Shape.mark, List.append_nil]
  | .tuple first [] => by rw [Shape.mark, first.mark_nil]
  | .tuple first (s :: rest) => by rw [Shape.mark, markLast_nil (s :: rest)]
  | .function params ret => by rw [Shape.mark, ret.mark_nil]

theorem markLast_nil : (shapes : List Shape) → markLast [] shapes = shapes
  | [] => rfl
  | [s] => by rw [markLast, s.mark_nil]
  | s :: next :: rest => by rw [markLast, markLast_nil (next :: rest)]

end

theorem Shape.last_tuple (first : Shape) {shapes : List Shape} (h : shapes ≠ []) :
    (Shape.tuple first shapes).last = lastOf shapes := by
  cases shapes with
  | nil => exact (h rfl).elim
  | cons s rest => rw [Shape.last]

theorem lastOf_cons (s : Shape) {shapes : List Shape} (h : shapes ≠ []) :
    lastOf (s :: shapes) = lastOf shapes := by
  cases shapes with
  | nil => exact (h rfl).elim
  | cons next rest => rw [lastOf]

theorem markLast_ne_nil (marks : List Mark) {shapes : List Shape} (h : shapes ≠ []) :
    markLast marks shapes ≠ [] := by
  intro empty
  have length := length_markLast marks shapes
  rw [empty] at length
  exact h (List.eq_nil_of_length_eq_zero length.symm)

mutual

theorem Shape.last_mark (marks : List Mark) : (s : Shape) →
    (s.mark marks).last = s.last.map fun l => (l.1, l.2 ++ marks)
  | .leaf head before => by rw [Shape.mark, Shape.last, Shape.last, Option.map_some]
  | .tuple first [] => by rw [Shape.mark, Shape.last, Shape.last, first.last_mark marks]
  | .tuple first (s :: rest) => by
    rw [Shape.mark, Shape.last_tuple _ (markLast_ne_nil marks (List.cons_ne_nil _ _)), Shape.last,
      lastOf_mark marks (s :: rest)]
  | .function params ret => by rw [Shape.mark, Shape.last, Shape.last, Option.map_none]

theorem lastOf_mark (marks : List Mark) : (shapes : List Shape) →
    lastOf (markLast marks shapes) = (lastOf shapes).map fun l => (l.1, l.2 ++ marks)
  | [] => rfl
  | [s] => by rw [markLast, lastOf, lastOf, s.last_mark marks]
  | s :: next :: rest => by
    rw [markLast, lastOf_cons _ (markLast_ne_nil marks (List.cons_ne_nil _ _)), lastOf,
      lastOf_mark marks (next :: rest)]

end

mutual

theorem Shape.type_mark_va : (s : Shape) → s.last ≠ none → (s.mark [.va]).type = s.type
  | .leaf head before, _ => by rw [Shape.mark, Shape.type, List.foldl_append]; rfl
  | .tuple first [], h => by
    rw [Shape.mark, Shape.type, Shape.type, first.type_mark_va (by rwa [Shape.last] at h)]
  | .tuple first (s :: rest), h => by
    rw [Shape.mark, Shape.type, Shape.type, types_markLast_va (s :: rest) (by rwa [Shape.last] at h)]
  | .function params ret, h => by rw [Shape.last] at h; exact (h rfl).elim

theorem types_markLast_va : (shapes : List Shape) → lastOf shapes ≠ none →
    shapeTypes (markLast [.va] shapes) = shapeTypes shapes
  | [], _ => rfl
  | [s], h => by
    rw [markLast, shapeTypes, s.type_mark_va (by rwa [lastOf] at h), shapeTypes.eq_2 s]
  | s :: next :: rest, h => by
    rw [markLast, shapeTypes, types_markLast_va (next :: rest) (by rwa [lastOf] at h),
      shapeTypes.eq_2 s]

end

theorem typeShapes_ne_nil (t : TypeRef) (rest : List TypeRef) : typeShapes (t :: rest) ≠ [] := by
  rw [typeShapes]
  exact List.cons_ne_nil _ _

theorem Primitive.last_shape (p : Primitive) : p.shape.endsVariadic = false := by
  cases p <;> rfl

theorem endsVariadic_mark {s : Shape} {marks : List Mark} {m : Mark} (h : marks.getLast? = some m)
    (other : m ≠ .va) : (s.mark marks).endsVariadic = false := by
  rw [Shape.endsVariadic, Shape.last_mark]
  cases s.last with
  | none => rfl
  | some l => simp [h, other]

mutual

theorem TypeRef.endsVariadic_shape : (t : TypeRef) → t.clear = true → t.shape.endsVariadic = false
  | .primitive p, _ => p.last_shape
  | .pointer inner depth, h => by
    simp only [TypeRef.clear, Bool.and_eq_true, decide_eq_true_eq] at h
    have last : (List.replicate depth Mark.ptr).getLast? = some .ptr := by
      simp [List.getLast?_replicate, h.1.1.1]
    exact endsVariadic_mark last nofun
  | .array inner dims, h => by
    simp only [TypeRef.clear, Bool.and_eq_true, Bool.not_eq_true', List.isEmpty_eq_false_iff] at h
    have last : (dims.map Mark.arr).getLast? = some (.arr (dims.getLast h.1.1.1)) := by
      rw [List.getLast?_map, List.getLast?_eq_some_getLast h.1.1.1, Option.map_some]
    exact endsVariadic_mark last nofun
  | .tuple [], _ => rfl
  | .tuple [elem], h => by
    rw [TypeRef.clear, allClear, Bool.and_eq_true] at h
    exact elem.endsVariadic_shape h.1
  | .tuple (elem :: next :: elems), h => by
    rw [TypeRef.clear, allClear, Bool.and_eq_true] at h
    rw [TypeRef.shape, Shape.endsVariadic, Shape.last_tuple _ (typeShapes_ne_nil _ _)]
    exact endsVariadic_lastOf (next :: elems) h.2
  | .function params ret variadic, _ => by
    rw [TypeRef.shape, Shape.endsVariadic, Shape.last]
    rfl
  | .named name [] hint, _ => by
    rw [TypeRef.shape]
    split
    · exact Primitive.last_shape _
    · rfl
  | .named name (arg :: args) hint, _ => by
    rw [TypeRef.shape]
    rfl

theorem endsVariadic_lastOf : (ts : List TypeRef) → allClear ts = true →
    ((lastOf (typeShapes ts)).any fun l => l.2.getLast? = some .va) = false
  | [], _ => rfl
  | [t], h => by
    rw [allClear, Bool.and_eq_true] at h
    exact t.endsVariadic_shape h.1
  | t :: next :: rest, h => by
    rw [allClear, Bool.and_eq_true] at h
    rw [typeShapes, lastOf_cons _ (typeShapes_ne_nil _ _)]
    exact endsVariadic_lastOf (next :: rest) h.2

end

/-! ### A clear type is read off its shape -/

theorem foldl_addMark_ptr (t : TypeRef) (depth : Nat) :
    (List.replicate depth Mark.ptr).foldl addMark t = .pointerTo t depth := by
  induction depth generalizing t with
  | zero => rfl
  | succ depth ih =>
    rw [List.replicate_succ, List.foldl_cons, ih, addMark, TypeRef.pointerTo_pointerTo, Nat.add_comm]

theorem foldl_addMark_array (t : TypeRef) (before dims : List Nat) :
    (dims.map Mark.arr).foldl addMark (.array t before) = .array t (before ++ dims) := by
  induction dims generalizing before with
  | nil => rw [List.append_nil]; rfl
  | cons d dims ih =>
    rw [List.map_cons, List.foldl_cons, addMark, ih, List.append_assoc, List.singleton_append]

theorem foldl_addMark_arr {t : TypeRef} (h : t.isArray = false) {dims : List Nat}
    (nonempty : dims ≠ []) : (dims.map Mark.arr).foldl addMark t = .array t dims := by
  cases dims with
  | nil => exact (nonempty rfl).elim
  | cons d dims =>
    have first : addMark t (.arr d) = .array t [d] := by
      cases t with
      | array => cases h
      | _ => rfl
    rw [List.map_cons, List.foldl_cons, first, foldl_addMark_array, List.singleton_append]

theorem TypeRef.shape_leaf : (t : TypeRef) → t.clear = true → t.endsInType = false →
    ∃ head marks, t.shape = .leaf head marks
  | .primitive p, _, _ => by cases p <;> exact ⟨_, _, rfl⟩
  | .pointer inner depth, h, _ => by
    simp only [TypeRef.clear, Bool.and_eq_true, Bool.not_eq_true'] at h
    obtain ⟨head, marks, same⟩ := inner.shape_leaf h.2 h.1.2
    exact ⟨_, _, by rw [TypeRef.shape, same, Shape.mark]⟩
  | .array inner dims, h, _ => by
    simp only [TypeRef.clear, Bool.and_eq_true, Bool.not_eq_true'] at h
    obtain ⟨head, marks, same⟩ := inner.shape_leaf h.2 h.1.2
    exact ⟨_, _, by rw [TypeRef.shape, same, Shape.mark]⟩
  | .tuple [], _, _ => ⟨_, _, rfl⟩
  | .tuple (_ :: _), _, ends => by cases ends
  | .function .., _, ends => by cases ends
  | .named name [] hint, _, _ => by
    rw [TypeRef.shape]
    split
    · rename_i p _
      cases p <;> exact ⟨_, _, rfl⟩
    · exact ⟨_, _, rfl⟩
  | .named name (arg :: args) hint, _, _ => ⟨_, _, by rw [TypeRef.shape]⟩

theorem TypeRef.type_mark {t : TypeRef} (clear : t.clear = true) (ends : t.endsInType = false)
    (marks : List Mark) : (t.shape.mark marks).type = marks.foldl addMark t.shape.type := by
  obtain ⟨head, before, same⟩ := t.shape_leaf clear ends
  rw [same, Shape.mark, Shape.type, Shape.type, List.foldl_append]

theorem Primitive.type_shape (p : Primitive) : p.shape.type = p.canonical := by
  cases p <;> rfl

theorem TypeRef.isArray_canonical {t : TypeRef} (clear : t.clear = true) (h : t.isArray = false) :
    t.canonical.isArray = false := by
  have primitive (p : Primitive) : p.canonical.isArray = false := by cases p <;> rfl
  cases t with
  | primitive p => exact primitive p
  | pointer inner depth =>
    simp only [TypeRef.clear, Bool.and_eq_true, decide_eq_true_eq] at clear
    rw [TypeRef.canonical]
    unfold pointerTo
    rw [if_neg clear.1.1.1]
    split <;> rfl
  | array => cases h
  | tuple => rfl
  | function => rfl
  | named name args hint =>
    cases args with
    | nil =>
      rw [TypeRef.canonical]
      split
      · exact primitive _
      · rfl
    | cons arg args => rfl

mutual

theorem TypeRef.type_shape : (t : TypeRef) → t.clear = true → t.shape.type = t.canonical
  | .primitive p, _ => p.type_shape
  | .pointer inner depth, h => by
    simp only [TypeRef.clear, Bool.and_eq_true, Bool.not_eq_true'] at h
    rw [TypeRef.shape, TypeRef.type_mark h.2 h.1.2, foldl_addMark_ptr, inner.type_shape h.2,
      TypeRef.canonical]
  | .array inner dims, h => by
    simp only [TypeRef.clear, Bool.and_eq_true, Bool.not_eq_true', List.isEmpty_eq_false_iff] at h
    have notArray := TypeRef.isArray_canonical h.2 h.1.1.2
    rw [TypeRef.shape, TypeRef.type_mark h.2 h.1.2, inner.type_shape h.2,
      foldl_addMark_arr notArray h.1.1.1, TypeRef.canonical]
  | .tuple [], _ => rfl
  | .tuple (elem :: elems), h => by
    rw [TypeRef.clear, allClear, Bool.and_eq_true] at h
    rw [TypeRef.shape, Shape.type, elem.type_shape h.1, types_typeShapes elems h.2,
      TypeRef.canonical, canonicalAll]
  | .function params ret variadic, h => by
    simp only [TypeRef.clear, Bool.and_eq_true, Bool.not_eq_true', Bool.and_eq_false_iff] at h
    obtain ⟨⟨hp, hr⟩, alone⟩ := h
    rw [TypeRef.shape, Shape.type, types_typeShapes params hp, TypeRef.canonical]
    cases variadic with
    | false =>
      have plain := Shape.mark_nil ret.shape
      have ends := ret.endsVariadic_shape hr
      simp only [Bool.false_eq_true, if_false, plain, ends, ret.type_shape hr]
    | true =>
      obtain ⟨l, last⟩ : ∃ l, ret.shape.last = some l := by
        simpa [Option.isNone_eq_false_iff, Option.isSome_iff_exists] using alone
      have ends : (ret.shape.mark [.va]).endsVariadic = true := by
        simp [Shape.endsVariadic, Shape.last_mark, last]
      have plain := Shape.type_mark_va ret.shape (by rw [last]; exact Option.some_ne_none l)
      simp only [if_true, ends, plain, ret.type_shape hr]
  | .named name [] hint, _ => by
    rw [TypeRef.shape, TypeRef.canonical]
    cases Primitive.ofName? name with
    | some p => exact p.type_shape
    | none => rfl
  | .named name (arg :: args) hint, h => by
    rw [TypeRef.clear, allClear, Bool.and_eq_true] at h
    rw [TypeRef.shape, Shape.type, List.foldl_nil, Head.type, shapeTypes, arg.type_shape h.1,
      types_typeShapes args h.2, TypeRef.canonical]

theorem types_typeShapes : (ts : List TypeRef) → allClear ts = true →
    shapeTypes (typeShapes ts) = canonicalAll ts
  | [], _ => rfl
  | t :: rest, h => by
    rw [allClear, Bool.and_eq_true] at h
    rw [typeShapes, shapeTypes, t.type_shape h.1, types_typeShapes rest h.2, canonicalAll]

end

/-! ### The canonical form has the same shape -/

mutual

theorem Shape.mark_mark (first second : List Mark) :
    (s : Shape) → (s.mark first).mark second = s.mark (first ++ second)
  | .leaf head before => by rw [Shape.mark, Shape.mark, Shape.mark, List.append_assoc]
  | .tuple head [] => by rw [Shape.mark, Shape.mark, Shape.mark, head.mark_mark first second]
  | .tuple head (s :: rest) => by
    obtain ⟨t, ts, same⟩ := List.exists_cons_of_ne_nil (markLast_ne_nil first (List.cons_ne_nil s rest))
    rw [Shape.mark, same, Shape.mark, ← same, markLast_markLast first second (s :: rest), Shape.mark]
  | .function params ret => by rw [Shape.mark, Shape.mark, Shape.mark, ret.mark_mark first second]

theorem markLast_markLast (first second : List Mark) : (shapes : List Shape) →
    markLast second (markLast first shapes) = markLast (first ++ second) shapes
  | [] => rfl
  | [s] => by rw [markLast, markLast, markLast, s.mark_mark first second]
  | s :: next :: rest => by
    obtain ⟨t, ts, same⟩ :=
      List.exists_cons_of_ne_nil (markLast_ne_nil first (List.cons_ne_nil next rest))
    rw [markLast, same, markLast, ← same, markLast_markLast first second (next :: rest), markLast]

end

theorem TypeRef.shape_pointerTo (t : TypeRef) (depth : Nat) :
    (pointerTo t depth).shape = t.shape.mark (List.replicate depth .ptr) := by
  cases depth with
  | zero => exact (Shape.mark_nil t.shape).symm
  | succ depth =>
    cases t with
    | pointer inner d =>
      rw [pointerTo_pointer, TypeRef.shape, TypeRef.shape, Shape.mark_mark, List.replicate_append_replicate]
    | _ => rfl

theorem Primitive.shape_canonical (p : Primitive) : p.canonical.shape = p.shape := by
  cases p <;> rfl

theorem underscore_notMem_primitive {name : String} {p : Primitive}
    (h : Primitive.ofName? name = some p) : '_' ∉ name.toList := by
  unfold Primitive.ofName? at h
  split at h <;> first | decide | cases h

theorem toList_sanitize (name : String) :
    (sanitize name).toList = name.toList.map fun c => if c = '.' then '_' else c := by
  rw [sanitize, String.toList_ofList]

theorem sanitize_sanitize (name : String) : sanitize (sanitize name) = sanitize name := by
  apply String.toList_injective
  rw [toList_sanitize, toList_sanitize, List.map_map]
  refine List.map_congr_left fun c _ => ?_
  by_cases point : c = '.'
  · simp [point]
  · simp [point]

theorem ofName?_sanitize {name : String} (h : Primitive.ofName? name = none) :
    Primitive.ofName? (sanitize name) = none := by
  rw [Option.eq_none_iff_forall_ne_some]
  intro p found
  have plain := underscore_notMem_primitive found
  have same : sanitize name = name := by
    apply String.toList_injective
    rw [toList_sanitize] at plain ⊢
    refine (List.map_congr_left fun c member => ?_).trans (List.map_id _)
    by_cases point : c = '.'
    · exact (plain (List.mem_map.mpr ⟨c, member, if_pos point⟩)).elim
    · exact if_neg point
  rw [same, h] at found
  cases found

mutual

theorem TypeRef.shape_canonical : (t : TypeRef) → t.canonical.shape = t.shape
  | .primitive p => p.shape_canonical
  | .pointer inner depth => by
    rw [TypeRef.canonical, TypeRef.shape_pointerTo, inner.shape_canonical, TypeRef.shape]
  | .array inner dims => by rw [TypeRef.canonical, TypeRef.shape, inner.shape_canonical, TypeRef.shape]
  | .tuple [] => rfl
  | .tuple (elem :: elems) => by
    rw [TypeRef.canonical, canonicalAll, TypeRef.shape, elem.shape_canonical,
      shapes_canonicalAll elems, TypeRef.shape]
  | .function params ret variadic => by
    rw [TypeRef.canonical, TypeRef.shape, shapes_canonicalAll params, ret.shape_canonical,
      TypeRef.shape]
  | .named name [] hint => by
    rw [TypeRef.canonical, TypeRef.shape]
    cases prim : Primitive.ofName? name with
    | some p => exact p.shape_canonical
    | none =>
      change (TypeRef.named (sanitize name) [] none).shape = _
      rw [TypeRef.shape, ofName?_sanitize prim, sanitize_sanitize]
  | .named name (arg :: args) hint => by
    rw [TypeRef.canonical, TypeRef.shape, arg.shape_canonical, shapes_canonicalAll args,
      sanitize_sanitize, TypeRef.shape]

theorem shapes_canonicalAll : (ts : List TypeRef) → typeShapes (canonicalAll ts) = typeShapes ts
  | [] => rfl
  | t :: rest => by
    rw [canonicalAll, typeShapes, t.shape_canonical, shapes_canonicalAll rest, typeShapes]

end

theorem TypeRef.shape_eq_iff_canonical {t u : TypeRef} (ht : t.clear = true) (hu : u.clear = true) :
    t.shape = u.shape ↔ t.canonical = u.canonical := by
  constructor
  · intro same
    rw [← t.type_shape ht, ← u.type_shape hu, same]
  · intro same
    rw [← t.shape_canonical, ← u.shape_canonical, same]

/-- Two types share an encoding exactly if they have the same shape, and clear types only if they
are the same up to spelling. -/
theorem AliasTable.encode_eq_iff (aliases : AliasTable) (t u : TypeRef)
    (ht : t.readable aliases = true) (hu : u.readable aliases = true) :
    (aliases.encode t = aliases.encode u ↔ t.shape = u.shape) ∧
      (t.clear = true → u.clear = true →
        (aliases.encode t = aliases.encode u ↔ t.canonical = u.canonical)) := by
  have exact_shape := AliasTable.encode_eq_iff_shape ht hu
  refine ⟨exact_shape, fun clearT clearU => ?_⟩
  rw [exact_shape, TypeRef.shape_eq_iff_canonical clearT clearU]

def pairPointers (first second : String) : TypeRef :=
  .array (.pointer (.named "Pair" [.ofName first, .ofName second] none) 1) [2]

theorem AliasTable.encode_eq_iff_pairPointers :
    AliasTable.encode {} (pairPointers "int" "geo.Point") =
        AliasTable.encode {} (pairPointers "i32" "geo_Point") ∧
      (pairPointers "int" "geo.Point").shape = (pairPointers "i32" "geo_Point").shape ∧
      (pairPointers "int" "geo.Point").canonical = (pairPointers "i32" "geo_Point").canonical := by
  obtain ⟨shape, canonical⟩ := AliasTable.encode_eq_iff {} (pairPointers "int" "geo.Point")
    (pairPointers "i32" "geo_Point") (by decide) (by decide)
  have same : AliasTable.encode {} (pairPointers "int" "geo.Point") =
      AliasTable.encode {} (pairPointers "i32" "geo_Point") := by decide +kernel
  exact ⟨same, shape.mp same, (canonical (by decide) (by decide)).mp same⟩

def Collide (t u : TypeRef) : Prop :=
  AliasTable.encode {} t = AliasTable.encode {} u ∧ t.canonical ≠ u.canonical

/-- A pointer to a tuple is taken for a tuple that ends in a pointer, a variadic function for one
that returns a variadic function, and a name that begins with a digit runs into its length. -/
theorem AliasTable.encode_not_injective :
    Collide (.pointer (.tuple [.i32]) 1) (.tuple [.pointer .i32 1]) ∧
      Collide (.function [] (.function [] .i32 false) true)
        (.function [] (.function [] .i32 true) false) ∧
      Collide (.tuple [.ofName "1a", .ofName "ccccccccccccccccc_b"])
        (.tuple [.ofName "a_19ccccccccccccccccc", .ofName "b"]) := by
  refine ⟨⟨by decide +kernel, nofun⟩, ⟨by decide +kernel, nofun⟩, by decide +kernel, ?_⟩
  intro same
  have names := (TypeRef.named.inj (List.cons.inj (TypeRef.tuple.inj same)).1).1
  exact absurd names (by decide +kernel)

end Backend
