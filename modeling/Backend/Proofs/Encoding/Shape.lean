import Backend.Proofs.Encoding.Token

/-!
What the encoding of a type tells about it. A suffix behind a tuple or a function cannot be told
from one behind its last part, so in a `Shape` the marks stand at the innermost type that they
follow. Main statement: two types have the same encoding exactly if they have the same shape.
-/

namespace Backend

mutual

/-- A type without marks that does not end in another type. -/
inductive Head where
  | primitive (p : Primitive)
  | unit
  | name (clean : String) (args : List Shape)

inductive Shape where
  | leaf (head : Head) (marks : List Mark)
  | tuple (first : Shape) (rest : List Shape)
  | function (params : List Shape) (ret : Shape)

end

mutual

def Head.tokens : Head → List Token
  | .primitive p => [.primitive p]
  | .unit => [.tuple 0]
  | .name clean [] => [.name clean]
  | .name clean (arg :: args) =>
    .name clean :: .opening :: (arg.tokens ++ shapesTokens args ++ [.closing])

def Shape.tokens : Shape → List Token
  | .leaf head marks => head.tokens ++ marks.map .mark
  | .tuple first rest => .tuple (rest.length + 1) :: (first.tokens ++ shapesTokens rest)
  | .function params ret => .function params.length :: (shapesTokens params ++ .ret :: ret.tokens)

def shapesTokens : List Shape → List Token
  | [] => []
  | s :: rest => s.tokens ++ shapesTokens rest

end

mutual

def Shape.mark (marks : List Mark) : Shape → Shape
  | .leaf head before => .leaf head (before ++ marks)
  | .tuple first [] => .tuple (first.mark marks) []
  | .tuple first (s :: rest) => .tuple first (markLast marks (s :: rest))
  | .function params ret => .function params (ret.mark marks)

def markLast (marks : List Mark) : List Shape → List Shape
  | [] => []
  | [s] => [s.mark marks]
  | s :: next :: rest => s :: markLast marks (next :: rest)

end

theorem length_markLast (marks : List Mark) :
    (shapes : List Shape) → (markLast marks shapes).length = shapes.length
  | [] => rfl
  | [_] => rfl
  | _ :: next :: rest => congrArg (· + 1) (length_markLast marks (next :: rest))

mutual

theorem Shape.tokens_mark (marks : List Mark) :
    (s : Shape) → (s.mark marks).tokens = s.tokens ++ marks.map .mark
  | .leaf head before => by simp [Shape.mark, Shape.tokens]
  | .tuple first [] => by
    simp [Shape.mark, Shape.tokens, shapesTokens, first.tokens_mark marks]
  | .tuple first (s :: rest) => by
    simp [Shape.mark, Shape.tokens, length_markLast, tokens_markLast marks (s :: rest)]
  | .function params ret => by simp [Shape.mark, Shape.tokens, ret.tokens_mark marks]

theorem tokens_markLast (marks : List Mark) : (shapes : List Shape) → shapes ≠ [] →
    shapesTokens (markLast marks shapes) = shapesTokens shapes ++ marks.map .mark
  | [], nonempty => (nonempty rfl).elim
  | [s], _ => by simp [markLast, shapesTokens, s.tokens_mark marks]
  | s :: next :: rest, _ => by
    have later := tokens_markLast marks (next :: rest) (List.cons_ne_nil _ _)
    rw [markLast, shapesTokens, later, shapesTokens.eq_2 s, List.append_assoc]

end

/-! ### The shape of a type -/

def Primitive.shape : Primitive → Shape
  | .string => .leaf (.primitive .i8) [.ptr]
  | p => .leaf (.primitive p) []

mutual

def TypeRef.shape : TypeRef → Shape
  | .primitive p => p.shape
  | .pointer inner depth => inner.shape.mark (List.replicate depth .ptr)
  | .array inner dims => inner.shape.mark (dims.map .arr)
  | .tuple [] => .leaf .unit []
  | .tuple (elem :: elems) => .tuple elem.shape (typeShapes elems)
  | .function params ret variadic =>
    .function (typeShapes params) (ret.shape.mark (if variadic then [.va] else []))
  | .named name [] _ =>
    match Primitive.ofName? name with
    | some p => p.shape
    | none => .leaf (.name (Symbol.sanitize name) []) []
  | .named name (arg :: args) _ =>
    .leaf (.name (Symbol.sanitize name) (arg.shape :: typeShapes args)) []

def typeShapes : List TypeRef → List Shape
  | [] => []
  | t :: rest => t.shape :: typeShapes rest

end

/-! ### The encoding spells the shape -/

open Backend.Symbol

theorem joined_cons (part : String) (parts : List String) :
    joined (part :: parts) = "_" ++ part ++ joined parts := by
  apply String.toList_injective
  simp [joined, String.join_eq, String.toList_append]

theorem spell_cons_eq (t : Token) (ts : List Token) : Token.spell (t :: ts) = "_" ++ t.text ++ Token.spell ts :=
  joined_cons t.text (ts.map Token.text)

theorem spell_append (ts us : List Token) : Token.spell (ts ++ us) = Token.spell ts ++ Token.spell us := by
  induction ts with
  | nil => exact (String.empty_append).symm
  | cons t ts ih =>
    rw [List.cons_append, spell_cons_eq, spell_cons_eq, ih, ← String.append_assoc]

theorem spell_pointers (depth : Nat) :
    Token.spell ((List.replicate depth Mark.ptr).map .mark) = repeated depth "_ptr" := by
  have text : "_" ++ (Token.mark .ptr).text = "_ptr" := rfl
  simp [Token.spell, joined, repeated, text]

theorem spell_lengths (dims : List Nat) :
    Token.spell ((dims.map Mark.arr).map .mark) = String.join (dims.map fun d => s!"_arr_{d}_") := by
  have text (d : Nat) : "_" ++ (Token.mark (.arr d)).text = s!"_arr_{d}_" := by
    change "_" ++ ("arr_" ++ d.repr ++ "_") = "_arr_" ++ d.repr ++ "_"
    rw [← String.append_assoc, ← String.append_assoc]
    rfl
  simp [Token.spell, joined, Function.comp_def, text]

theorem Primitive.spell_shape (p : Primitive) : Token.spell p.shape.tokens = "_" ++ primitiveToken p := by
  cases p <;> rfl

theorem nameToken_eq (name : String) : nameToken name = (Token.name (sanitize name)).text := rfl

mutual

/-- No name in the type stands for another type, and none begins with a digit. -/
def TypeRef.readable (aliases : AliasTable) : TypeRef → Bool
  | .primitive _ => true
  | .pointer inner _ => inner.readable aliases
  | .array inner _ => inner.readable aliases
  | .tuple elems => allReadable aliases elems
  | .function params ret _ => allReadable aliases params && ret.readable aliases
  | .named name [] _ =>
    (Primitive.ofName? name).isSome || readableName aliases name
  | .named name (arg :: args) _ =>
    readableName aliases name && arg.readable aliases && allReadable aliases args
where
  readableName (aliases : AliasTable) (name : String) : Bool :=
    !aliases.contains name && !(sanitize name).toList.head?.any isAsciiDigit

def allReadable (aliases : AliasTable) : List TypeRef → Bool
  | [] => true
  | t :: rest => t.readable aliases && allReadable aliases rest

end

theorem AliasTable.expand?_eq_none {aliases : AliasTable} {name : String}
    (h : aliases.contains name = false) (args : List TypeRef) : aliases.expand? name args = none := by
  rw [Table.contains, Option.isSome_eq_false_iff, Option.isNone_iff_eq_none] at h
  rw [expand?, h, Option.map_none]

theorem length_typeShapes (ts : List TypeRef) : (typeShapes ts).length = ts.length := by
  induction ts with
  | nil => rfl
  | cons _ _ ih => exact congrArg (· + 1) ih

variable {aliases : AliasTable} {enc : TypeRef → String}

mutual

theorem TypeRef.spell_shape : (t : TypeRef) → t.readable aliases = true →
    "_" ++ encodeWith aliases.expand? enc t = Token.spell t.shape.tokens
  | .primitive p, _ => p.spell_shape.symm
  | .pointer inner depth, h => by
    rw [encodeWith, TypeRef.shape, Shape.tokens_mark, spell_append, spell_pointers,
      ← inner.spell_shape h, String.append_assoc]
  | .array inner dims, h => by
    rw [encodeWith, TypeRef.shape, Shape.tokens_mark, spell_append, spell_lengths,
      ← inner.spell_shape h, String.append_assoc]
  | .tuple [], _ => rfl
  | .tuple (elem :: elems), h => by
    obtain ⟨first, others⟩ := Bool.and_eq_true_iff.mp h
    rw [encodeWith, encodeAll, joined_cons, elem.spell_shape first, spell_shapes elems others,
      TypeRef.shape, Shape.tokens, spell_cons_eq, spell_append, length_typeShapes,
      String.append_assoc]
    rfl
  | .function params ret variadic, h => by
    obtain ⟨hp, hr⟩ := Bool.and_eq_true_iff.mp h
    have marks : Token.spell ((if variadic then [Mark.va] else []).map .mark) =
        if variadic then "_va" else "" := by
      cases variadic <;> rfl
    rw [TypeRef.shape, Shape.tokens, spell_cons_eq, spell_append, spell_cons_eq, Shape.tokens_mark,
      spell_append, marks, ← ret.spell_shape hr, ← spell_shapes params hp, length_typeShapes,
      encodeWith]
    simp only [String.append_assoc]
    rfl
  | .named name [] hint, h => by
    rw [encodeWith, TypeRef.shape]
    cases prim : Primitive.ofName? name with
    | some p => exact p.spell_shape.symm
    | none =>
      rw [TypeRef.readable, prim] at h
      have notAlias : aliases.contains name = false := by
        simpa using (Bool.and_eq_true_iff.mp h).1
      rw [AliasTable.expand?_eq_none notAlias]
      rfl
  | .named name (arg :: args) hint, h => by
    obtain ⟨h, others⟩ := Bool.and_eq_true_iff.mp h
    obtain ⟨own, first⟩ := Bool.and_eq_true_iff.mp h
    have notAlias : aliases.contains name = false := by
      simpa using (Bool.and_eq_true_iff.mp own).1
    rw [encodeWith, AliasTable.expand?_eq_none notAlias, TypeRef.shape, Shape.tokens, Head.tokens,
      List.map_nil, List.append_nil, spell_cons_eq, spell_cons_eq, spell_append, spell_append,
      ← arg.spell_shape first, ← spell_shapes args others]
    simp only [joined_cons, nameToken_eq, String.append_assoc]
    rfl

theorem spell_shapes : (ts : List TypeRef) → allReadable aliases ts = true →
    joined (encodeAll aliases.expand? enc ts) = Token.spell (shapesTokens (typeShapes ts))
  | [], _ => rfl
  | t :: rest, h => by
    obtain ⟨first, others⟩ := Bool.and_eq_true_iff.mp h
    rw [encodeAll, joined_cons, typeShapes, shapesTokens, spell_append, t.spell_shape first,
      spell_shapes rest others]

end

/-! ### Its tokens can be read -/

theorem Primitive.readable_shape (p : Primitive) : ∀ token ∈ p.shape.tokens, token.Readable := by
  cases p <;> simp [Primitive.shape, Shape.tokens, Head.tokens, Token.Readable]

theorem readable_name {name : String} (h : TypeRef.readable.readableName aliases name = true) :
    (Token.name (sanitize name)).Readable := by
  have noDigit := (Bool.and_eq_true_iff.mp h).2
  intro c first
  rw [Bool.not_eq_true', Option.any_eq_false] at noDigit
  exact noDigit c first

theorem readable_mark {s : Shape} (h : ∀ token ∈ s.tokens, token.Readable) (marks : List Mark) :
    ∀ token ∈ (s.mark marks).tokens, token.Readable := by
  intro token member
  rw [Shape.tokens_mark] at member
  rcases List.mem_append.mp member with old | new
  · exact h token old
  · obtain ⟨m, -, rfl⟩ := List.mem_map.mp new
    trivial

mutual

theorem TypeRef.readable_shape : (t : TypeRef) → t.readable aliases = true →
    ∀ token ∈ t.shape.tokens, token.Readable
  | .primitive p, _ => p.readable_shape
  | .pointer inner _, h => readable_mark (inner.readable_shape h) _
  | .array inner _, h => readable_mark (inner.readable_shape h) _
  | .tuple [], _ => List.forall_mem_cons.mpr ⟨trivial, List.forall_mem_nil _⟩
  | .tuple (elem :: elems), h => by
    obtain ⟨first, others⟩ := Bool.and_eq_true_iff.mp h
    refine List.forall_mem_cons.mpr ⟨trivial, List.forall_mem_append.mpr ⟨?_, ?_⟩⟩
    · exact elem.readable_shape first
    · exact readable_shapes elems others
  | .function params ret _, h => by
    obtain ⟨hp, hr⟩ := Bool.and_eq_true_iff.mp h
    refine List.forall_mem_cons.mpr ⟨trivial, List.forall_mem_append.mpr ⟨?_, ?_⟩⟩
    · exact readable_shapes params hp
    · exact List.forall_mem_cons.mpr ⟨trivial, readable_mark (ret.readable_shape hr) _⟩
  | .named name [] hint, h => by
    rw [TypeRef.shape]
    cases prim : Primitive.ofName? name with
    | some p => exact p.readable_shape
    | none =>
      rw [TypeRef.readable, prim] at h
      exact List.forall_mem_cons.mpr ⟨readable_name h, List.forall_mem_nil _⟩
  | .named name (arg :: args) hint, h => by
    obtain ⟨h, others⟩ := Bool.and_eq_true_iff.mp h
    obtain ⟨own, first⟩ := Bool.and_eq_true_iff.mp h
    rw [TypeRef.shape, Shape.tokens, Head.tokens, List.map_nil, List.append_nil]
    refine List.forall_mem_cons.mpr ⟨readable_name own, List.forall_mem_cons.mpr ⟨trivial, ?_⟩⟩
    refine List.forall_mem_append.mpr ⟨List.forall_mem_append.mpr ⟨?_, ?_⟩, ?_⟩
    · exact arg.readable_shape first
    · exact readable_shapes args others
    · exact List.forall_mem_cons.mpr ⟨trivial, List.forall_mem_nil _⟩

theorem readable_shapes : (ts : List TypeRef) → allReadable aliases ts = true →
    ∀ token ∈ shapesTokens (typeShapes ts), token.Readable
  | [], _ => List.forall_mem_nil _
  | t :: rest, h => by
    obtain ⟨first, others⟩ := Bool.and_eq_true_iff.mp h
    exact List.forall_mem_append.mpr ⟨t.readable_shape first, readable_shapes rest others⟩

end

/-! ### Shapes can be read off their tokens -/

def Token.starts : Token → Bool
  | .primitive _ | .name _ | .tuple _ | .function _ => true
  | _ => false

def Token.continues : Token → Bool
  | .mark _ | .opening => true
  | _ => false

def Stops (rest : List Token) : Prop := ∀ token ∈ rest.head?, token.continues = false

theorem stops_cons {token : Token} {rest : List Token} (h : token.continues = false) :
    Stops (token :: rest) := by
  intro first same
  cases same
  exact h

theorem Head.tokens_start (head : Head) : ∃ token rest, head.tokens = token :: rest ∧ token.starts := by
  cases head with
  | primitive p => exact ⟨_, _, rfl, rfl⟩
  | unit => exact ⟨_, _, rfl, rfl⟩
  | name clean args => cases args <;> exact ⟨_, _, rfl, rfl⟩

theorem Shape.tokens_start (s : Shape) : ∃ token rest, s.tokens = token :: rest ∧ token.starts := by
  cases s with
  | leaf head marks =>
    obtain ⟨token, rest, same, starts⟩ := head.tokens_start
    exact ⟨token, rest ++ marks.map .mark, by rw [Shape.tokens, same, List.cons_append], starts⟩
  | tuple first rest => exact ⟨_, _, rfl, rfl⟩
  | function params ret => exact ⟨_, _, rfl, rfl⟩

theorem Shape.stops_append (s : Shape) (rest : List Token) : Stops (s.tokens ++ rest) := by
  obtain ⟨token, tail, same, starts⟩ := s.tokens_start
  rw [same]
  refine stops_cons ?_
  cases token <;> first | rfl | cases starts

theorem stops_shapes {rest : List Token} (h : Stops rest) (shapes : List Shape) :
    Stops (shapesTokens shapes ++ rest) := by
  cases shapes with
  | nil => exact h
  | cons s shapes =>
    rw [shapesTokens, List.append_assoc]
    exact s.stops_append _

theorem split_marks {ms ns : List Mark} {rs qs : List Token} (hr : Stops rs) (hq : Stops qs)
    (h : ms.map .mark ++ rs = ns.map .mark ++ qs) : ms = ns ∧ rs = qs := by
  have continues (ms : List Mark) : ∀ token ∈ ms.map Token.mark, token.continues = true := by
    intro token member
    obtain ⟨m, -, rfl⟩ := List.mem_map.mp member
    rfl
  obtain ⟨same, rest⟩ := Token.split_of_all (continues ms) (continues ns) hr hq h
  exact ⟨List.map_injective_iff.mpr (fun _ _ => Token.mark.inj) same, rest⟩

def Unopened (rest : List Token) : Prop := ∀ token ∈ rest.head?, token ≠ .opening

theorem unopened_marks {rest : List Token} (h : Stops rest) (marks : List Mark) :
    Unopened (marks.map .mark ++ rest) := by
  intro token first same
  cases marks with
  | nil =>
    have stops := h token first
    rw [same] at stops
    cases stops
  | cons m marks =>
    cases first
    cases same

theorem Head.tokens_ne_tuple {head : Head} {rs qs : List Token} {n : Nat}
    (h : head.tokens ++ rs = .tuple (n + 1) :: qs) : False := by
  cases head with
  | name clean args => cases args <;> cases h
  | _ => cases h

theorem Head.tokens_ne_function {head : Head} {rs qs : List Token} {n : Nat}
    (h : head.tokens ++ rs = .function n :: qs) : False := by
  cases head with
  | name clean args => cases args <;> cases h
  | _ => cases h

mutual

theorem Head.split : (a b : Head) → {rs qs : List Token} → Unopened rs → Unopened qs →
    a.tokens ++ rs = b.tokens ++ qs → a = b ∧ rs = qs
  | .primitive p, b, rs, qs, _, _, h => by
    cases b with
    | primitive q => cases h; exact ⟨rfl, rfl⟩
    | unit => cases h
    | name clean args => cases args <;> cases h
  | .unit, b, rs, qs, _, _, h => by
    cases b with
    | primitive q => cases h
    | unit => cases h; exact ⟨rfl, rfl⟩
    | name clean args => cases args <;> cases h
  | .name clean [], b, rs, qs, hr, _, h => by
    cases b with
    | primitive q => cases h
    | unit => cases h
    | name other args =>
      cases args with
      | nil => cases h; exact ⟨rfl, rfl⟩
      | cons arg args => cases h; exact (hr _ rfl rfl).elim
  | .name clean (arg :: args), b, rs, qs, _, hq, h => by
    cases b with
    | primitive q => cases h
    | unit => cases h
    | name other others =>
      cases others with
      | nil => cases h; exact (hq _ rfl rfl).elim
      | cons first others =>
        obtain ⟨same, rest⟩ := List.cons.inj h
        cases same
        have listed := (List.cons.inj rest).2
        simp only [List.append_eq, List.append_assoc, List.cons_append, List.nil_append] at listed
        obtain ⟨rfl, tail⟩ := arg.split first (stops_shapes (stops_cons rfl) args)
          (stops_shapes (stops_cons rfl) others) listed
        obtain ⟨rfl, done⟩ := split_arguments args others tail
        exact ⟨rfl, done⟩

theorem Shape.split : (a b : Shape) → {rs qs : List Token} → Stops rs → Stops qs →
    a.tokens ++ rs = b.tokens ++ qs → a = b ∧ rs = qs
  | .leaf head marks, b, rs, qs, hr, hq, h => by
    rw [Shape.tokens, List.append_assoc] at h
    cases b with
    | leaf other marks' =>
      rw [Shape.tokens, List.append_assoc] at h
      obtain ⟨rfl, rest⟩ := head.split other (unopened_marks hr marks) (unopened_marks hq marks') h
      obtain ⟨rfl, done⟩ := split_marks hr hq rest
      exact ⟨rfl, done⟩
    | tuple first rest => exact (Head.tokens_ne_tuple h).elim
    | function params ret => exact (Head.tokens_ne_function h).elim
  | .tuple first rest, b, rs, qs, hr, hq, h => by
    cases b with
    | leaf other marks =>
      rw [Shape.tokens.eq_1 other, List.append_assoc] at h
      exact (Head.tokens_ne_tuple h.symm).elim
    | tuple first' rest' =>
      obtain ⟨same, elems⟩ := List.cons.inj h
      have length : rest.length = rest'.length := Nat.succ.inj (Token.tuple.inj same)
      simp only [List.append_eq, List.append_assoc] at elems
      obtain ⟨rfl, tail⟩ := first.split first' (stops_shapes hr rest) (stops_shapes hq rest') elems
      obtain ⟨rfl, done⟩ := split_shapes rest rest' hr hq length tail
      exact ⟨rfl, done⟩
    | function params ret => cases h
  | .function params ret, b, rs, qs, hr, hq, h => by
    cases b with
    | leaf other marks =>
      rw [Shape.tokens.eq_1 other, List.append_assoc] at h
      exact (Head.tokens_ne_function h.symm).elim
    | tuple first rest => cases h
    | function params' ret' =>
      obtain ⟨same, rest⟩ := List.cons.inj h
      have length : params.length = params'.length := Token.function.inj same
      simp only [List.append_eq, List.append_assoc, List.cons_append] at rest
      obtain ⟨rfl, tail⟩ := split_shapes params params' (stops_cons rfl) (stops_cons rfl) length rest
      obtain ⟨rfl, done⟩ := ret.split ret' hr hq (List.cons.inj tail).2
      exact ⟨rfl, done⟩

theorem split_shapes : (as bs : List Shape) → {rs qs : List Token} → Stops rs → Stops qs →
    as.length = bs.length → shapesTokens as ++ rs = shapesTokens bs ++ qs → as = bs ∧ rs = qs
  | [], bs, rs, qs, _, _, length, h => by
    obtain rfl := List.eq_nil_of_length_eq_zero length.symm
    exact ⟨rfl, h⟩
  | a :: as, bs, rs, qs, hr, hq, length, h => by
    obtain ⟨b, bs, rfl⟩ := List.exists_cons_of_length_eq_add_one length.symm
    simp only [shapesTokens, List.append_assoc] at h
    obtain ⟨rfl, rest⟩ := a.split b (stops_shapes hr as) (stops_shapes hq bs) h
    obtain ⟨rfl, done⟩ := split_shapes as bs hr hq (Nat.succ.inj length) rest
    exact ⟨rfl, done⟩

theorem split_arguments : (as bs : List Shape) → {rs qs : List Token} →
    shapesTokens as ++ .closing :: rs = shapesTokens bs ++ .closing :: qs → as = bs ∧ rs = qs
  | [], bs, rs, qs, h => by
    cases bs with
    | nil => exact ⟨rfl, (List.cons.inj h).2⟩
    | cons b bs =>
      obtain ⟨token, tail, same, starts⟩ := b.tokens_start
      rw [shapesTokens, shapesTokens, same] at h
      cases h
      cases starts
  | a :: as, bs, rs, qs, h => by
    cases bs with
    | nil =>
      obtain ⟨token, tail, same, starts⟩ := a.tokens_start
      rw [shapesTokens, shapesTokens, same] at h
      cases h
      cases starts
    | cons b bs =>
      simp only [shapesTokens, List.append_assoc] at h
      obtain ⟨rfl, rest⟩ := a.split b (stops_shapes (stops_cons rfl) as)
        (stops_shapes (stops_cons rfl) bs) h
      obtain ⟨rfl, done⟩ := split_arguments as bs rest
      exact ⟨rfl, done⟩

end

theorem Shape.tokens_injective {a b : Shape} (h : a.tokens = b.tokens) : a = b := by
  have nothing : Stops [] := nofun
  exact (a.split b nothing nothing (by rw [h])).1

theorem AliasTable.encode_eq_iff_shape {t u : TypeRef} (ht : t.readable aliases = true)
    (hu : u.readable aliases = true) :
    aliases.encode t = aliases.encode u ↔ t.shape = u.shape := by
  have spelled {v : TypeRef} (h : v.readable aliases = true) :
      "_" ++ aliases.encode v = Token.spell v.shape.tokens := v.spell_shape h
  constructor
  · intro same
    have spells : Token.spell t.shape.tokens = Token.spell u.shape.tokens := by
      rw [← spelled ht, ← spelled hu, same]
    exact Shape.tokens_injective
      (Token.spell_injective (t.readable_shape ht) (u.readable_shape hu) spells)
  · intro same
    have spells : "_" ++ aliases.encode t = "_" ++ aliases.encode u := by
      rw [spelled ht, spelled hu, same]
    have chars := congrArg String.toList spells
    rw [String.toList_append, String.toList_append] at chars
    exact String.toList_injective (List.append_cancel_left chars)

end Backend
