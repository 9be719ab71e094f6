import Backend.Proofs.Substitution.Normal
import Backend.Symbol

/-!
Encodings and aliases. A reference to an alias is encoded as what it stands for, and what wraps the
reference is written behind that. So the encoding of a type is that of the type with its aliases
written out, if dimensions around an array go behind its own (`TypeRef.arrayBehind`). The merging
constructor puts them in front, and the two agree where no array stands on an array.
-/

namespace Backend

def TypeRef.arrayBehind (inner : TypeRef) (dims : List Nat) : TypeRef :=
  if dims.isEmpty then inner
  else match inner with
    | .array t ds => .array t (ds ++ dims)
    | t => .array t dims

theorem TypeRef.arrayBehind_eq_arrayOf {t : TypeRef} {dims : List Nat}
    (h : dims.isEmpty = true ∨ t.isArray = false) : t.arrayBehind dims = t.arrayOf dims := by
  unfold arrayBehind arrayOf
  rcases h with none | other
  · rw [if_pos none, if_pos none]
  · cases t <;> first | rfl | cases other

namespace Symbol

theorem repeated_add (n m : Nat) (text : String) :
    repeated (n + m) text = repeated n text ++ repeated m text := by
  unfold repeated
  rw [← List.replicate_append_replicate, String.join_append]

theorem encode_pointerTo (t : TypeRef) (depth : Nat) :
    encode (.pointerTo t depth) = encode t ++ repeated depth "_ptr" := by
  unfold encode
  rcases TypeRef.pointerTo_cases t depth with ⟨rfl, eq⟩ | ⟨inner, d, -, rfl, eq⟩ | ⟨-, -, eq⟩
  · rw [eq]
    exact (String.append_empty).symm
  · rw [eq, encodeWith, encodeWith, repeated_add, String.append_assoc]
  · rw [eq, encodeWith]

theorem encode_arrayBehind (t : TypeRef) (dims : List Nat) :
    encode (.arrayBehind t dims) = encode t ++ String.join (dims.map fun d => s!"_arr_{d}_") := by
  unfold TypeRef.arrayBehind
  split
  case isTrue none =>
    rw [List.isEmpty_iff.mp none]
    exact (String.append_empty).symm
  case isFalse =>
    split
    · unfold encode
      rw [encodeWith, encodeWith, List.map_append, String.join_append, String.append_assoc]
    · unfold encode
      rw [encodeWith]

end Symbol

def AliasDecl.targetAt (a : AliasDecl) (args : List TypeRef) : TypeRef :=
  (Substitution.ofParams a.typeParams args).apply a.target

namespace AliasTable

/-! ### Aliases written out -/

section

variable (aliases : AliasTable) (wrap : TypeRef → List Nat → TypeRef) (follow : TypeRef → TypeRef)

mutual

/-- Replaces what refers to an alias by `follow` of what it stands for, and rebuilds all wrappers,
arrays by `wrap`. -/
def expandWith : TypeRef → TypeRef
  | .primitive p => .primitive p
  | .pointer inner depth => .pointerTo (expandWith inner) depth
  | .array inner dims => wrap (expandWith inner) dims
  | .tuple elems => .tuple (expandAllWith elems)
  | .function params ret variadic => .function (expandAllWith params) (expandWith ret) variadic
  | .named name [] hint =>
    if (Primitive.ofName? name).isSome then .named name [] hint
    else match aliases.find? name with
      | some a => follow (a.targetAt [])
      | none => .named name [] hint
  | .named name (arg :: args) hint =>
    match aliases.find? name with
    | some a => follow (a.targetAt (arg :: args))
    | none => .named name (expandWith arg :: expandAllWith args) hint

def expandAllWith : List TypeRef → List TypeRef
  | [] => []
  | t :: ts => expandWith t :: expandAllWith ts

end

/-- The type with its aliases written out, in turn up to `n` times. -/
def expandAt : Nat → TypeRef → TypeRef
  | 0 => aliases.expandWith wrap id
  | n + 1 => aliases.expandWith wrap (expandAt n)

end

section

variable (aliases : AliasTable) (arrays : TypeRef → List Nat → Bool) (check : TypeRef → Bool)

mutual

/-- All arrays in a type pass a check, and so does what its references to aliases stand for. -/
def meetsWith : TypeRef → Bool
  | .primitive _ => true
  | .pointer inner _ => meetsWith inner
  | .array inner dims => arrays inner dims && meetsWith inner
  | .tuple elems => allMeetWith elems
  | .function params ret _ => allMeetWith params && meetsWith ret
  | .named name [] _ =>
    (Primitive.ofName? name).isSome || (aliases.find? name).all fun a => check (a.targetAt [])
  | .named name (arg :: args) _ =>
    match aliases.find? name with
    | some a => check (a.targetAt (arg :: args))
    | none => meetsWith arg && allMeetWith args

def allMeetWith : List TypeRef → Bool
  | [] => true
  | t :: ts => meetsWith t && allMeetWith ts

end

abbrev endsWith : TypeRef → Bool := aliases.meetsWith (fun _ _ => true) check

/-- No more than `n` aliases are followed in turn. -/
def endsAt : Nat → TypeRef → Bool
  | 0 => aliases.endsWith fun _ => false
  | n + 1 => aliases.endsWith (endsAt n)

abbrev flatWith (expand : TypeRef → TypeRef) : TypeRef → Bool :=
  aliases.meetsWith (fun inner dims => dims.isEmpty || !(expand inner).isArray) check

/-- Neither in the type nor in what its aliases stand for does an array stand on an array. -/
def flatAt : Nat → TypeRef → Bool
  | 0 => aliases.flatWith (fun _ => true) (aliases.expandAt .arrayOf 0)
  | n + 1 => aliases.flatWith (flatAt n) (aliases.expandAt .arrayOf (n + 1))

end

/-- The type with its aliases written out through the merging constructors. -/
def expanded (aliases : AliasTable) : TypeRef → TypeRef :=
  aliases.expandAt .arrayOf Symbol.maxAliasDepth

/-! ### The result is normal and has no aliases -/

variable {aliases : AliasTable}

section

variable {check : TypeRef → Bool} (aliases)

theorem endsWith_pointerTo (t : TypeRef) (depth : Nat) :
    aliases.endsWith check (.pointerTo t depth) = aliases.endsWith check t := by
  rcases TypeRef.pointerTo_cases t depth with ⟨-, eq⟩ | ⟨inner, d, -, rfl, eq⟩ | ⟨-, -, eq⟩ <;>
    rw [eq] <;> simp only [endsWith, meetsWith]

theorem endsWith_arrayOf (t : TypeRef) (dims : List Nat) :
    aliases.endsWith check (.arrayOf t dims) = aliases.endsWith check t := by
  rcases TypeRef.arrayOf_cases t dims with ⟨-, eq⟩ | ⟨inner, ds, -, rfl, eq⟩ | ⟨-, -, eq⟩ <;>
    rw [eq] <;> simp only [endsWith, meetsWith, Bool.true_and]

def isExpanded (t : TypeRef) : Bool := t.isNormal && aliases.endsAt 0 t

end

section

variable {check : TypeRef → Bool} {follow : TypeRef → TypeRef}

mutual

theorem isExpanded_expandWith
    (followed : ∀ t, check t = true → aliases.isExpanded (follow t) = true) :
    (t : TypeRef) → aliases.endsWith check t = true →
    aliases.isExpanded (aliases.expandWith .arrayOf follow t) = true
  | .primitive _, _ => rfl
  | .pointer inner depth, ends => by
    have done := Bool.and_eq_true_iff.mp (isExpanded_expandWith followed inner ends)
    rw [expandWith, isExpanded, endsAt, endsWith_pointerTo, Bool.and_eq_true]
    exact ⟨TypeRef.isNormal_pointerTo done.1 depth, done.2⟩
  | .array inner dims, ends => by
    have done := Bool.and_eq_true_iff.mp (isExpanded_expandWith followed inner ends)
    rw [expandWith, isExpanded, endsAt, endsWith_arrayOf, Bool.and_eq_true]
    exact ⟨TypeRef.isNormal_arrayOf done.1 dims, done.2⟩
  | .tuple elems, ends => by
    obtain ⟨normal, free⟩ := allExpanded_expandAllWith followed elems ends
    rw [expandWith, isExpanded, endsAt, TypeRef.isNormal, endsWith, meetsWith, normal, free]
    rfl
  | .function params ret variadic, ends => by
    rw [endsWith, meetsWith, Bool.and_eq_true] at ends
    obtain ⟨normal, free⟩ := allExpanded_expandAllWith followed params ends.1
    have done := Bool.and_eq_true_iff.mp (isExpanded_expandWith followed ret ends.2)
    rw [expandWith, isExpanded, endsAt, TypeRef.isNormal, endsWith, meetsWith, normal, free, done.1]
    exact done.2
  | .named name [] hint, ends => by
    rw [expandWith]
    rw [endsWith, meetsWith, Bool.or_eq_true] at ends
    split
    case isTrue spelled =>
      rw [isExpanded, endsAt, endsWith, meetsWith, spelled]
      rfl
    case isFalse other =>
      cases found : aliases.find? name with
      | some a =>
        rw [found, Option.all_some] at ends
        exact followed _ (ends.resolve_left other)
      | none =>
        rw [isExpanded, endsAt, endsWith, meetsWith, found, Option.all_none, Bool.or_true]
        rfl
  | .named name (arg :: args) hint, ends => by
    rw [expandWith]
    rw [endsWith, meetsWith] at ends
    cases found : aliases.find? name with
    | some a =>
      rw [found] at ends
      exact followed _ ends
    | none =>
      rw [found, Bool.and_eq_true] at ends
      have done := Bool.and_eq_true_iff.mp (isExpanded_expandWith followed arg ends.1)
      obtain ⟨normal, free⟩ := allExpanded_expandAllWith followed args ends.2
      have kept : aliases.endsAt 0 (.named name (aliases.expandWith .arrayOf follow arg ::
          aliases.expandAllWith .arrayOf follow args) hint) = true := by
        rw [endsAt, endsWith, meetsWith, found]
        exact Bool.and_eq_true_iff.mpr ⟨done.2, free⟩
      rw [isExpanded, kept, TypeRef.isNormal, TypeRef.allNormal, normal, done.1]
      rfl

theorem allExpanded_expandAllWith
    (followed : ∀ t, check t = true → aliases.isExpanded (follow t) = true) :
    (ts : List TypeRef) → aliases.allMeetWith (fun _ _ => true) check ts = true →
    TypeRef.allNormal (aliases.expandAllWith .arrayOf follow ts) = true ∧
      aliases.allMeetWith (fun _ _ => true) (fun _ => false)
        (aliases.expandAllWith .arrayOf follow ts) = true
  | [], _ => ⟨rfl, rfl⟩
  | t :: ts, ends => by
    rw [allMeetWith, Bool.and_eq_true] at ends
    have first := Bool.and_eq_true_iff.mp (isExpanded_expandWith followed t ends.1)
    obtain ⟨normal, free⟩ := allExpanded_expandAllWith followed ts ends.2
    rw [expandAllWith, TypeRef.allNormal, allMeetWith, first.1, normal, free, Bool.and_true,
      Bool.and_true]
    exact ⟨rfl, first.2⟩

end

end

theorem isExpanded_expandAt {n : Nat} {t : TypeRef} (ends : aliases.endsAt n t = true) :
    aliases.isExpanded (aliases.expandAt .arrayOf n t) = true := by
  induction n generalizing t with
  | zero =>
    refine isExpanded_expandWith (fun _ refers => ?_) t ends
    cases refers
  | succ n ih => exact isExpanded_expandWith (fun _ => ih) t ends

/-! ### The encoding is that of the type written out -/

theorem expand?_eq (name : String) (args : List TypeRef) :
    aliases.expand? name args = (aliases.find? name).map fun a => a.targetAt args := by
  unfold expand? AliasDecl.targetAt
  refine congrArg (fun f => (aliases.find? name).map f) (funext fun a => ?_)
  split
  case isTrue none => rw [List.isEmpty_iff.mp none]; rfl
  case isFalse => rfl

/-- `expand` and `encode` go on with an alias as `follow` does. -/
structure EncodesAs (aliases : AliasTable) (check : TypeRef → Bool) (follow : TypeRef → TypeRef)
    (expand : Symbol.Expansion) (encode : TypeRef → String) : Prop where
  unknown : ∀ name args, aliases.find? name = none → expand name args = none
  known : ∀ name args a, aliases.find? name = some a → check (a.targetAt args) = true →
    ∃ t, expand name args = some t ∧ encode t = Symbol.encode (follow (a.targetAt args))

section

variable {check : TypeRef → Bool} {follow : TypeRef → TypeRef} {expand : Symbol.Expansion}
  {enc : TypeRef → String}

mutual

theorem encodeWith_expandWith (h : aliases.EncodesAs check follow expand enc) :
    (t : TypeRef) → aliases.endsWith check t = true →
    Symbol.encodeWith expand enc t = Symbol.encode (aliases.expandWith .arrayBehind follow t)
  | .primitive _, _ => rfl
  | .pointer inner depth, ends => by
    rw [Symbol.encodeWith, expandWith, Symbol.encode_pointerTo, encodeWith_expandWith h inner ends]
  | .array inner dims, ends => by
    rw [Symbol.encodeWith, expandWith, Symbol.encode_arrayBehind, encodeWith_expandWith h inner ends]
  | .tuple elems, ends => by
    obtain ⟨same, length⟩ := encodeAll_expandAllWith h elems ends
    rw [Symbol.encodeWith, expandWith, Symbol.encode, Symbol.encodeWith, same, length]
  | .function params ret variadic, ends => by
    rw [endsWith, meetsWith, Bool.and_eq_true] at ends
    obtain ⟨same, length⟩ := encodeAll_expandAllWith h params ends.1
    rw [Symbol.encodeWith, expandWith, Symbol.encode, Symbol.encodeWith, same, length,
      encodeWith_expandWith h ret ends.2, Symbol.encode]
  | .named name [] hint, ends => by
    rw [endsWith, meetsWith, Bool.or_eq_true] at ends
    rw [Symbol.encodeWith, expandWith]
    cases spelled : Primitive.ofName? name with
    | some p =>
      rw [Option.isSome_some, if_pos rfl, Symbol.encode, Symbol.encodeWith, spelled]
    | none =>
      rw [Option.isSome_none, if_neg Bool.false_ne_true]
      cases found : aliases.find? name with
      | some a =>
        rw [spelled, found, Option.all_some] at ends
        obtain ⟨t, expands, same⟩ := h.known name [] a found (ends.resolve_left Bool.false_ne_true)
        rw [expands]
        exact same
      | none => rw [h.unknown name [] found, Symbol.encode, Symbol.encodeWith, spelled]
  | .named name (arg :: args) hint, ends => by
    rw [endsWith, meetsWith] at ends
    rw [Symbol.encodeWith, expandWith]
    cases found : aliases.find? name with
    | some a =>
      rw [found] at ends
      obtain ⟨t, expands, same⟩ := h.known name (arg :: args) a found ends
      rw [expands]
      exact same
    | none =>
      rw [found, Bool.and_eq_true] at ends
      obtain ⟨same, -⟩ := encodeAll_expandAllWith h args ends.2
      rw [h.unknown name _ found, Symbol.encode, Symbol.encodeWith,
        encodeWith_expandWith h arg ends.1, same, Symbol.encode]

theorem encodeAll_expandAllWith (h : aliases.EncodesAs check follow expand enc) :
    (ts : List TypeRef) → aliases.allMeetWith (fun _ _ => true) check ts = true →
    Symbol.encodeAll expand enc ts = Symbol.encodeAll (fun _ _ => none) (fun _ => "")
        (aliases.expandAllWith .arrayBehind follow ts) ∧
      ts.length = (aliases.expandAllWith .arrayBehind follow ts).length
  | [], _ => ⟨rfl, rfl⟩
  | t :: ts, ends => by
    rw [allMeetWith, Bool.and_eq_true] at ends
    obtain ⟨same, length⟩ := encodeAll_expandAllWith h ts ends.2
    rw [Symbol.encodeAll, expandAllWith, Symbol.encodeAll, encodeWith_expandWith h t ends.1, same,
      List.length_cons, List.length_cons, length, Symbol.encode]
    exact ⟨rfl, rfl⟩

end

end

theorem encodeAt_expandAt {n : Nat} {t : TypeRef} (ends : aliases.endsAt n t = true) :
    aliases.encodeAt n t = Symbol.encode (aliases.expandAt .arrayBehind n t) := by
  induction n generalizing t with
  | zero =>
    refine encodeWith_expandWith ⟨fun _ _ _ => rfl, fun _ _ _ _ refers => ?_⟩ t ends
    cases refers
  | succ n ih =>
    refine encodeWith_expandWith ⟨fun name args found => ?_, fun name args a found ends => ?_⟩ t ends
    · rw [expand?_eq, found, Option.map_none]
    · exact ⟨a.targetAt args, by rw [expand?_eq, found, Option.map_some], ih ends⟩

/-! ### Where no array stands on an array -/

section

variable {check : TypeRef → Bool} {follow behind : TypeRef → TypeRef}

mutual

theorem expandWith_arrayBehind (followed : ∀ t, check t = true → behind t = follow t) :
    (t : TypeRef) →
    aliases.flatWith check (aliases.expandWith .arrayOf follow) t = true →
    aliases.expandWith .arrayBehind behind t = aliases.expandWith .arrayOf follow t
  | .primitive _, _ => rfl
  | .pointer inner depth, flat => by
    rw [expandWith, expandWith, expandWith_arrayBehind followed inner flat]
  | .array inner dims, flat => by
    rw [flatWith, meetsWith, Bool.and_eq_true, Bool.or_eq_true, Bool.not_eq_true'] at flat
    rw [expandWith, expandWith, expandWith_arrayBehind followed inner flat.2,
      TypeRef.arrayBehind_eq_arrayOf flat.1]
  | .tuple elems, flat => by
    rw [expandWith, expandWith, expandAllWith_arrayBehind followed elems flat]
  | .function params ret variadic, flat => by
    rw [flatWith, meetsWith, Bool.and_eq_true] at flat
    rw [expandWith, expandWith, expandAllWith_arrayBehind followed params flat.1,
      expandWith_arrayBehind followed ret flat.2]
  | .named name [] hint, flat => by
    rw [flatWith, meetsWith, Bool.or_eq_true] at flat
    rw [expandWith, expandWith]
    split
    case isTrue => rfl
    case isFalse other =>
      cases found : aliases.find? name with
      | some a =>
        rw [found, Option.all_some] at flat
        exact followed _ (flat.resolve_left other)
      | none => rfl
  | .named name (arg :: args) hint, flat => by
    rw [flatWith, meetsWith] at flat
    rw [expandWith, expandWith]
    cases found : aliases.find? name with
    | some a =>
      rw [found] at flat
      exact followed _ flat
    | none =>
      rw [found, Bool.and_eq_true] at flat
      rw [expandWith_arrayBehind followed arg flat.1, expandAllWith_arrayBehind followed args flat.2]

theorem expandAllWith_arrayBehind (followed : ∀ t, check t = true → behind t = follow t) :
    (ts : List TypeRef) →
    aliases.allMeetWith (fun inner dims =>
      dims.isEmpty || !(aliases.expandWith .arrayOf follow inner).isArray) check ts = true →
    aliases.expandAllWith .arrayBehind behind ts = aliases.expandAllWith .arrayOf follow ts
  | [], _ => rfl
  | t :: ts, flat => by
    rw [allMeetWith, Bool.and_eq_true] at flat
    rw [expandAllWith, expandAllWith, expandWith_arrayBehind followed t flat.1,
      expandAllWith_arrayBehind followed ts flat.2]

end

end

theorem expandAt_arrayBehind {n : Nat} {t : TypeRef} (flat : aliases.flatAt n t = true) :
    aliases.expandAt .arrayBehind n t = aliases.expandAt .arrayOf n t := by
  induction n generalizing t with
  | zero => exact expandWith_arrayBehind (fun _ _ => rfl) t flat
  | succ n ih => exact expandWith_arrayBehind (fun _ => ih) t flat

/-! ### Encoding and expansion -/

/-- The encoding of a type is that of the type with its aliases written out, where dimensions
around an array come behind its own; written out through the merging constructors, it is a normal
type without aliases, and has the same encoding if no array stands on an array. -/
theorem encode_expanded (aliases : AliasTable) (t : TypeRef)
    (ends : aliases.endsAt Symbol.maxAliasDepth t = true) :
    aliases.isExpanded (aliases.expanded t) = true ∧
      aliases.encode t = Symbol.encode (aliases.expandAt .arrayBehind Symbol.maxAliasDepth t) ∧
      (aliases.flatAt Symbol.maxAliasDepth t = true →
        aliases.encode t = Symbol.encode (aliases.expanded t)) := by
  refine ⟨isExpanded_expandAt ends, encodeAt_expandAt ends, fun flat => ?_⟩
  rw [expanded, ← expandAt_arrayBehind flat]
  exact encodeAt_expandAt ends

/-- `Row` is an array, `Grid<T>` an array of pointers and `Link<T>` a pointer to an alias. -/
def gridAliases : AliasTable := .ofList
  [("Row", { name := "Row", target := .array .i32 [3] }),
   ("Grid", { name := "Grid", typeParams := ["T"], target := .array (.pointer (.ofName "T") 1) [2] }),
   ("Link", { name := "Link", typeParams := ["T"],
              target := .pointer (.named "Grid" [.ofName "T"] none) 1 })]

/-- The pointers merge, one of them from the argument, and the arrays stay apart. -/
theorem encode_expanded_link :
    gridAliases.encode (.array (.named "Link" [.pointer (.ofName "Row") 1] none) [4]) =
      Symbol.encode (.array (.pointer (.array (.pointer (.array .i32 [3]) 2) [2]) 1) [4]) := by
  refine (encode_expanded gridAliases _ ?_).2.2 ?_
  · decide +kernel
  · decide +kernel

/-- Two rows of three are written as three rows of two: the dimension around the alias comes last
though it is the outermost. -/
theorem encode_ne_expanded :
    (TypeRef.array (.ofName "Row") [2]).isNormal = true ∧
      gridAliases.endsAt Symbol.maxAliasDepth (.array (.ofName "Row") [2]) = true ∧
      gridAliases.expanded (.array (.ofName "Row") [2]) = .array .i32 [2, 3] ∧
      gridAliases.encode (.array (.ofName "Row") [2]) ≠ Symbol.encode (.array .i32 [2, 3]) ∧
      gridAliases.encode (.array (.ofName "Row") [2]) = Symbol.encode (.array .i32 [3, 2]) := by
  refine ⟨by decide, by decide +kernel, by rfl, by decide +kernel, by decide +kernel⟩

end AliasTable

end Backend
