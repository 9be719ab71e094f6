import Backend.Proofs.Encoding.Canonical

/-!
Names of instances and symbols of functions. Both are a source name with the encodings of a list of
types behind it. Neither a count nor a closing bracket belongs to the list, so it can be read off
the name only because an encoding ends where the next token begins another type. Main statement:
two lists make the same name exactly if they are the same, type by type, up to spelling.
-/

namespace Backend

open Backend.Symbol

/-- Lists of the same length whose types are the same up to spelling. -/
def SpelledAlike : List TypeRef → List TypeRef → Prop :=
  List.Forall₂ fun t u => t.canonical = u.canonical

/-! ### Lists of shapes -/

theorem shapesTokens_injective {as bs : List Shape} (h : shapesTokens as = shapesTokens bs) :
    as = bs := by
  have closed : shapesTokens as ++ [.closing] = shapesTokens bs ++ [.closing] := by rw [h]
  exact (split_arguments as bs closed).1

theorem typeShapes_eq_iff : {ts us : List TypeRef} → allClear ts = true → allClear us = true →
    (typeShapes ts = typeShapes us ↔ SpelledAlike ts us)
  | [], [], _, _ => iff_of_true rfl .nil
  | [], u :: us, _, _ => iff_of_false (typeShapes_ne_nil u us).symm nofun
  | t :: ts, [], _, _ => iff_of_false (typeShapes_ne_nil t ts) nofun
  | t :: ts, u :: us, ht, hu => by
    obtain ⟨firstT, restT⟩ := Bool.and_eq_true_iff.mp ht
    obtain ⟨firstU, restU⟩ := Bool.and_eq_true_iff.mp hu
    rw [typeShapes, typeShapes, List.cons.injEq, SpelledAlike, List.forall₂_cons,
      TypeRef.shape_eq_iff_canonical firstT firstU]
    exact and_congr_right fun _ => typeShapes_eq_iff restT restU

/-! ### What stands behind the source name -/

namespace AliasTable

variable {aliases : AliasTable}

theorem joined_encode {ts : List TypeRef} (h : allReadable aliases ts = true) :
    joined (ts.map aliases.encode) = Token.spell (shapesTokens (typeShapes ts)) := by
  induction ts with
  | nil => rfl
  | cons t ts ih =>
    obtain ⟨first, others⟩ := Bool.and_eq_true_iff.mp h
    have spelled : "_" ++ aliases.encode t = Token.spell t.shape.tokens := t.spell_shape first
    rw [List.map_cons, joined_cons, spelled, ih others, typeShapes, shapesTokens,
      spell_append]

theorem joined_encode_eq_iff {ts us : List TypeRef} (ht : allReadable aliases ts = true)
    (hu : allReadable aliases us = true) (ct : allClear ts = true) (cu : allClear us = true) :
    joined (ts.map aliases.encode) = joined (us.map aliases.encode) ↔ SpelledAlike ts us := by
  rw [joined_encode ht, joined_encode hu, ← typeShapes_eq_iff ct cu]
  constructor
  · intro same
    exact shapesTokens_injective
      (Token.spell_injective (readable_shapes ts ht) (readable_shapes us hu) same)
  · intro same
    rw [same]

/-- The arguments of an instance, and the parameters of a function, can be read off its name. -/
theorem name_eq_iff (aliases : AliasTable) (base : String) (ts us : List TypeRef)
    (ht : allReadable aliases ts = true) (hu : allReadable aliases us = true)
    (ct : allClear ts = true) (cu : allClear us = true) :
    (aliases.genericName base ts = aliases.genericName base us ↔ SpelledAlike ts us) ∧
      (aliases.functionName base ts [] = aliases.functionName base us [] ↔
        SpelledAlike ts us) := by
  have listed := joined_encode_eq_iff ht hu ct cu
  constructor
  · rw [genericName, genericName, String.append_right_inj, listed]
  · rw [functionName, functionName, List.append_nil, List.append_nil, String.append_right_inj, listed]

/-- Spellings that make one name: a primitive under two names, a string as a pointer, a qualified
name with and without its point. -/
def pairArguments (int point : String) (text : TypeRef) : List TypeRef :=
  [.named "Pair" [.ofName int, .pointer (.ofName point) 1] (some .struct), .array text [3]]

/-- The underscore in a name belongs to one argument and cannot move to the next one. -/
theorem name_eq_iff_pair :
    AliasTable.genericName {} "Map" (pairArguments "int" "geo.Point" .string) =
        AliasTable.genericName {} "Map"
          (pairArguments "i32" "geo_Point" (.pointer (.primitive .i8) 1)) ∧
      AliasTable.functionName {} "put" [.ofName "A_B", .ofName "C"] [] ≠
        AliasTable.functionName {} "put" [.ofName "A", .ofName "B_C"] [] := by
  have int : Primitive.ofName? "int" = some .i32 ∧ Primitive.ofName? "i32" = some .i32 := by
    decide +kernel
  have point : Primitive.ofName? "geo.Point" = none ∧ Primitive.ofName? "geo_Point" = none ∧
      sanitize "geo.Point" = sanitize "geo_Point" := by decide +kernel
  constructor
  · refine (name_eq_iff {} "Map" _ _ (by decide +kernel) (by decide +kernel) (by decide)
      (by decide)).1.mpr (.cons ?_ (.cons rfl .nil))
    simp only [TypeRef.ofName, TypeRef.canonical, canonicalAll, int, point]
  · intro same
    have alike := (name_eq_iff {} "put" [.ofName "A_B", .ofName "C"] [.ofName "A", .ofName "B_C"]
      (by decide +kernel) (by decide +kernel) (by decide) (by decide)).2.mp same
    have first := (TypeRef.named.inj (List.forall₂_cons.mp alike).1).1
    exact absurd first (by decide +kernel)

end AliasTable

end Backend
