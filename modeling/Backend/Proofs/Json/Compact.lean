import Backend.Proofs.Json.Grammar

/-!
The compact text of a value. A double is written by its bits and so read back as a string, but the
text of an exact value is one of its texts in the grammar, so it reads back as the same value.
Cutting a value at a depth that it does not exceed leaves it as it is.
-/

namespace Backend.Json

mutual

/-- No doubles, nothing unreadable, and no integers beyond 64 bits. -/
def exact : Json → Bool
  | .null | .bool _ | .string _ => true
  | .int n => decide (-(twoPow 63 : Int) ≤ n) && decide (n < twoPow 64)
  | .array items => exactItems items
  | .object members => exactMembers members
  | .float _ | .unreadable _ => false

def exactItems : List Json → Bool
  | [] => true
  | item :: rest => item.exact && exactItems rest

def exactMembers : List (String × Json) → Bool
  | [] => true
  | (_, value) :: rest => value.exact && exactMembers rest

end

/-! ### Numbers -/

theorem foldl_digits_le (ds : List Nat) (acc : Nat) :
    acc ≤ ds.foldl (fun acc d => acc * 10 + d) acc := by
  induction ds generalizing acc with
  | nil => exact Nat.le_refl acc
  | cons d ds ih =>
    have := ih (acc * 10 + d)
    rw [List.foldl_cons]
    omega

theorem takeDigits_eq {ds : List Nat} {acc : Nat}
    (h : ds.foldl (fun acc d => acc * 10 + d) acc < twoPow 64) :
    takeDigits acc ds = (ds.foldl (fun acc d => acc * 10 + d) acc, 0) := by
  induction ds generalizing acc with
  | nil => rfl
  | cons d ds ih =>
    rw [List.foldl_cons] at h ⊢
    have fits := Nat.lt_of_le_of_lt (foldl_digits_le ds (acc * 10 + d)) h
    rw [takeDigits, if_pos fits, ih h]

theorem exists_digits (n : Nat) : ∃ ds, Nat.toDigits 10 n = digitsText ds ∧ IsDigits ds ∧
    digitsValue ds = n ∧ (ds.head? = some 0 → ds = [0]) := by
  induction n using Nat.strongRecOn with
  | _ n ih =>
    by_cases small : n < 10
    · refine ⟨[n], by rw [Nat.toDigits_of_lt_base small]; rfl, ⟨by simp, by simpa using small⟩,
        by simp [digitsValue], by simp⟩
    · obtain ⟨ds, text, digits, val, lead⟩ := ih (n / 10) (by omega)
      refine ⟨ds ++ [n % 10], ?_, ⟨by simp, ?_⟩, ?_, ?_⟩
      · rw [Nat.toDigits_of_base_le (by decide) (by omega), text]
        simp [digitsText]
      · intro d hd
        rcases List.mem_append.mp hd with hd | hd
        · exact digits.2 d hd
        · rw [List.mem_singleton.mp hd]
          omega
      · rw [digitsValue] at val
        simp only [digitsValue, List.foldl_append, List.foldl_cons, List.foldl_nil, val]
        omega
      · intro head
        -- a leading zero would be the whole of `n / 10`
        have zero : ds = [0] := by
          cases ds with
          | nil => exact absurd rfl digits.1
          | cons d ds => exact lead head
        rw [zero] at val
        simp [digitsValue] at val
        omega

theorem written_int {n : Int} (low : -(twoPow 63 : Int) ≤ n) (high : n < twoPow 64) :
    Written (.int n) (intText n) := by
  rw [intText]
  generalize size : n.natAbs = k
  obtain ⟨ds, text, digits, val, lead⟩ := exists_digits k
  have half : twoPow 63 = 9223372036854775808 := rfl
  have full : twoPow 64 = 18446744073709551616 := rfl
  have fits : k < twoPow 64 := by omega
  have taken : takeDigits 0 ds = (k, 0) := by
    rw [digitsValue] at val
    rw [takeDigits_eq (by rw [val]; exact fits), val]
  have leading : ∀ d ds', ds ≠ 0 :: d :: ds' := by
    rintro d ds' rfl
    exact absurd (lead rfl) (by simp)
  have number := Written.number
    (.mk digits leading .absent .absent : NumeralText ⟨decide (n < 0), ds, [], none⟩ _)
  by_cases negative : n < 0
  · have bounds : k ≠ 0 ∧ ¬ twoPow 63 < k := by omega
    have opposite : -(k : Int) = n := by omega
    simpa [Numeral.json, Numeral.value?, taken, negative, bounds, opposite, text] using number
  · have same : (k : Int) = n := by omega
    simpa [Numeral.json, Numeral.value?, taken, negative, same, text] using number

/-! ### Strings -/

theorem hexDigit?_digitChar {d : Nat} (h : d < 16) : hexDigit? (Nat.digitChar d) = some d := by
  have all : ∀ d < 16, hexDigit? (Nat.digitChar d) = some d := by decide
  exact all d h

theorem escapeChar_spelled (c : Char) : ∃ u, (∀ us cs, Spelled us cs →
    Spelled (u :: us) (escapeChar c ++ cs)) ∧ ∀ us, spell (u :: us) = (spell us).map (c :: ·) := by
  have spelled : ∀ us, spell (.char c :: us) = (spell us).map (c :: ·) := fun _ => rfl
  unfold escapeChar
  split
  next h => subst h; exact ⟨.char _, fun _ _ => .short rfl, spelled⟩
  split
  next h => subst h; exact ⟨.char _, fun _ _ => .short rfl, spelled⟩
  split
  next h => subst h; exact ⟨.char _, fun _ _ => .short rfl, spelled⟩
  split
  next h => subst h; exact ⟨.char _, fun _ _ => .short rfl, spelled⟩
  split
  next h => subst h; exact ⟨.char _, fun _ _ => .short rfl, spelled⟩
  split
  next h =>
    have same : c = '\x08' := Char.toNat_inj.mp h
    subst same
    exact ⟨.char _, fun _ _ => .short rfl, spelled⟩
  split
  next h =>
    have same : c = '\x0c' := Char.toNat_inj.mp h
    subst same
    exact ⟨.char _, fun _ _ => .short rfl, spelled⟩
  split
  next control =>
    refine ⟨.code c.toNat, fun us cs => .hex ?_, fun us => ?_⟩
    · have high := hexDigit?_digitChar (show c.toNat / 16 < 16 by omega)
      have low := hexDigit?_digitChar (show c.toNat % 16 < 16 by omega)
      have zero : hexDigit? '0' = some 0 := by decide
      have sum : c.toNat / 16 * 16 + c.toNat % 16 = c.toNat := Nat.div_add_mod' _ _
      simp [hexQuad?, hexDigit, high, low, zero, sum]
    · have lead : isLeading c.toNat = false := by simp [isLeading]; omega
      have trail : isTrailing c.toNat = false := by simp [isTrailing]; omega
      rw [spell.eq_def]
      simp [lead, trail, Char.ofNat_toNat]
  next quote slash _ _ _ _ _ control =>
    exact ⟨.char c, fun _ _ => .plain quote slash (by omega), spelled⟩

theorem escape_spelled (cs : List Char) :
    ∃ us, Spelled us (cs.flatMap escapeChar) ∧ spell us = some cs := by
  induction cs with
  | nil => exact ⟨[], .nil, rfl⟩
  | cons c cs ih =>
    obtain ⟨us, spelled, spells⟩ := ih
    obtain ⟨u, step, unit⟩ := escapeChar_spelled c
    exact ⟨u :: us, step us _ spelled, by rw [unit, spells, Option.map_some]⟩

theorem written_string (s : String) : Written (.string s) (quote s) := by
  obtain ⟨us, spelled, spells⟩ := escape_spelled s.toList
  have written := Written.string spelled
  rwa [stringOf, spelling, spells, Option.map_some, Option.map_some, Option.getD_some,
    String.ofList_toList] at written

theorem writtenName_quote (name : String) : WrittenName (some name) (quote name) := by
  obtain ⟨us, spelled, spells⟩ := escape_spelled name.toList
  have written : WrittenName _ ([] ++ '"' :: (name.toList.flatMap escapeChar ++ '"' :: [])) :=
    .mk (by simp) spelled (by simp)
  rwa [spelling, spells, Option.map_some, String.ofList_toList] at written

/-! ### Values -/

mutual

theorem written_text : (j : Json) → j.exact = true → Written j j.text
  | .null, _ => .null
  | .bool true, _ => .true
  | .bool false, _ => .false
  | .int n, h => by
    simp only [exact, Bool.and_eq_true, decide_eq_true_eq] at h
    exact written_int h.1 h.2
  | .string s, _ => written_string s
  | .array [], _ => .noItems (by simp [itemsText])
  | .array (item :: rest), h => .array (writtenItems_text (item :: rest) (by simp) h)
  | .object [], _ => .noMembers (by simp [membersText])
  | .object (first :: rest), h => .object (writtenMembers_text (first :: rest) (by simp) h)
  | .float _, h | .unreadable _, h => by simp [exact] at h

theorem writtenItems_text : (items : List Json) → items ≠ [] → exactItems items = true →
    WrittenItems items (itemsText items)
  | [item], _, h => by
    simp only [exactItems, Bool.and_eq_true] at h
    exact .last (written_text item h.1)
  | item :: next :: rest, _, h => by
    rw [exactItems, Bool.and_eq_true] at h
    exact .more (written_text item h.1) (writtenItems_text (next :: rest) (by simp) h.2)

theorem writtenMembers_text : (members : List (String × Json)) → members ≠ [] →
    exactMembers members = true → WrittenMembers (.object members) (membersText members)
  | [(name, value)], _, h => by
    simp only [exactMembers, Bool.and_eq_true] at h
    exact .last (writtenName_quote name) (written_text value h.1)
  | (name, value) :: next :: rest, _, h => by
    rw [exactMembers, Bool.and_eq_true] at h
    exact .more (writtenName_quote name) (written_text value h.1)
      (writtenMembers_text (next :: rest) (by simp) h.2)

end

/-! ### Nesting -/

mutual

def nesting : Json → Nat
  | .array items => nestingItems items + 1
  | .object members => nestingMembers members + 1
  | _ => 0

def nestingItems : List Json → Nat
  | [] => 0
  | item :: rest => max item.nesting (nestingItems rest)

def nestingMembers : List (String × Json) → Nat
  | [] => 0
  | (_, value) :: rest => max value.nesting (nestingMembers rest)

end

mutual

theorem cut_eq_self : (n : Nat) → (j : Json) → j.nesting ≤ n → j.cut n = j
  | n, .null, _ | n, .bool _, _ | n, .int _, _ | n, .float _, _ | n, .string _, _
  | n, .unreadable _, _ => by cases n <;> rfl
  | n + 1, .array items, h => by
    rw [nesting] at h
    rw [cut, cutItems_eq_self n items (by omega)]
  | n + 1, .object members, h => by
    rw [nesting] at h
    rw [cut, cutMembers_eq_self n members (by omega)]

theorem cutItems_eq_self : (n : Nat) → (items : List Json) → nestingItems items ≤ n →
    cutItems n items = items
  | _, [], _ => rfl
  | n, item :: rest, h => by
    rw [nestingItems] at h
    rw [cutItems, cut_eq_self n item (by omega), cutItems_eq_self n rest (by omega)]

theorem cutMembers_eq_self : (n : Nat) → (members : List (String × Json)) →
    nestingMembers members ≤ n → cutMembers n members = members
  | _, [], _ => rfl
  | n, (name, value) :: rest, h => by
    rw [nestingMembers] at h
    rw [cutMembers, cut_eq_self n value (by omega), cutMembers_eq_self n rest (by omega)]

end

end Backend.Json
