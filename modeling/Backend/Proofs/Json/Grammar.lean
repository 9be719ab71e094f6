import Backend.Json.Reader
import Mathlib.Data.List.Basic

/-!
The grammar of JSON as a relation between values and texts, with blanks, escapes and every way to
write a number. The reader is complete for it: `Written.parse?` says that each text of a value
reads as that value. The compact text of an exact value is one of its texts.
-/

namespace Backend.Json

/-! ### Blanks -/

theorem skipBlank_cons {c : Char} (h : isBlank c = true) (cs : List Char) :
    skipBlank (c :: cs) = skipBlank cs := by
  rw [skipBlank, List.dropWhile_cons_of_pos h, skipBlank]

theorem skipBlank_cons_of_not {c : Char} (h : isBlank c = false) (cs : List Char) :
    skipBlank (c :: cs) = c :: cs := by
  rw [skipBlank, List.dropWhile_cons_of_neg (by simp [h])]

theorem skipBlank_append {blanks : List Char} (h : ∀ c ∈ blanks, isBlank c = true)
    (cs : List Char) : skipBlank (blanks ++ cs) = skipBlank cs :=
  List.dropWhile_append_of_pos h

/-! ### Numbers -/

def IsDigits (ds : List Nat) : Prop := ds ≠ [] ∧ ∀ d ∈ ds, d < 10

def digitsText (ds : List Nat) : List Char := ds.map Nat.digitChar

inductive FractionText : List Nat → List Char → Prop where
  | absent : FractionText [] []
  | present {ds : List Nat} (h : IsDigits ds) : FractionText ds ('.' :: digitsText ds)

inductive ExponentText : Option (Bool × List Nat) → List Char → Prop where
  | absent : ExponentText none []
  | unsigned {mark : Char} {ds : List Nat} (hm : mark = 'e' ∨ mark = 'E') (h : IsDigits ds) :
      ExponentText (some (false, ds)) (mark :: digitsText ds)
  | signed {mark : Char} {ds : List Nat} (negative : Bool) (hm : mark = 'e' ∨ mark = 'E')
      (h : IsDigits ds) :
      ExponentText (some (negative, ds))
        (mark :: (if negative then '-' else '+') :: digitsText ds)

/-- A sign, digits that do not start with a needless zero, a fraction and an exponent. -/
inductive NumeralText : Numeral → List Char → Prop where
  | mk {negative : Bool} {whole frac : List Nat} {exp : Option (Bool × List Nat)}
      {fs es : List Char} (hw : IsDigits whole) (lead : ∀ d ds, whole ≠ 0 :: d :: ds)
      (hf : FractionText frac fs) (he : ExponentText exp es) :
      NumeralText { negative, whole, fraction := frac, exponent := exp }
        ((if negative then ['-'] else []) ++ (digitsText whole ++ (fs ++ es)))

/-- What a number stands for; one beyond the doubles is kept as its text. -/
def Numeral.json (n : Numeral) (cs : List Char) : Json :=
  n.value?.getD (.unreadable (String.ofList cs))

def EndsNumber (cs : List Char) : Prop :=
  ∀ c ∈ cs.head?, digit? c = none ∧ c ≠ '.' ∧ c ≠ 'e' ∧ c ≠ 'E'

theorem digit?_digitChar {d : Nat} (h : d < 10) : digit? (Nat.digitChar d) = some d := by
  have all : ∀ d < 10, digit? (Nat.digitChar d) = some d := by decide
  exact all d h

theorem digits_digitsText {ds : List Nat} (h : ∀ d ∈ ds, d < 10) {rest : List Char}
    (stop : ∀ c ∈ rest.head?, digit? c = none) : digits (digitsText ds ++ rest) = (ds, rest) := by
  induction ds with
  | nil =>
    cases rest with
    | nil => rfl
    | cons c cs =>
      have hc : digit? c = none := stop c rfl
      simp [digitsText, digits, hc]
  | cons d ds ih =>
    have hd := digit?_digitChar (h d List.mem_cons_self)
    have tail := ih fun d' h' => h d' (List.mem_cons_of_mem _ h')
    rw [digitsText] at tail
    simp [digitsText, digits, hd, tail]

theorem wholePart_digitsText {ds : List Nat} (h : IsDigits ds) (lead : ∀ d ds', ds ≠ 0 :: d :: ds')
    {rest : List Char} (stop : ∀ c ∈ rest.head?, digit? c = none) :
    wholePart (digitsText ds ++ rest) = some (ds, rest) := by
  rw [wholePart, digits_digitsText h.2 stop]
  split
  next heq => simp_all [IsDigits]
  next heq => simp_all
  next => rfl

theorem FractionText.read {ds : List Nat} {fs : List Char} (h : FractionText ds fs)
    {rest : List Char} (stop : ∀ c ∈ rest.head?, digit? c = none ∧ c ≠ '.') :
    fraction (fs ++ rest) = some (ds, rest) := by
  cases h with
  | absent =>
    rw [List.nil_append]
    unfold fraction
    split
    next => exact absurd rfl (stop '.' rfl).2
    next => rfl
  | present h =>
    rw [List.cons_append]
    simp only [fraction, digits_digitsText h.2 fun c hc => (stop c hc).1]
    cases ds with
    | nil => exact absurd rfl h.1
    | cons d ds => rfl

theorem exponentDigits_digitsText {ds : List Nat} (h : IsDigits ds) (negative : Bool)
    {rest : List Char} (stop : ∀ c ∈ rest.head?, digit? c = none) :
    exponentDigits negative (digitsText ds ++ rest) = some (some (negative, ds), rest) := by
  rw [exponentDigits, digits_digitsText h.2 stop]
  cases ds with
  | nil => exact absurd rfl h.1
  | cons d ds => rfl

theorem digitChar_ne_sign {d : Nat} (h : d < 10) :
    Nat.digitChar d ≠ '+' ∧ Nat.digitChar d ≠ '-' := by
  have all : ∀ d < 10, Nat.digitChar d ≠ '+' ∧ Nat.digitChar d ≠ '-' := by decide
  exact all d h

theorem ExponentText.read {exp : Option (Bool × List Nat)} {es : List Char}
    (h : ExponentText exp es) {rest : List Char} (stop : EndsNumber rest) :
    exponent (es ++ rest) = some (exp, rest) := by
  have digitless : ∀ c ∈ rest.head?, digit? c = none := fun c hc => (stop c hc).1
  cases h with
  | absent =>
    cases rest with
    | nil => rfl
    | cons c cs =>
      obtain ⟨-, -, small, capital⟩ := stop c rfl
      simp [exponent, small, capital]
  | @unsigned mark ds hm h =>
    have read := exponentDigits_digitsText h false digitless
    cases ds with
    | nil => exact absurd rfl h.1
    | cons d ds =>
      obtain ⟨plus, minus⟩ := digitChar_ne_sign (h.2 d List.mem_cons_self)
      rw [digitsText, List.map_cons, List.cons_append] at read ⊢
      simp only [List.cons_append, exponent, if_pos hm]
      split
      next heq => exact absurd (List.cons.inj heq).1 plus
      next heq => exact absurd (List.cons.inj heq).1 minus
      next => exact read
  | @signed mark ds negative hm h =>
    have read := exponentDigits_digitsText h negative digitless
    cases negative <;> simpa [exponent, if_pos hm] using read

theorem ExponentText.head {exp : Option (Bool × List Nat)} {es : List Char}
    (h : ExponentText exp es) {rest : List Char} (stop : EndsNumber rest) :
    ∀ c ∈ (es ++ rest).head?, digit? c = none ∧ c ≠ '.' := by
  cases h with
  | absent => exact fun c hc => ⟨(stop c hc).1, (stop c hc).2.1⟩
  | unsigned hm _ | signed _ hm _ =>
    rintro c ⟨⟩
    rcases hm with rfl | rfl <;> decide

theorem FractionText.head {ds : List Nat} {fs : List Char} (h : FractionText ds fs)
    {rest : List Char} (stop : ∀ c ∈ rest.head?, digit? c = none) :
    ∀ c ∈ (fs ++ rest).head?, digit? c = none := by
  cases h with
  | absent => exact stop
  | present _ =>
    rintro c ⟨⟩
    decide

theorem digitsText_eq_cons {ds : List Nat} (h : IsDigits ds) :
    ∃ d cs, d < 10 ∧ digitsText ds = Nat.digitChar d :: cs := by
  cases ds with
  | nil => exact absurd rfl h.1
  | cons d ds => exact ⟨d, digitsText ds, h.2 d List.mem_cons_self, rfl⟩

theorem number_signed (negative : Bool) {body : List Char} (h : ∀ c ∈ body.head?, c ≠ '-') :
    number ((if negative then ['-'] else []) ++ body) =
      (wholePart body).bind fun (whole, afterWhole) =>
        (fraction afterWhole).bind fun (frac, afterFraction) =>
          (exponent afterFraction).bind fun (exp, rest) =>
            match Numeral.value? { negative, whole, fraction := frac, exponent := exp } with
            | some v => some (v, rest)
            | none =>
              let cs := (if negative then ['-'] else []) ++ body
              some (.unreadable (String.ofList (cs.take (cs.length - rest.length))), rest) := by
  cases negative with
  | true => rfl
  | false =>
    cases body with
    | nil => rfl
    | cons c cs =>
      have minus : c ≠ '-' := h c rfl
      simp only [Bool.false_eq_true, if_false, List.nil_append, number]
      split
      next heq => exact absurd (List.cons.inj heq).1 minus
      next => rfl

theorem NumeralText.read {n : Numeral} {cs : List Char} (h : NumeralText n cs) {rest : List Char}
    (stop : EndsNumber rest) : number (cs ++ rest) = some (n.json cs, rest) := by
  obtain @⟨negative, whole, frac, exp, fs, es, hw, lead, hf, he⟩ := h
  have exponentRead := he.read stop
  have fractionRead := hf.read (he.head stop)
  have wholeRead := wholePart_digitsText hw lead (hf.head fun c hc => (he.head stop c hc).1)
  have unsigned : ∀ c ∈ (digitsText whole ++ (fs ++ (es ++ rest))).head?, c ≠ '-' := by
    obtain ⟨d, tail, hd, text⟩ := digitsText_eq_cons hw
    rw [text]
    rintro c ⟨⟩
    exact (digitChar_ne_sign hd).2
  have whole_text : ((if negative then ['-'] else []) ++ (digitsText whole ++ (fs ++ es))) ++ rest
      = (if negative then ['-'] else []) ++ (digitsText whole ++ (fs ++ (es ++ rest))) := by simp
  rw [whole_text, number_signed negative unsigned, wholeRead, Option.bind_some]
  simp only [fractionRead, exponentRead, Option.bind_some]
  rw [← whole_text, List.length_append, Nat.add_sub_cancel, List.take_left, Numeral.json]
  split
  next v heq => rw [heq, Option.getD_some]
  next heq => rw [heq, Option.getD_none]

/-! ### Strings -/

/-- The units of a string and their text up to the closing quote. -/
inductive Spelled : List Unit16 → List Char → Prop where
  | nil : Spelled [] []
  | plain {c : Char} {us : List Unit16} {cs : List Char} (quote : c ≠ '"') (slash : c ≠ '\\')
      (control : 32 ≤ c.toNat) (h : Spelled us cs) : Spelled (.char c :: us) (c :: cs)
  | short {e c : Char} {us : List Unit16} {cs : List Char} (he : simpleEscape? e = some c)
      (h : Spelled us cs) : Spelled (.char c :: us) ('\\' :: e :: cs)
  | hex {a b c d : Char} {n : Nat} {us : List Unit16} {cs : List Char}
      (hq : hexQuad? a b c d = some n) (h : Spelled us cs) :
      Spelled (.code n :: us) ('\\' :: 'u' :: a :: b :: c :: d :: cs)

def spelling (us : List Unit16) : Option String := (spell us).map String.ofList

def stringOf (us : List Unit16) : Json :=
  ((spelling us).map Json.string).getD (.unreadable "\"\"")

theorem units_short {e c : Char} (he : simpleEscape? e = some c) (cs : List Char) :
    units ('\\' :: e :: cs) = (units cs).bind fun (us, rest) => some (.char c :: us, rest) := by
  have letter : e ≠ 'u' := by
    rintro rfl
    simp [simpleEscape?] at he
  rw [units.eq_def]
  split
  next heq => simp at heq
  next heq => exact absurd (List.cons.inj heq).1 (by decide)
  next heq => exact absurd (List.cons.inj (List.cons.inj heq).2).1 letter
  next heq =>
    obtain ⟨-, heq⟩ := List.cons.inj heq
    obtain ⟨rfl, rfl⟩ := List.cons.inj heq
    simp [he]
  next other heq => exact absurd heq (by grind)

theorem units_plain {c : Char} (quote : c ≠ '"') (slash : c ≠ '\\') (control : 32 ≤ c.toNat)
    (cs : List Char) :
    units (c :: cs) = (units cs).bind fun (us, rest) => some (.char c :: us, rest) := by
  rw [units.eq_def]
  split
  next heq => simp at heq
  next heq => exact absurd (List.cons.inj heq).1 quote
  next heq => exact absurd (List.cons.inj heq).1 slash
  next heq => exact absurd (List.cons.inj heq).1 slash
  next heq =>
    obtain ⟨rfl, rfl⟩ := List.cons.inj heq
    rw [if_neg (by simp only [slash, false_or]; omega)]
    rfl

theorem Spelled.units {us : List Unit16} {cs : List Char} (h : Spelled us cs) (rest : List Char) :
    Json.units (cs ++ '"' :: rest) = some (us, rest) := by
  induction h with
  | nil => simp [Json.units]
  | plain quote slash control _ ih => simp [units_plain quote slash control, ih]
  | short he _ ih => simp [units_short he, ih]
  | hex hq _ ih => simp [Json.units, hq, ih]

theorem Spelled.stringBody {us : List Unit16} {cs : List Char} (h : Spelled us cs)
    (rest : List Char) : Json.stringBody (cs ++ '"' :: rest) = some (spelling us, rest) := by
  simp [Json.stringBody, h.units, spelling]

/-! ### Values -/

/-- A name in its quotes, with blanks around it. -/
inductive WrittenName : Option String → List Char → Prop where
  | mk {us : List Unit16} {before cs after : List Char} (hb : ∀ c ∈ before, isBlank c = true)
      (h : Spelled us cs) (ha : ∀ c ∈ after, isBlank c = true) :
      WrittenName (spelling us) (before ++ '"' :: (cs ++ '"' :: after))

mutual

/-- `cs` is a text of the value `j`. -/
inductive Written : Json → List Char → Prop where
  | blankBefore {c : Char} {j : Json} {cs : List Char} (hc : isBlank c = true)
      (h : Written j cs) : Written j (c :: cs)
  | blankAfter {c : Char} {j : Json} {cs : List Char} (hc : isBlank c = true)
      (h : Written j cs) : Written j (cs ++ [c])
  | null : Written .null ['n', 'u', 'l', 'l']
  | true : Written (.bool true) ['t', 'r', 'u', 'e']
  | false : Written (.bool false) ['f', 'a', 'l', 's', 'e']
  | number {n : Numeral} {cs : List Char} (h : NumeralText n cs) : Written (n.json cs) cs
  | string {us : List Unit16} {cs : List Char} (h : Spelled us cs) :
      Written (stringOf us) ('"' :: (cs ++ ['"']))
  | noItems {cs : List Char} (h : ∀ c ∈ cs, isBlank c = true) :
      Written (.array []) ('[' :: (cs ++ [']']))
  | array {js : List Json} {cs : List Char} (h : WrittenItems js cs) :
      Written (.array js) ('[' :: (cs ++ [']']))
  | noMembers {cs : List Char} (h : ∀ c ∈ cs, isBlank c = true) :
      Written (.object []) ('\x7b' :: (cs ++ ['\x7d']))
  | object {j : Json} {cs : List Char} (h : WrittenMembers j cs) :
      Written j ('\x7b' :: (cs ++ ['\x7d']))

inductive WrittenItems : List Json → List Char → Prop where
  | last {j : Json} {cs : List Char} (h : Written j cs) : WrittenItems [j] cs
  | more {j : Json} {js : List Json} {cs rest : List Char} (h : Written j cs)
      (hs : WrittenItems js rest) : WrittenItems (j :: js) (cs ++ ',' :: rest)

/-- The members of an object. One whose names cannot all be spelled is no object. -/
inductive WrittenMembers : Json → List Char → Prop where
  | last {name : Option String} {j : Json} {ns cs : List Char} (hn : WrittenName name ns)
      (h : Written j cs) : WrittenMembers (consMember name j (.object [])) (ns ++ ':' :: cs)
  | more {name : Option String} {j more : Json} {ns cs rest : List Char}
      (hn : WrittenName name ns) (h : Written j cs) (hs : WrittenMembers more rest) :
      WrittenMembers (consMember name j more) (ns ++ ':' :: (cs ++ ',' :: rest))

end

theorem isBlank_cases {c : Char} (h : isBlank c = true) :
    c = ' ' ∨ c = '\t' ∨ c = '\n' ∨ c = '\r' := by
  simpa [isBlank, or_assoc] using h

theorem endsNumber_blank {c : Char} (h : isBlank c = true) (cs : List Char) :
    EndsNumber (c :: cs) := by
  rintro _ ⟨⟩
  rcases isBlank_cases h with rfl | rfl | rfl | rfl <;> decide

theorem endsNumber_cons {c : Char} (h : c = ',' ∨ c = ']' ∨ c = '\x7d') (cs : List Char) :
    EndsNumber (c :: cs) := by
  rintro _ ⟨⟩
  rcases h with rfl | rfl | rfl <;> decide

theorem skipBlank_skipBlank (cs : List Char) : skipBlank (skipBlank cs) = skipBlank cs := by
  induction cs with
  | nil => rfl
  | cons c cs ih =>
    cases h : isBlank c with
    | true => rw [skipBlank_cons h, ih]
    | false => rw [skipBlank_cons_of_not h, skipBlank_cons_of_not h]

theorem value_skipBlank (n : Nat) (cs : List Char) : value n (skipBlank cs) = value n cs := by
  cases n with
  | zero => rfl
  | succ n => rw [value, skipBlank_skipBlank, value]

theorem items_skipBlank (n : Nat) (cs : List Char) : items n (skipBlank cs) = items n cs := by
  cases n with
  | zero => rfl
  | succ n => rw [items, value_skipBlank, items]

theorem members_skipBlank (n : Nat) (cs : List Char) :
    members n (skipBlank cs) = members n cs := by
  cases n with
  | zero => rfl
  | succ n => rw [members, skipBlank_skipBlank, members]

theorem items_close (n : Nat) (cs : List Char) : items n (']' :: cs) = none := by
  cases n with
  | zero => rfl
  | succ n =>
    cases n with
    | zero => rfl
    | succ n => rfl

theorem members_close (n : Nat) (cs : List Char) : members n ('\x7d' :: cs) = none := by
  cases n with
  | zero => rfl
  | succ n => rfl

theorem value_number (n : Nat) {c : Char}
    (h : c ∈ ['-', '0', '1', '2', '3', '4', '5', '6', '7', '8', '9']) (cs : List Char) :
    value (n + 1) (c :: cs) = number (c :: cs) := by
  simp only [List.mem_cons, List.not_mem_nil, or_false] at h
  rcases h with rfl | rfl | rfl | rfl | rfl | rfl | rfl | rfl | rfl | rfl | rfl <;> rfl

theorem NumeralText.eq_cons {n : Numeral} {cs : List Char} (h : NumeralText n cs) :
    ∃ c tail, c ∈ ['-', '0', '1', '2', '3', '4', '5', '6', '7', '8', '9'] ∧ cs = c :: tail := by
  obtain @⟨negative, whole, frac, exp, fs, es, hw, -, -, -⟩ := h
  cases negative with
  | true => exact ⟨'-', _, by decide, rfl⟩
  | false =>
    obtain ⟨d, tail, hd, text⟩ := digitsText_eq_cons hw
    have all : ∀ d < 10,
        Nat.digitChar d ∈ ['-', '0', '1', '2', '3', '4', '5', '6', '7', '8', '9'] := by decide
    exact ⟨Nat.digitChar d, tail ++ (fs ++ es), all d hd, by simp [text]⟩

theorem value_string (n : Nat) {us : List Unit16} {cs : List Char} (h : Spelled us cs)
    (rest : List Char) :
    value (n + 1) ('"' :: (cs ++ '"' :: rest)) = some (stringOf us, rest) := by
  rw [value, skipBlank_cons_of_not (by decide)]
  simp [h.stringBody, stringOf]

theorem value_bracket (n : Nat) (cs : List Char) :
    value (n + 1) ('[' :: cs) =
      match skipBlank cs with
      | ']' :: rest => some (.array [], rest)
      | rest => (items n rest).bind fun (js, rest) => some (.array js, rest) := rfl

theorem value_brace (n : Nat) (cs : List Char) :
    value (n + 1) ('\x7b' :: cs) =
      match skipBlank cs with
      | '\x7d' :: rest => some (.object [], rest)
      | rest => members n rest := rfl

theorem value_noItems (n : Nat) {cs : List Char} (h : ∀ c ∈ cs, isBlank c = true)
    (rest : List Char) : value (n + 1) ('[' :: (cs ++ ']' :: rest)) = some (.array [], rest) := by
  rw [value_bracket, skipBlank_append h, skipBlank_cons_of_not (by decide)]
  rfl

theorem value_noMembers (n : Nat) {cs : List Char} (h : ∀ c ∈ cs, isBlank c = true)
    (rest : List Char) :
    value (n + 1) ('\x7b' :: (cs ++ '\x7d' :: rest)) = some (.object [], rest) := by
  rw [value_brace, skipBlank_append h, skipBlank_cons_of_not (by decide)]
  rfl

theorem value_items {n : Nat} {cs rest : List Char} {js : List Json}
    (h : items n cs = some (js, rest)) : value (n + 1) ('[' :: cs) = some (.array js, rest) := by
  rw [← items_skipBlank] at h
  rw [value_bracket]
  split
  next heq => rw [heq, items_close] at h; cases h
  next => rw [h, Option.bind_some]

theorem value_members {n : Nat} {cs rest : List Char} {j : Json}
    (h : members n cs = some (j, rest)) : value (n + 1) ('\x7b' :: cs) = some (j, rest) := by
  rw [← members_skipBlank] at h
  rw [value_brace]
  split
  next heq => rw [heq, members_close] at h; cases h
  next => exact h

theorem members_name {name : Option String} {ns : List Char} (h : WrittenName name ns) (n : Nat)
    (cs : List Char) :
    members (n + 1) (ns ++ ':' :: cs) = (value n cs).bind fun (v, rest) =>
      match skipBlank rest with
      | ',' :: rest => (members n rest).bind fun (more, rest) =>
        some (consMember name v more, rest)
      | '\x7d' :: rest => some (consMember name v (.object []), rest)
      | _ => none := by
  obtain @⟨us, before, body, after, hb, h, ha⟩ := h
  rw [members, List.append_assoc, skipBlank_append hb, List.cons_append,
    skipBlank_cons_of_not (by decide), List.append_assoc, List.cons_append]
  simp only [h.stringBody, Option.bind_eq_bind, Option.bind_some, skipBlank_append ha]
  rw [skipBlank_cons_of_not (by decide)]
  rfl

mutual

theorem Written.read : {j : Json} → {cs : List Char} → Written j cs → ∀ (rest : List Char)
    (fuel : Nat), EndsNumber rest → 2 * cs.length + 1 ≤ fuel →
    ∃ left, value fuel (cs ++ rest) = some (j, left) ∧ skipBlank left = skipBlank rest
  | _, _, .blankBefore hc h, rest, fuel, stop, enough => by
    obtain ⟨left, read, blank⟩ := h.read rest fuel stop (by simp at enough; omega)
    rw [List.cons_append, ← value_skipBlank, skipBlank_cons hc, value_skipBlank]
    exact ⟨left, read, blank⟩
  | _, _, .blankAfter hc h, rest, fuel, stop, enough => by
    obtain ⟨left, read, blank⟩ :=
      h.read (_ :: rest) fuel (endsNumber_blank hc rest) (by simp at enough; omega)
    rw [List.append_assoc]
    exact ⟨left, read, by rw [blank, skipBlank_cons hc]⟩
  | _, _, .null, rest, fuel + 1, _, _ => ⟨rest, rfl, rfl⟩
  | _, _, .true, rest, fuel + 1, _, _ => ⟨rest, rfl, rfl⟩
  | _, _, .false, rest, fuel + 1, _, _ => ⟨rest, rfl, rfl⟩
  | _, _, .number h, rest, fuel + 1, stop, _ => by
    have read := h.read stop
    obtain ⟨c, tail, hc, rfl⟩ := h.eq_cons
    rw [List.cons_append, value_number fuel hc]
    exact ⟨rest, read, rfl⟩
  | _, _, .string h, rest, fuel + 1, _, _ =>
    ⟨rest, by simpa using value_string fuel h rest, rfl⟩
  | _, _, .noItems h, rest, fuel + 1, _, _ =>
    ⟨rest, by simpa using value_noItems fuel h rest, rfl⟩
  | _, _, .array h, rest, fuel + 1, _, enough => by
    have read := h.read rest fuel (by simp at enough; omega)
    exact ⟨rest, by simpa using value_items read, rfl⟩
  | _, _, .noMembers h, rest, fuel + 1, _, _ =>
    ⟨rest, by simpa using value_noMembers fuel h rest, rfl⟩
  | _, _, .object h, rest, fuel + 1, _, enough => by
    have read := h.read rest fuel (by simp at enough; omega)
    exact ⟨rest, by simpa using value_members read, rfl⟩

theorem WrittenItems.read : {js : List Json} → {cs : List Char} → WrittenItems js cs →
    ∀ (rest : List Char) (fuel : Nat), 2 * cs.length + 2 ≤ fuel →
    items fuel (cs ++ ']' :: rest) = some (js, rest)
  | _, _, .last h, rest, fuel + 1, enough => by
    obtain ⟨left, read, blank⟩ :=
      h.read (']' :: rest) fuel (endsNumber_cons (by simp) rest) (by omega)
    rw [skipBlank_cons_of_not (by decide)] at blank
    simp [items, read, blank]
  | _, _, @WrittenItems.more _ _ _ ms h hs, rest, fuel + 1, enough => by
    simp only [List.length_append, List.length_cons] at enough
    obtain ⟨left, read, blank⟩ :=
      h.read (',' :: (ms ++ ']' :: rest)) fuel (endsNumber_cons (.inl rfl) _) (by omega)
    have tail := hs.read rest fuel (by omega)
    rw [skipBlank_cons_of_not (by decide)] at blank
    rw [List.append_assoc, List.cons_append]
    simp [items, read, blank, tail]

theorem WrittenMembers.read : {j : Json} → {cs : List Char} → WrittenMembers j cs →
    ∀ (rest : List Char) (fuel : Nat), 2 * cs.length + 2 ≤ fuel →
    members fuel (cs ++ '\x7d' :: rest) = some (j, rest)
  | _, _, .last hn h, rest, fuel + 1, enough => by
    simp only [List.length_append, List.length_cons] at enough
    obtain ⟨left, read, blank⟩ :=
      h.read ('\x7d' :: rest) fuel (endsNumber_cons (by simp) rest) (by omega)
    rw [skipBlank_cons_of_not (by decide)] at blank
    rw [List.append_assoc, List.cons_append, members_name hn]
    simp [read, blank]
  | _, _, @WrittenMembers.more _ _ _ _ _ ms hn h hs, rest, fuel + 1, enough => by
    simp only [List.length_append, List.length_cons] at enough
    obtain ⟨left, read, blank⟩ :=
      h.read (',' :: (ms ++ '\x7d' :: rest)) fuel (endsNumber_cons (.inl rfl) _) (by omega)
    have tail := hs.read rest fuel (by omega)
    rw [skipBlank_cons_of_not (by decide)] at blank
    rw [List.append_assoc, List.cons_append, members_name hn, List.append_assoc,
      List.cons_append]
    simp [read, blank, tail]

end

theorem Written.parse? {j : Json} {cs : List Char} (h : Written j cs) :
    Json.parse? (String.ofList cs) = some j := by
  obtain ⟨left, read, blank⟩ :=
    h.read [] (2 * cs.length + 2) (by rintro c ⟨⟩) (by omega)
  rw [List.append_nil] at read
  simp only [Json.parse?, String.toList_ofList, read, blank]
  rfl

end Backend.Json
