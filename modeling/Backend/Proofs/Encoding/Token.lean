import Mathlib.Data.List.Forall2
import Mathlib.Data.List.Infix
import Mathlib.Data.String.Basic
import Mathlib.Tactic.Common
import Mathlib.Tactic.FinCases
import Backend.Symbol

/-!
Tokens of an encoded type. The encoding of a type is a list of tokens, each behind an underscore.
Main statement: `spell_injective`, the tokens can be read off their text, as long as no name begins
with a digit. A name with a length in front may hold underscores, so the text cannot be split at
them; what follows a token begins with an underscore, and that ends a word or a number.
-/

namespace Backend

variable {cs qs rest rs : List Char} {m n : Nat}

/-- What stands behind a type that is wrapped, and behind a variadic function. -/
inductive Mark where
  | ptr
  | arr (length : Nat)
  | va
  deriving DecidableEq

inductive Token where
  | primitive (p : Primitive)
  | name (clean : String)
  | tuple (n : Nat)
  | function (n : Nat)
  | ret
  | opening
  | closing
  | mark (m : Mark)
  deriving DecidableEq

namespace Token

open Backend.Symbol

def text : Token → String
  | .primitive p => primitiveToken p
  | .name clean => if isPlain clean then clean else toString clean.utf8ByteSize ++ clean
  | .tuple n => s!"tup{n}"
  | .function n => s!"fn{n}"
  | .ret => "ret"
  | .opening => "T"
  | .closing => "E"
  | .mark .ptr => "ptr"
  | .mark (.arr d) => s!"arr_{d}_"
  | .mark .va => "va"

def spell (ts : List Token) : String := joined (ts.map text)

/-- The token has a text of its own: a string is written as a pointer, and a name that begins with a
digit runs into its length. -/
def Readable : Token → Prop
  | .primitive p => p ≠ .string
  | .name clean => ∀ c ∈ clean.toList.head?, isAsciiDigit c = false
  | _ => True

/-! ### Classes of characters -/

def isWordChar (c : Char) : Bool := isAsciiLetter c || isAsciiDigit c

def isWord (cs : List Char) : Bool := cs.head?.any isAsciiLetter && cs.all isWordChar

theorem isWord_append {ds : List Char} (hc : isWord cs = true) (hd : ∀ d ∈ ds, isAsciiDigit d) :
    isWord (cs ++ ds) = true := by
  simp only [isWord, Bool.and_eq_true, List.all_append] at hc ⊢
  obtain ⟨first, all⟩ := hc
  have digits : ds.all isWordChar = true :=
    List.all_eq_true.mpr fun d member => by rw [isWordChar, hd d member, Bool.or_true]
  cases cs with
  | nil => cases first
  | cons c cs => exact ⟨first, all, digits⟩

theorem split_of_all {α : Type} {p : α → Bool} {xs ys rs qs : List α} (hx : ∀ c ∈ xs, p c)
    (hy : ∀ c ∈ ys, p c) (hr : ∀ c ∈ rs.head?, p c = false) (hq : ∀ c ∈ qs.head?, p c = false)
    (h : xs ++ rs = ys ++ qs) : xs = ys ∧ rs = qs := by
  rcases List.append_eq_append_iff.mp h with ⟨as, rfl, rfl⟩ | ⟨as, rfl, rfl⟩
  · cases as with
    | nil => simp
    | cons a as =>
      have inside := hy a (by simp)
      have outside := hr a rfl
      simp_all
  · cases as with
    | nil => simp
    | cons a as =>
      have inside := hx a (by simp)
      have outside := hq a rfl
      simp_all

def Boundary (rest : List Char) : Prop := ∀ c ∈ rest.head?, c = '_'

theorem boundary_cons (rest : List Char) : Boundary ('_' :: rest) := by
  intro c first
  cases first
  rfl

theorem Boundary.not_digit (h : Boundary rest) : ∀ c ∈ rest.head?, isAsciiDigit c = false := by
  intro c first
  rw [h c first]
  decide

theorem Boundary.not_wordChar (h : Boundary rest) : ∀ c ∈ rest.head?, isWordChar c = false := by
  intro c first
  rw [h c first]
  decide

theorem digits_all (n : Nat) : ∀ c ∈ (toString n).toList, isAsciiDigit c := by
  intro c member
  rw [Nat.toString_eq_repr, Nat.toList_repr] at member
  exact Nat.isDigit_of_mem_toDigits (by decide) (by decide) member

theorem toString_injective (h : (toString m).toList = (toString n).toList) : m = n := by
  simp only [Nat.toString_eq_repr, Nat.toList_repr] at h
  rw [← @Nat.ofDigitChars_ten_toDigits m, h, Nat.ofDigitChars_ten_toDigits]

theorem split_number (hr : ∀ c ∈ rs.head?, isAsciiDigit c = false)
    (hq : ∀ c ∈ qs.head?, isAsciiDigit c = false)
    (h : (toString m).toList ++ rs = (toString n).toList ++ qs) : m = n ∧ rs = qs := by
  obtain ⟨same, rest⟩ := split_of_all (digits_all m) (digits_all n) hr hq h
  exact ⟨toString_injective same, rest⟩

theorem split_sized {c d : String} (hc : (name c).Readable) (hd : (name d).Readable)
    (hr : Boundary rs) (hq : Boundary qs)
    (h : (toString c.utf8ByteSize ++ c).toList ++ rs = (toString d.utf8ByteSize ++ d).toList ++ qs) :
    c = d ∧ rs = qs := by
  have noDigit {s : String} {xs : List Char} (readable : (name s).Readable) (hx : Boundary xs) :
      ∀ c ∈ (s.toList ++ xs).head?, isAsciiDigit c = false := by
    intro c first
    cases chars : s.toList with
    | nil =>
      rw [chars] at first
      rw [hx c first]
      decide
    | cons a as =>
      rw [chars] at first
      exact readable c (by rw [chars]; exact first)
  rw [String.toList_append, String.toList_append, List.append_assoc, List.append_assoc] at h
  obtain ⟨size, rest⟩ := split_number (noDigit hc hr) (noDigit hd hq) h
  have emptied {s s' : String} {as : List Char} (longer : s'.toList = s.toList ++ as)
      (same : s'.utf8ByteSize = s.utf8ByteSize) : as = [] := by
    have whole : s' = s ++ String.ofList as := by
      apply String.toList_injective
      rw [longer, String.toList_append, String.toList_ofList]
    rw [whole, String.utf8ByteSize_append] at same
    have empty : (String.ofList as).utf8ByteSize = 0 := by omega
    rw [String.utf8ByteSize_eq_zero_iff] at empty
    simpa using congrArg String.toList empty
  rcases List.append_eq_append_iff.mp rest with ⟨as, longer, tail⟩ | ⟨as, longer, tail⟩
  · obtain rfl := emptied longer size.symm
    exact ⟨String.toList_injective (by simpa using longer.symm), by simpa using tail⟩
  · obtain rfl := emptied longer size
    exact ⟨String.toList_injective (by simpa using longer), by simpa using tail.symm⟩

/-! ### Words -/

/-- What a word can be taken for. -/
inductive WordClass where
  | keyword | tuple | function | primitive | name
  deriving DecidableEq

def wordClass (w : String) : WordClass :=
  if reserved.contains w then .keyword
  else if isCounted ['t', 'u', 'p'] w.toList then .tuple
  else if isCounted ['f', 'n'] w.toList then .function
  else if (Primitive.ofName? w).isSome then .primitive
  else .name

def class? : Token → Option WordClass
  | .primitive _ => some .primitive
  | .name clean => if isPlain clean then some .name else none
  | .tuple _ => some .tuple
  | .function _ => some .function
  | .mark (.arr _) => none
  | _ => some .keyword

theorem isCounted_append (keyword : List Char) (n : Nat) :
    isCounted keyword (keyword ++ (toString n).toList) = true := by
  have digits : (toString n).toList.all isAsciiDigit = true :=
    List.all_eq_true.mpr (digits_all n)
  have nonempty : (toString n).toList.isEmpty = false := by
    rw [Nat.toString_eq_repr, Nat.toList_repr, List.isEmpty_eq_false_iff]
    exact Nat.toDigits_ne_nil
  simp only [isCounted, List.drop_left, digits, nonempty, Bool.not_false, Bool.and_true]
  simp

theorem toList_text_tuple (n : Nat) :
    (tuple n).text.toList = ['t', 'u', 'p'] ++ (toString n).toList := by
  change ("tup" ++ n.repr).toList = _
  simp [String.toList_append]

theorem toList_text_function (n : Nat) :
    (function n).text.toList = ['f', 'n'] ++ (toString n).toList := by
  change ("fn" ++ n.repr).toList = _
  simp [String.toList_append]

theorem toList_text_arr (d : Nat) :
    (mark (.arr d)).text.toList = ['a', 'r', 'r'] ++ '_' :: ((toString d).toList ++ ['_']) := by
  change ("arr_" ++ d.repr ++ "_").toList = _
  simp [String.toList_append]

theorem not_reserved {w : String} (h : w.toList = 't' :: 'u' :: cs ∨ w.toList = 'f' :: 'n' :: cs) :
    reserved.contains w = false := by
  have apart : ∀ r ∈ reserved, r.toList ≠ 't' :: 'u' :: cs ∧ r.toList ≠ 'f' :: 'n' :: cs := by
    intro r member
    fin_cases member <;> simp
  rw [Bool.eq_false_iff]
  intro contained
  obtain ⟨tuple, function⟩ := apart w (List.contains_iff_mem.mp contained)
  rcases h with h | h
  · exact tuple h
  · exact function h

theorem wordClass_text {t : Token} {c : WordClass} (readable : t.Readable)
    (h : t.class? = some c) : wordClass t.text = c := by
  cases t with
  | primitive p =>
    cases h
    cases p <;> first | rfl | exact absurd rfl readable
  | name clean =>
    simp only [class?, Option.ite_none_right_eq_some, Option.some.injEq] at h
    obtain ⟨plain, rfl⟩ := h
    rw [text, if_pos plain]
    simp only [isPlain, Bool.and_eq_true, Bool.not_eq_true', Option.isNone_iff_eq_none] at plain
    obtain ⟨⟨⟨⟨-, notReserved⟩, notTuple⟩, notFunction⟩, notPrimitive⟩ := plain
    simp only [wordClass, notReserved, notTuple, notFunction, notPrimitive, Option.isSome_none,
      Bool.false_eq_true, if_false]
  | tuple n =>
    cases h
    have counted := isCounted_append ['t', 'u', 'p'] n
    rw [← toList_text_tuple] at counted
    rw [wordClass, not_reserved (.inl (toList_text_tuple n)), counted]
    rfl
  | function n =>
    cases h
    have counted := isCounted_append ['f', 'n'] n
    rw [← toList_text_function] at counted
    have notTuple : isCounted ['t', 'u', 'p'] (function n).text.toList = false := by
      rw [toList_text_function]
      rfl
    rw [wordClass, not_reserved (.inr (toList_text_function n)), notTuple, counted]
    rfl
  | ret => cases h; rfl
  | opening => cases h; rfl
  | closing => cases h; rfl
  | mark m =>
    cases m with
    | ptr => cases h; rfl
    | va => cases h; rfl
    | arr d => cases h

theorem primitiveToken_injective {p q : Primitive} (hp : p ≠ .string) (hq : q ≠ .string)
    (h : primitiveToken p = primitiveToken q) : p = q := by
  revert hp hq h
  cases p <;> cases q <;> decide

theorem class?_cases {t : Token} {c : WordClass} (h : t.class? = some c) :
    match c with
    | .keyword => t ∈ [ret, opening, closing, mark .ptr, mark .va]
    | .tuple => ∃ n, t = tuple n
    | .function => ∃ n, t = function n
    | .primitive => ∃ p, t = primitive p
    | .name => ∃ clean, t = name clean ∧ isPlain clean = true := by
  cases t with
  | primitive p => cases h; exact ⟨p, rfl⟩
  | name clean =>
    simp only [class?, Option.ite_none_right_eq_some, Option.some.injEq] at h
    obtain ⟨plain, rfl⟩ := h
    exact ⟨clean, rfl, plain⟩
  | tuple n => cases h; exact ⟨n, rfl⟩
  | function n => cases h; exact ⟨n, rfl⟩
  | ret => cases h; decide
  | opening => cases h; decide
  | closing => cases h; decide
  | mark m =>
    cases m with
    | ptr => cases h; decide
    | va => cases h; decide
    | arr d => cases h

theorem eq_of_text {t u : Token} {c d : WordClass} (ht : t.Readable) (hu : u.Readable)
    (ct : t.class? = some c) (cu : u.class? = some d) (h : t.text = u.text) : t = u := by
  obtain rfl : c = d := by rw [← wordClass_text ht ct, ← wordClass_text hu cu, h]
  have formT := class?_cases ct
  have formU := class?_cases cu
  cases c with
  | keyword =>
    have apart : ∀ t ∈ [ret, opening, closing, mark .ptr, mark .va],
        ∀ u ∈ [ret, opening, closing, mark .ptr, mark .va], t.text = u.text → t = u := by decide
    exact apart t formT u formU h
  | tuple =>
    obtain ⟨m, rfl⟩ := formT
    obtain ⟨n, rfl⟩ := formU
    have chars := congrArg String.toList h
    rw [toList_text_tuple, toList_text_tuple] at chars
    rw [toString_injective (List.append_cancel_left chars)]
  | function =>
    obtain ⟨m, rfl⟩ := formT
    obtain ⟨n, rfl⟩ := formU
    have chars := congrArg String.toList h
    rw [toList_text_function, toList_text_function] at chars
    rw [toString_injective (List.append_cancel_left chars)]
  | primitive =>
    obtain ⟨p, rfl⟩ := formT
    obtain ⟨q, rfl⟩ := formU
    rw [primitiveToken_injective ht hu h]
  | name =>
    obtain ⟨a, rfl, plainA⟩ := formT
    obtain ⟨b, rfl, plainB⟩ := formU
    rw [text, text, if_pos plainA, if_pos plainB] at h
    rw [h]

theorem isWord_text {t : Token} {c : WordClass} (readable : t.Readable) (h : t.class? = some c) :
    isWord t.text.toList = true := by
  have form := class?_cases h
  cases c with
  | keyword =>
    have all : ∀ t ∈ [ret, opening, closing, mark .ptr, mark .va], isWord t.text.toList = true := by
      decide
    exact all t form
  | tuple =>
    obtain ⟨n, rfl⟩ := form
    rw [toList_text_tuple]
    exact isWord_append (by decide) (digits_all n)
  | function =>
    obtain ⟨n, rfl⟩ := form
    rw [toList_text_function]
    exact isWord_append (by decide) (digits_all n)
  | primitive =>
    obtain ⟨p, rfl⟩ := form
    cases p <;> first | rfl | exact absurd rfl readable
  | name =>
    obtain ⟨a, rfl, plain⟩ := form
    rw [text, if_pos plain]
    simp only [isPlain, Bool.and_eq_true] at plain
    exact Bool.and_eq_true_iff.mpr plain.1.1.1.1

theorem isWord.all (h : isWord cs = true) : ∀ c ∈ cs, isWordChar c :=
  List.all_eq_true.mp (Bool.and_eq_true_iff.mp h).2

/-! ### Reading tokens -/

theorem forms (t : Token) :
    (∃ c, t.class? = some c) ∨
    (∃ clean, t = name clean ∧ t.text = toString clean.utf8ByteSize ++ clean) ∨
    ∃ d, t = mark (.arr d) := by
  cases t with
  | name clean =>
    cases plain : isPlain clean with
    | true => exact .inl ⟨.name, by simp [class?, plain]⟩
    | false => exact .inr (.inl ⟨clean, rfl, by simp [text, plain]⟩)
  | mark m =>
    cases m with
    | arr d => exact .inr (.inr ⟨d, rfl⟩)
    | ptr => exact .inl ⟨_, rfl⟩
    | va => exact .inl ⟨_, rfl⟩
  | _ => exact .inl ⟨_, rfl⟩

theorem letter_not_digit {c : Char} (h : isAsciiLetter c = true) : isAsciiDigit c = false := by
  simp only [isAsciiLetter, Bool.or_eq_true, Bool.and_eq_true, decide_eq_true_eq] at h
  rw [Bool.eq_false_iff]
  intro digit
  simp only [isAsciiDigit, Bool.and_eq_true, decide_eq_true_eq] at digit
  rcases h with ⟨low, -⟩ | ⟨low, -⟩
  · exact absurd (low.trans digit.2) (by decide)
  · exact absurd (low.trans digit.2) (by decide)

theorem word_ne_sized {clean : String} (h : isWord cs = true)
    (same : cs ++ rs = (toString clean.utf8ByteSize ++ clean).toList ++ qs) : False := by
  rw [String.toList_append, List.append_assoc] at same
  have digits := digits_all clean.utf8ByteSize
  cases number : (toString clean.utf8ByteSize).toList with
  | nil =>
    rw [Nat.toString_eq_repr, Nat.toList_repr] at number
    exact Nat.toDigits_ne_nil number
  | cons d ds =>
    cases cs with
    | nil => cases h
    | cons c cs =>
      rw [number] at same digits
      obtain ⟨rfl, -⟩ := List.cons.inj same
      have letter : isAsciiLetter c = true := (Bool.and_eq_true_iff.mp h).1
      have digit := digits c List.mem_cons_self
      rw [letter_not_digit letter] at digit
      cases digit

theorem word_ne_arr {t : Token} {c : WordClass} (readable : t.Readable) (h : t.class? = some c)
    (hr : Boundary rs) (same : t.text.toList ++ rs = ['a', 'r', 'r'] ++ '_' :: qs) : False := by
  have arrWord : isWord ['a', 'r', 'r'] = true := by decide
  have split := split_of_all (isWord.all (isWord_text readable h)) (isWord.all arrWord)
    hr.not_wordChar (boundary_cons qs).not_wordChar same
  have arr : t.text = "arr" := String.toList_injective split.1
  have reserved := wordClass_text readable h
  rw [arr] at reserved
  subst reserved
  have none : ∀ t ∈ [ret, opening, closing, mark .ptr, mark .va], t.text ≠ "arr" := by decide
  exact none t (class?_cases h) arr

theorem split_text {t u : Token} (ht : t.Readable) (hu : u.Readable) (hr : Boundary rs)
    (hq : Boundary qs) (h : t.text.toList ++ rs = u.text.toList ++ qs) : t = u ∧ rs = qs := by
  rcases forms t with ⟨c, ct⟩ | ⟨a, rfl, ta⟩ | ⟨d, rfl⟩
  · have wt := isWord_text ht ct
    rcases forms u with ⟨c', cu⟩ | ⟨b, rfl, ub⟩ | ⟨e, rfl⟩
    · have wu := isWord_text hu cu
      obtain ⟨same, rest⟩ := split_of_all (isWord.all wt) (isWord.all wu) hr.not_wordChar
        hq.not_wordChar h
      exact ⟨eq_of_text ht hu ct cu (String.toList_injective same), rest⟩
    · rw [ub] at h
      exact (word_ne_sized wt h).elim
    · rw [toList_text_arr, List.append_assoc] at h
      exact (word_ne_arr ht ct hr h).elim
  · rw [ta] at h
    rcases forms u with ⟨c, cu⟩ | ⟨b, rfl, ub⟩ | ⟨e, rfl⟩
    · exact (word_ne_sized (isWord_text hu cu) h.symm).elim
    · rw [ub] at h
      obtain ⟨rfl, rest⟩ := split_sized ht hu hr hq h
      exact ⟨rfl, rest⟩
    · rw [toList_text_arr, List.append_assoc] at h
      exact (word_ne_sized (show isWord ['a', 'r', 'r'] = true by decide) h.symm).elim
  · rw [toList_text_arr, List.append_assoc] at h
    rcases forms u with ⟨c, cu⟩ | ⟨b, rfl, ub⟩ | ⟨e, rfl⟩
    · exact (word_ne_arr hu cu hq h.symm).elim
    · rw [ub] at h
      exact (word_ne_sized (show isWord ['a', 'r', 'r'] = true by decide) h).elim
    · rw [toList_text_arr, List.append_assoc] at h
      have numbers : (toString d).toList ++ '_' :: rs = (toString e).toList ++ '_' :: qs := by
        simpa using h
      obtain ⟨rfl, rest⟩ := split_number (boundary_cons rs).not_digit (boundary_cons qs).not_digit
        numbers
      exact ⟨rfl, (List.cons.inj rest).2⟩

theorem spell_cons (t : Token) (ts : List Token) :
    (spell (t :: ts)).toList = '_' :: (t.text.toList ++ (spell ts).toList) := by
  simp [spell, joined, String.join_eq, String.toList_append]

theorem boundary_spell (ts : List Token) : Boundary (spell ts).toList := by
  cases ts with
  | nil => intro c first; cases first
  | cons t ts => rw [spell_cons]; exact boundary_cons _

theorem spell_injective {ts us : List Token} (ht : ∀ t ∈ ts, t.Readable)
    (hu : ∀ u ∈ us, u.Readable) (h : spell ts = spell us) : ts = us := by
  have chars := congrArg String.toList h
  clear h
  induction ts generalizing us with
  | nil =>
    cases us with
    | nil => rfl
    | cons u us => rw [spell_cons] at chars; cases chars
  | cons t ts ih =>
    cases us with
    | nil => rw [spell_cons] at chars; cases chars
    | cons u us =>
      rw [spell_cons, spell_cons] at chars
      obtain ⟨ht, hts⟩ := List.forall_mem_cons.mp ht
      obtain ⟨hu, hus⟩ := List.forall_mem_cons.mp hu
      obtain ⟨rfl, rest⟩ := split_text ht hu (boundary_spell ts) (boundary_spell us)
        (List.cons.inj chars).2
      rw [ih hts hus rest]

end Token

end Backend
