import Backend.Json.Record
import Backend.Proofs.Json.Compact
import Mathlib.Data.List.Forall2
import Mathlib.Data.List.Nodup
import Mathlib.Data.List.Perm.Basic

/-!
Values that say the same. A form tells which objects are records and what stands for a field that
is left out. A variation of a value writes the members of its records in another order, leaves out
fields that have their default and adds members that the record does not know. The record reader
does not see the difference: of each field it finds either a variation of the value or nothing, and
then the value was the default (`Varies.record_read`).
-/

namespace Backend.Json

/-- The form of a value. Forms that contain themselves go through a name of type `κ`. -/
inductive Form (κ : Type) where
  /-- Written in one way only. -/
  | plain
  | list (item : Form κ)
  /-- Null or a value of the form. -/
  | nullable (value : Form κ)
  /-- For each field its name, the value it has when it is left out, and its form. -/
  | record (fields : List (String × Option Json × Form κ))
  /-- A tag with a body, whose form depends on the tag. -/
  | variants (bodies : List (String × Form κ))
  | of (kind : κ)

section

variable {κ : Type} (forms : κ → Form κ)

mutual

/-- `j'` is a variation of `j` as a value of the form `f`. -/
inductive Varies : Form κ → Json → Json → Prop where
  | same {f : Form κ} {j : Json} : Varies f j j
  | present {f : Form κ} {j j' : Json} (h : Varies f j j') : Varies (.nullable f) j j'
  | list {f : Form κ} {js js' : List Json} (h : VariesAll f js js') :
      Varies (.list f) (.array js) (.array js')
  | record {fields : List (String × Option Json × Form κ)}
      {ms kept added ms' : List (String × Json)} (h : Kept fields ms kept)
      (unknown : ∀ m ∈ added, m.1 ∉ fields.map Prod.fst) (order : ms'.Perm (kept ++ added)) :
      Varies (.record fields) (.object ms) (.object ms')
  | variant {bodies : List (String × Form κ)} {tag : String} {f : Form κ} {j j' : Json}
      (ht : bodies.lookup tag = some f) (h : Varies f j j') :
      Varies (.variants bodies) (.object [(tag, j)]) (.object [(tag, j')])
  | of {k : κ} {j j' : Json} (h : Varies (forms k) j j') : Varies (.of k) j j'

inductive VariesAll : Form κ → List Json → List Json → Prop where
  | nil {f : Form κ} : VariesAll f [] []
  | cons {f : Form κ} {j j' : Json} {js js' : List Json} (h : Varies f j j')
      (hs : VariesAll f js js') : VariesAll f (j :: js) (j' :: js')

/-- The fields that are still written. One with its default may be left out. -/
inductive Kept : List (String × Option Json × Form κ) → List (String × Json) →
    List (String × Json) → Prop where
  | nil : Kept [] [] []
  | keep {name : String} {d : Option Json} {f : Form κ} {j j' : Json}
      {fields : List (String × Option Json × Form κ)} {ms kept : List (String × Json)}
      (h : Varies f j j') (hs : Kept fields ms kept) :
      Kept ((name, d, f) :: fields) ((name, j) :: ms) ((name, j') :: kept)
  | drop {name : String} {f : Form κ} {j : Json}
      {fields : List (String × Option Json × Form κ)} {ms kept : List (String × Json)}
      (hs : Kept fields ms kept) :
      Kept ((name, some j, f) :: fields) ((name, j) :: ms) kept

end

variable {forms}

/-! ### Variations below a depth -/

theorem VariesAll.forall₂ : {f : Form κ} → {js js' : List Json} → VariesAll forms f js js' →
    List.Forall₂ (Varies forms f) js js'
  | _, _, _, .nil => .nil
  | _, _, _, .cons h hs => .cons h hs.forall₂

theorem cutMembers_eq_map (n : Nat) (members : List (String × Json)) :
    cutMembers n members = members.map fun m => (m.1, m.2.cut n) := by
  induction members with
  | nil => rfl
  | cons m rest ih => rw [cutMembers, ih, List.map_cons]

mutual

theorem Varies.cut : {f : Form κ} → {j j' : Json} → Varies forms f j j' → (n : Nat) →
    j.nesting ≤ n → Varies forms f j (j'.cut n)
  | _, j, _, .same, n, deep => by
    rw [cut_eq_self n j deep]
    exact .same
  | _, _, _, .present h, n, deep => .present (h.cut n deep)
  | _, _, _, .list h, n + 1, deep => by
    rw [nesting] at deep
    exact .list (h.cut n (by omega))
  | _, _, _, @Varies.record _ _ fields _ kept added ms' h unknown order, n + 1, deep => by
    rw [nesting] at deep
    have unknown' : ∀ m ∈ cutMembers n added, m.1 ∉ fields.map Prod.fst := by
      intro m hm
      rw [cutMembers_eq_map] at hm
      obtain ⟨m₀, h₀, rfl⟩ := List.mem_map.mp hm
      exact unknown m₀ h₀
    have order' : (cutMembers n ms').Perm (cutMembers n kept ++ cutMembers n added) := by
      rw [cutMembers_eq_map, cutMembers_eq_map, cutMembers_eq_map, ← List.map_append]
      exact order.map _
    exact .record (h.cut n (by omega)) unknown' order'
  | _, _, _, .variant ht h, n + 1, deep => by
    simp only [nesting, nestingMembers] at deep
    exact .variant ht (h.cut n (by omega))
  | _, _, _, .of h, n, deep => .of (h.cut n deep)

theorem VariesAll.cut : {f : Form κ} → {js js' : List Json} → VariesAll forms f js js' →
    (n : Nat) → nestingItems js ≤ n → VariesAll forms f js (cutItems n js')
  | _, _, _, .nil, _, _ => .nil
  | _, _, _, .cons h hs, n, deep => by
    rw [nestingItems] at deep
    exact .cons (h.cut n (by omega)) (hs.cut n (by omega))

theorem Kept.cut : {fields : List (String × Option Json × Form κ)} →
    {ms kept : List (String × Json)} → Kept forms fields ms kept → (n : Nat) →
    nestingMembers ms ≤ n → Kept forms fields ms (cutMembers n kept)
  | _, _, _, .nil, _, _ => .nil
  | _, _, _, .keep h hs, n, deep => by
    rw [nestingMembers] at deep
    exact .keep (h.cut n (by omega)) (hs.cut n (by omega))
  | _, _, _, .drop hs, n, deep => by
    rw [nestingMembers] at deep
    exact .drop (hs.cut n (by omega))

end

/-! ### Reading records -/

theorem bind_ok {α β : Type} {x : Read α} {a : α} {f : α → Read β} {y : Read β} (h : x = .ok a)
    (hf : f a = y) : (x >>= f) = y := by
  rw [h]
  exact hf

theorem firstRepeated?_eq_none {names : List String} (h : names.Nodup) :
    firstRepeated? names = none := by
  induction names with
  | nil => rfl
  | cons n ns ih =>
    obtain ⟨fresh, rest⟩ := List.nodup_cons.mp h
    rw [firstRepeated?, if_neg fresh, ih rest]

theorem lookup_perm {r r' : List (String × Json)} (h : r.Perm r') :
    (r.map Prod.fst).Nodup → ∀ name, r.lookup name = r'.lookup name := by
  induction h with
  | nil => exact fun _ _ => rfl
  | cons m _ ih =>
    intro distinct name
    rw [List.lookup_cons, List.lookup_cons, ih (List.nodup_cons.mp distinct).2]
  | swap a b r =>
    intro distinct name
    have differ : b.1 ≠ a.1 := fun same =>
      (List.nodup_cons.mp distinct).1 (by rw [same]; exact List.mem_cons_self)
    rw [List.lookup_cons, List.lookup_cons, List.lookup_cons, List.lookup_cons]
    by_cases first : name = a.1
    · have second : (name == b.1) = false := by simp [first, differ.symm]
      rw [second]
    · rw [beq_eq_false_iff_ne.mpr first]
  | trans h _ ih ih' =>
    intro distinct name
    rw [ih distinct, ih' ((h.map Prod.fst).nodup_iff.mp distinct)]

theorem Kept.sublist : {fields : List (String × Option Json × Form κ)} →
    {ms kept : List (String × Json)} → Kept forms fields ms kept →
    (kept.map Prod.fst).Sublist (fields.map Prod.fst)
  | _, _, _, .nil => .slnil
  | _, _, _, .keep _ hs => hs.sublist.cons_cons _
  | _, _, _, .drop hs => hs.sublist.cons _

theorem kept_same {fields : List (String × Option Json × Form κ)} {ms : List (String × Json)}
    (h : ms.map Prod.fst = fields.map Prod.fst) : Kept forms fields ms ms := by
  induction fields generalizing ms with
  | nil =>
    rw [List.map_eq_nil_iff.mp h]
    exact .nil
  | cons field fields ih =>
    obtain ⟨m, rest, rfl, hm, hs⟩ := List.map_eq_cons_iff.mp h
    obtain ⟨name, j⟩ := m
    obtain rfl : name = field.1 := hm
    exact .keep .same (ih hs)

variable (forms) (n : Nat)

/-- A record has a variation of the field's value, or the value is the default and the field is
left out. The value nests at most `n` deep. -/
def Carries (r : Record) (field : String × Option Json × Form κ) (j : Json) : Prop :=
  j.nesting ≤ n ∧ ((∃ j', r.lookup field.1 = some j' ∧ Varies forms field.2.2 j j') ∨
    field.2.1 = some j ∧ r.lookup field.1 = none)

def CarriesAll (r : Record) : List (String × Option Json × Form κ) → List (String × Json) → Prop
  | field :: fields, m :: ms => Carries forms n r field m.2 ∧ CarriesAll r fields ms
  | _, _ => True

variable {forms} {n}

theorem Kept.carries {r : Record} {fields : List (String × Option Json × Form κ)}
    {ms kept : List (String × Json)} (written : Kept forms fields ms kept)
    (distinct : (fields.map Prod.fst).Nodup)
    (agree : ∀ field ∈ fields, r.lookup field.1 = kept.lookup field.1)
    (deep : nestingMembers ms ≤ n) : CarriesAll forms n r fields ms := by
  cases written with
  | nil => trivial
  | @keep name d f j j' fields ms kept h hs =>
    rw [nestingMembers] at deep
    obtain ⟨fresh, rest⟩ := List.nodup_cons.mp distinct
    have here := agree _ List.mem_cons_self
    have agree' : ∀ field ∈ fields, r.lookup field.1 = kept.lookup field.1 := by
      intro field member
      have other : field.1 ≠ name := by
        intro same
        have known : field.1 ∈ fields.map Prod.fst := List.mem_map_of_mem member
        exact fresh (same ▸ known)
      rw [agree field (List.mem_cons_of_mem _ member), List.lookup_cons,
        beq_eq_false_iff_ne.mpr other]
    exact ⟨⟨show j.nesting ≤ n by omega, .inl ⟨j', by rw [here]; simp, h⟩⟩,
      hs.carries rest agree' (by omega)⟩
  | @drop name f j fields ms kept hs =>
    rw [nestingMembers] at deep
    obtain ⟨fresh, rest⟩ := List.nodup_cons.mp distinct
    have absent : kept.lookup name = none := by
      rw [List.lookup_eq_none_iff]
      intro m hm
      have known := hs.sublist.subset (List.mem_map_of_mem hm)
      simp only [bne_iff_ne]
      rintro rfl
      exact fresh known
    have agree' : ∀ field ∈ fields, r.lookup field.1 = kept.lookup field.1 := fun field member =>
      agree field (List.mem_cons_of_mem _ member)
    exact ⟨⟨show j.nesting ≤ n by omega, .inr ⟨rfl, (agree _ List.mem_cons_self).trans absent⟩⟩,
      hs.carries rest agree' (by omega)⟩

theorem Varies.record_read {fields : List (String × Option Json × Form κ)}
    {ms : List (String × Json)} {j' : Json} (h : Varies forms (.record fields) (.object ms) j')
    (hm : ms.map Prod.fst = fields.map Prod.fst) (distinct : (fields.map Prod.fst).Nodup)
    (deep : nestingMembers ms ≤ n) :
    ∃ r, Json.record (fields.map Prod.fst) j' = .ok r ∧ CarriesAll forms n r fields ms := by
  obtain ⟨kept, added, ms', hk, unknown, order, rfl⟩ : ∃ kept added ms',
      Kept forms fields ms kept ∧ (∀ m ∈ added, m.1 ∉ fields.map Prod.fst) ∧
      ms'.Perm (kept ++ added) ∧ j' = .object ms' := by
    cases h with
    | same => exact ⟨ms, [], ms, kept_same hm, by simp, by simp, rfl⟩
    | record h unknown order => exact ⟨_, _, _, h, unknown, order, rfl⟩
  -- the known members are those that were kept
  have keeps : kept.filter (fun m => m.1 ∈ fields.map Prod.fst) = kept :=
    List.filter_eq_self.mpr fun m hm =>
      decide_eq_true (hk.sublist.subset (List.mem_map_of_mem hm))
  have drops : added.filter (fun m => m.1 ∈ fields.map Prod.fst) = [] :=
    List.filter_eq_nil_iff.mpr fun m hm => by simpa using unknown m hm
  have known : (ms'.filter fun m => m.1 ∈ fields.map Prod.fst).Perm kept := by
    have filtered := order.filter fun m => decide (m.1 ∈ fields.map Prod.fst)
    rwa [List.filter_append, keeps, drops, List.append_nil] at filtered
  have once := ((known.map Prod.fst).nodup_iff).mpr (hk.sublist.nodup distinct)
  refine ⟨_, ?_, hk.carries distinct (fun field _ => lookup_perm known once field.1) deep⟩
  simp only [Json.record, firstRepeated?_eq_none once]

theorem Varies.variant_cases {bodies : List (String × Form κ)} {tag : String} {f : Form κ}
    {j j' : Json} (h : Varies forms (.variants bodies) (.object [(tag, j)]) j')
    (ht : bodies.lookup tag = some f) :
    ∃ body, j' = .object [(tag, body)] ∧ Varies forms f j body := by
  cases h with
  | same => exact ⟨j, rfl, .same⟩
  | variant ht' h =>
    rw [ht] at ht'
    cases ht'
    exact ⟨_, rfl, h⟩

theorem Varies.list_cases {f : Form κ} {js : List Json} {j' : Json}
    (h : Varies forms (.list f) (.array js) j') :
    ∃ js', j' = .array js' ∧ List.Forall₂ (Varies forms f) js js' := by
  cases h with
  | same => exact ⟨js, rfl, List.forall₂_same.mpr fun _ _ => .same⟩
  | list h => exact ⟨_, rfl, h.forall₂⟩

theorem Varies.of_nullable {f : Form κ} {j j' : Json} (h : Varies forms (.nullable f) j j') :
    Varies forms f j j' := by
  cases h with
  | same => exact .same
  | present h => exact h

theorem Varies.null_iff : {f : Form κ} → {j j' : Json} → Varies forms f j j' →
    (j' = .null ↔ j = .null)
  | _, _, _, .same => Iff.rfl
  | _, _, _, .present h => h.null_iff
  | _, _, _, .of h => h.null_iff
  | _, _, _, .list _ | _, _, _, .record _ _ _ | _, _, _, .variant _ _ => by simp

section

variable {α β : Type}

variable (forms) (n) in
/-- The reader takes every variation of `j` to `a`, if `j` nests at most `n` deep. -/
def Decodes (f : Form κ) (read : Json → Read α) (j : Json) (a : α) : Prop :=
  j.nesting ≤ n → ∀ j', Varies forms f j j' → read j' = .ok a

variable {f : Form κ} {read : Json → Read α} {j : Json} {a : α}

theorem Decodes.mono {k : Nat} (h : Decodes forms n f read j a) (le : k ≤ n) :
    Decodes forms k f read j a :=
  fun deep => h (Nat.le_trans deep le)

theorem Decodes.zero {ms : List (String × Json)} : Decodes forms 0 f read (.object ms) a :=
  fun deep => absurd deep (by simp [nesting])

theorem Decodes.plain (h : read j = .ok a) : Decodes forms n .plain read j a := by
  rintro - _ ⟨⟩
  exact h

theorem Decodes.of {k : κ} (h : Decodes forms n (forms k) read j a) :
    Decodes forms n (.of k) read j a := by
  intro deep j' varies
  cases varies with
  | same => exact h deep j .same
  | of varies => exact h deep j' varies

theorem Decodes.list {js : List Json} {as : List α}
    (h : List.Forall₂ (Decodes forms n f read) js as) :
    Decodes forms n (.list f) (readList read) (.array js) as := by
  intro deep j' varies
  obtain ⟨js', rfl, hs⟩ := varies.list_cases
  rw [nesting] at deep
  clear varies
  rw [readList]
  induction h generalizing js' with
  | nil =>
    cases hs
    rfl
  | cons first _ ih =>
    rw [nestingItems] at deep
    cases hs with
    | cons h hs =>
      rw [List.mapM_cons]
      exact bind_ok (first (by omega) _ h) (bind_ok (ih (by omega) _ hs) rfl)

theorem Decodes.record {fields : List (String × Option Json × Form κ)}
    {ms : List (String × Json)} (names : List String) (hn : fields.map Prod.fst = names)
    (hm : ms.map Prod.fst = names) (distinct : names.Nodup)
    (h : ∀ j r, Json.record names j = .ok r → CarriesAll forms n r fields ms → read j = .ok a) :
    Decodes forms (n + 1) (.record fields) read (.object ms) a := by
  subst hn
  intro deep j' varies
  rw [nesting] at deep
  obtain ⟨r, known, carries⟩ := varies.record_read hm distinct (Nat.le_of_succ_le_succ deep)
  exact h j' r known carries

theorem Decodes.variant {bodies : List (String × Form κ)} {tag : String} {b : β}
    {readBody : Json → Read β} (ht : bodies.lookup tag = some f)
    (inner : Decodes forms n f readBody j b)
    (h : ∀ body, readBody body = .ok b → read (.object [(tag, body)]) = .ok a) :
    Decodes forms (n + 1) (.variants bodies) read (.object [(tag, j)]) a := by
  intro deep j' varies
  simp only [nesting, nestingMembers] at deep
  obtain ⟨body, rfl, vb⟩ := varies.variant_cases ht
  exact h body (inner (by omega) body vb)

theorem Decodes.variantRecord {bodies : List (String × Form κ)} {tag : String}
    {fields : List (String × Option Json × Form κ)} {ms : List (String × Json)}
    (names : List String) (ht : bodies.lookup tag = some (.record fields))
    (hn : fields.map Prod.fst = names) (hm : ms.map Prod.fst = names) (distinct : names.Nodup)
    (h : ∀ body r, Json.record names body = .ok r → CarriesAll forms n r fields ms →
      read (.object [(tag, body)]) = .ok a) :
    Decodes forms (n + 1) (.variants bodies) read (.object [(tag, .object ms)]) a := by
  subst hn
  intro deep j' varies
  simp only [nesting, nestingMembers] at deep
  obtain ⟨body, rfl, vb⟩ := varies.variant_cases ht
  obtain ⟨r, known, carries⟩ := vb.record_read hm distinct (n := n) (by omega)
  exact h body r known carries

variable {r : Record} {name : String}

theorem Carries.required (c : Carries forms n r (name, none, f) j)
    (h : Decodes forms n f read j a) : r.required name read = .ok a := by
  obtain ⟨deep, ⟨j', found, varies⟩ | ⟨missing, -⟩⟩ := c
  · rw [Record.required, found]
    exact h deep j' varies
  · cases missing

theorem Carries.defaulted {d : Json} {default : α} (c : Carries forms n r (name, some d, f) j)
    (h : Decodes forms n f read j a) (same : j = d → a = default) :
    r.defaulted name default read = .ok a := by
  obtain ⟨deep, ⟨j', found, varies⟩ | ⟨missing, absent⟩⟩ := c
  · rw [Record.defaulted, found]
    exact h deep j' varies
  · rw [Record.defaulted, absent, same (Option.some.inj missing).symm]

theorem Carries.nullable_none (c : Carries forms n r (name, some .null, .nullable f) .null) :
    r.nullable name read = .ok none := by
  obtain ⟨-, ⟨j', found, varies⟩ | ⟨-, absent⟩⟩ := c
  · rw [Record.nullable, found, varies.null_iff.mpr rfl]
  · rw [Record.nullable, absent]

theorem Carries.nullable_some (c : Carries forms n r (name, some .null, .nullable f) j)
    (h : Decodes forms n f read j a) (notNull : j ≠ .null) :
    r.nullable name read = .ok (some a) := by
  obtain ⟨deep, ⟨j', found, varies⟩ | ⟨missing, -⟩⟩ := c
  · have written : j' ≠ .null := fun null => notNull (varies.null_iff.mp null)
    have read := h deep j' varies.of_nullable
    rw [Record.nullable, found]
    simp [read, Except.map]
  · exact absurd (Option.some.inj missing).symm notNull

theorem Carries.nullable {o : Option α} {write : α → Json}
    (c : Carries forms n r (name, some .null, .nullable f) ((o.map write).getD .null))
    (h : ∀ a, o = some a → write a ≠ .null ∧ Decodes forms n f read (write a) a) :
    r.nullable name read = .ok o := by
  cases o with
  | none => exact c.nullable_none
  | some a => exact c.nullable_some (h a rfl).2 (h a rfl).1

end

end

end Backend.Json
