/-!
Tables keyed by name. A table keeps its names in order of first arrival: writing a known name
replaces the value where it stands, writing a new name appends.
-/

namespace Backend

structure Table (α : Type) where
  entries : List (String × α) := []

namespace Table

variable {α : Type}

def lookup (key : String) : List (String × α) → Option α
  | [] => none
  | entry :: rest => if entry.1 = key then some entry.2 else lookup key rest

def find? (t : Table α) (key : String) : Option α := lookup key t.entries

def contains (t : Table α) (key : String) : Bool := (t.find? key).isSome

def keys (t : Table α) : List String := t.entries.map Prod.fst

def values (t : Table α) : List α := t.entries.map Prod.snd

def size (t : Table α) : Nat := t.entries.length

def insertEntry (key : String) (value : α) : List (String × α) → List (String × α)
  | [] => [(key, value)]
  | entry :: rest =>
    if entry.1 = key then (key, value) :: rest else entry :: insertEntry key value rest

def insert (t : Table α) (key : String) (value : α) : Table α :=
  ⟨insertEntry key value t.entries⟩

def insertNew (t : Table α) (key : String) (value : α) : Table α :=
  if t.contains key then t else t.insert key value

def erase (t : Table α) (key : String) : Table α := ⟨t.entries.filter fun e => e.1 ≠ key⟩

def ofList (entries : List (String × α)) : Table α :=
  entries.foldl (fun t e => t.insert e.1 e.2) {}

/-! ### What a write does to the view -/

theorem lookup_insertEntry (key k : String) (v : α) (es : List (String × α)) :
    lookup k (insertEntry key v es) = if key = k then some v else lookup k es := by
  induction es with
  | nil => simp [insertEntry, lookup]
  | cons e rest ih =>
    by_cases he : e.1 = key
    · by_cases h : key = k <;> simp [insertEntry, lookup, he, h]
    · by_cases h : e.1 = k
      · have hk : key ≠ k := fun hk => he (h.trans hk.symm)
        simp [insertEntry, lookup, h, hk, hk.symm]
      · simp [insertEntry, lookup, he, h, ih]

@[simp] theorem find?_insert (t : Table α) (key k : String) (v : α) :
    (t.insert key v).find? k = if key = k then some v else t.find? k :=
  lookup_insertEntry key k v t.entries

@[simp] theorem find?_empty (k : String) : ({} : Table α).find? k = none := rfl

theorem keys_insertEntry (key : String) (v : α) (es : List (String × α)) :
    (insertEntry key v es).map Prod.fst =
      if key ∈ es.map Prod.fst then es.map Prod.fst else es.map Prod.fst ++ [key] := by
  induction es with
  | nil => simp [insertEntry]
  | cons e rest ih =>
    by_cases he : e.1 = key
    · simp [insertEntry, he]
    · have hk : key ≠ e.1 := fun h => he h.symm
      by_cases hm : key ∈ rest.map Prod.fst <;>
        simp only [insertEntry, if_neg he, List.map_cons, ih, List.mem_cons, hm, hk, or_true,
          or_false, if_true, if_false, List.cons_append]

/-- A known name keeps its place and a new one goes last. -/
theorem keys_insert (t : Table α) (key : String) (v : α) :
    (t.insert key v).keys = if key ∈ t.keys then t.keys else t.keys ++ [key] :=
  keys_insertEntry key v t.entries

/-- A value that is found is one of the entries. -/
theorem mem_of_lookup {key : String} {v : α} {es : List (String × α)} (h : lookup key es = some v) :
    (key, v) ∈ es := by
  induction es with
  | nil => cases h
  | cons e rest ih =>
    rw [lookup] at h
    split at h
    case isTrue same =>
      obtain ⟨k, w⟩ := e
      cases h
      cases same
      exact List.mem_cons_self
    case isFalse => exact List.mem_cons_of_mem e (ih h)

theorem mem_values_of_find? {t : Table α} {key : String} {v : α} (h : t.find? key = some v) :
    v ∈ t.values :=
  List.mem_map.mpr ⟨(key, v), mem_of_lookup h, rfl⟩

theorem mem_insertEntry {key : String} {v : α} {es : List (String × α)} {e : String × α}
    (h : e ∈ insertEntry key v es) : e = (key, v) ∨ e ∈ es := by
  induction es with
  | nil => exact .inl (List.mem_singleton.mp h)
  | cons first rest ih =>
    rw [insertEntry] at h
    split at h
    case isTrue => exact (List.mem_cons.mp h).imp_right (List.mem_cons_of_mem first)
    case isFalse =>
      rcases List.mem_cons.mp h with rfl | h
      · exact .inr List.mem_cons_self
      · exact (ih h).imp_right (List.mem_cons_of_mem first)

theorem mem_values_insert {t : Table α} {key : String} {v w : α}
    (h : w ∈ (t.insert key v).values) : w = v ∨ w ∈ t.values := by
  obtain ⟨e, member, rfl⟩ := List.mem_map.mp h
  rcases mem_insertEntry member with rfl | member
  · exact .inl rfl
  · exact .inr (List.mem_map_of_mem member)

/-! ### Tables made from a list -/

theorem mem_values_foldl_insert {es : List (String × α)} {t : Table α} {v : α}
    (h : v ∈ (es.foldl (fun t e => t.insert e.1 e.2) t).values) :
    v ∈ es.map Prod.snd ∨ v ∈ t.values := by
  induction es generalizing t with
  | nil => exact .inr h
  | cons e rest ih =>
    rcases ih h with later | here
    · exact .inl (List.mem_cons_of_mem e.2 later)
    · rcases mem_values_insert here with rfl | given
      · exact .inl List.mem_cons_self
      · exact .inr given

theorem find?_foldl_insert (key : String) (es : List (String × α)) (t : Table α) :
    (es.foldl (fun t e => t.insert e.1 e.2) t).find? key =
      ((ofList es).find? key).or (t.find? key) := by
  rw [ofList]
  induction es generalizing t with
  | nil => rfl
  | cons e rest ih =>
    rw [List.foldl_cons, List.foldl_cons, ih, ih (t := ({} : Table α).insert e.1 e.2), find?_insert,
      find?_insert, Option.or_assoc]
    by_cases same : e.1 = key <;> simp [same]

/-- The last entry of a name counts. -/
theorem find?_ofList_cons (key : String) (e : String × α) (es : List (String × α)) :
    (ofList (e :: es)).find? key =
      ((ofList es).find? key).or (if e.1 = key then some e.2 else none) := by
  rw [ofList, List.foldl_cons, find?_foldl_insert, find?_insert, find?_empty]

theorem mem_of_find?_ofList {key : String} {v : α} {es : List (String × α)}
    (h : (ofList es).find? key = some v) : (key, v) ∈ es := by
  induction es with
  | nil => cases h
  | cons e rest ih =>
    rw [find?_ofList_cons] at h
    rcases Option.or_eq_some_iff.mp h with h | ⟨-, h⟩
    · exact List.mem_cons_of_mem e (ih h)
    · split at h
      case isTrue same =>
        obtain ⟨k, w⟩ := e
        cases h
        cases same
        exact List.mem_cons_self
      case isFalse => cases h

theorem not_mem_of_find?_ofList {key : String} {es : List (String × α)}
    (h : (ofList es).find? key = none) : key ∉ es.map Prod.fst := by
  induction es with
  | nil => exact List.not_mem_nil
  | cons e rest ih =>
    rw [find?_ofList_cons, Option.or_eq_none_iff] at h
    obtain ⟨later, here⟩ := h
    intro member
    rcases List.mem_cons.mp member with rfl | member
    · simp at here
    · exact ih later member

end Table

end Backend
