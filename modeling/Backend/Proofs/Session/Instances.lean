import Backend.Instance.Table

/-!
How the record of instances changes. Names are never taken out, and an instance that has been begun
is not begun again.
-/

namespace Backend

theorem Table.contains_iff {α : Type} {t : Table α} {key : String} :
    t.contains key = true ↔ ∃ v, t.find? key = some v := Option.isSome_iff_exists

theorem Table.contains_insert {α : Type} {t : Table α} {key other : String} {v : α}
    (h : t.contains key = true) : (t.insert other v).contains key = true := by
  rw [Table.contains, Table.find?_insert]
  split
  · rfl
  · exact h

theorem Table.contains_insert_self {α : Type} (t : Table α) (key : String) (v : α) :
    (t.insert key v).contains key = true := by
  rw [Table.contains, Table.find?_insert, if_pos rfl]
  rfl

namespace InstanceTable

variable {t : InstanceTable} {base name n : String} {args : List TypeRef}

def Started (t : InstanceTable) (name : String) : Prop :=
  ∃ r, t.find? name = some r ∧ r.state ≠ .requested

theorem Started.contains (h : t.Started n) : t.contains n = true :=
  have ⟨r, found, _⟩ := h
  Table.contains_iff.mpr ⟨r, found⟩

theorem begin_cases (t : InstanceTable) (base : String) (args : List TypeRef) (name : String) :
    (∃ state, begin t base args name = (.existing state, t) ∧ t.Started name) ∨
      ∃ r, begin t base args name = (.fresh, t.insert name r) ∧ ¬ t.Started name ∧
        r.state = .inProgress := by
  unfold begin
  cases found : t.find? name with
  | none =>
    refine .inr ⟨_, rfl, ?_, rfl⟩
    rintro ⟨r, found', -⟩
    cases found.symm.trans found'
  | some r =>
    by_cases waits : r.state = .requested
    · refine .inr ⟨{ r with state := .inProgress }, by simp [waits], ?_, rfl⟩
      rintro ⟨r', found', begun⟩
      obtain rfl := Option.some.inj (found.symm.trans found')
      exact begun waits
    · exact .inl ⟨r.state, by simp [waits], r, found, waits⟩

theorem begin_existing {state : InstanceState} (h : (begin t base args name).1 = .existing state) :
    (begin t base args name).2 = t := by
  rcases begin_cases t base args name with ⟨_, same, -⟩ | ⟨_, same, -⟩
  · rw [same]
  · rw [same] at h
    cases h

theorem not_started_of_fresh (h : (begin t base args name).1 = .fresh) : ¬ t.Started name := by
  rcases begin_cases t base args name with ⟨_, same, -⟩ | ⟨_, -, idle, -⟩
  · rw [same] at h
    cases h
  · exact idle

theorem contains_begin (h : t.contains n = true) : (begin t base args name).2.contains n = true := by
  rcases begin_cases t base args name with ⟨_, same, -⟩ | ⟨_, same, -⟩
  · rw [same]
    exact h
  · rw [same]
    exact Table.contains_insert h

theorem started_insert {r : InstanceRecord} (begun : r.state ≠ .requested) (h : t.Started n) :
    Started (t.insert name r) n := by
  obtain ⟨r', found, begun'⟩ := h
  by_cases same : name = n
  · exact ⟨r, by rw [Table.find?_insert, if_pos same], begun⟩
  · exact ⟨r', by rw [Table.find?_insert, if_neg same, found], begun'⟩

theorem started_begin (h : t.Started n) : Started (begin t base args name).2 n := by
  rcases begin_cases t base args name with ⟨_, same, -⟩ | ⟨r, same, -, begun⟩
  · rw [same]
    exact h
  · rw [same]
    exact started_insert (by rw [begun]; decide) h

theorem started_of_begin (t : InstanceTable) (base : String) (args : List TypeRef)
    (name : String) : Started (begin t base args name).2 name := by
  rcases begin_cases t base args name with ⟨_, same, begun⟩ | ⟨r, same, -, begun⟩
  · rw [same]
    exact begun
  · rw [same]
    exact ⟨r, by rw [Table.find?_insert, if_pos rfl], by rw [begun]; decide⟩

theorem contains_request (h : t.contains n = true) :
    (request t base args name).2.contains n = true := by
  unfold request
  split
  · exact h
  · exact Table.contains_insert h

theorem started_request (h : t.Started n) : Started (request t base args name).2 n := by
  unfold request
  split
  · exact h
  case isFalse absent =>
    obtain ⟨r, found, begun⟩ := h
    have other : name ≠ n := by
      rintro rfl
      exact absent (Table.contains_iff.mpr ⟨r, found⟩)
    exact ⟨r, by rw [Table.find?_insert, if_neg other, found], begun⟩

theorem contains_complete (h : t.contains n = true) : (complete t name).contains n = true := by
  unfold complete
  split
  · exact h
  · exact Table.contains_insert h

theorem started_complete (h : t.Started n) : Started (complete t name) n := by
  unfold complete
  split
  · exact h
  · exact started_insert InstanceState.noConfusion h

end InstanceTable

end Backend
