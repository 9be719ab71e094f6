import Mathlib.Data.List.Induction
import Backend.Proofs.Session.Instances

/-!
The record of instances over any history of its use. Each name is on record from its first mention
on, with the template and arguments it had there, and its state only moves forward. An instance is
new to one request at most, and is handed out to be made at most once.
-/

namespace Backend

/-- How far an instance has come. -/
def InstanceState.rank : InstanceState → Nat
  | .requested => 0
  | .inProgress => 1
  | .complete => 2

theorem InstanceState.rank_le_complete (s : InstanceState) : s.rank ≤ complete.rank := by
  cases s <;> decide

/-- An instance as a user of the table names it. -/
structure Mention where
  name : String
  base : String
  args : List TypeRef

def InstanceRecord.mention (r : InstanceRecord) : Mention := ⟨r.name, r.base, r.args⟩

/-- The first mention of each name, in order. -/
def firstMentions : List Mention → List Mention
  | [] => []
  | m :: rest => m :: (firstMentions rest).filter fun later => later.name ≠ m.name

namespace InstanceTable

inductive Call where
  | request (m : Mention)
  | begin (m : Mention)
  | complete (name : String)

inductive Answer where
  | requested (isNew : Bool)
  | begun (claim : Claim)
  | completed

namespace Call

/-- Completing an instance does not put it on record. -/
def mention? : Call → Option Mention
  | .request m | .begin m => some m
  | .complete _ => none

def run (t : InstanceTable) : Call → Answer × InstanceTable
  | .request m => let (isNew, t) := t.request m.base m.args m.name; (.requested isNew, t)
  | .begin m => let (claim, t) := t.begin m.base m.args m.name; (.begun claim, t)
  | .complete name => (.completed, t.complete name)

end Call

/-- The table after some calls. -/
def after (t : InstanceTable) (calls : List Call) : InstanceTable :=
  calls.foldl (fun t call => (call.run t).2) t

/-- The calls with their answers. -/
def log (t : InstanceTable) : List Call → List (Call × Answer)
  | [] => []
  | call :: rest => (call, (call.run t).1) :: log (call.run t).2 rest

/-- The call put the name on record for its body to be made. -/
def Admits (name : String) : Call × Answer → Bool
  | (.request m, .requested isNew) => m.name = name && isNew
  | _ => false

/-- The call handed the name out to be made. -/
def Hands (name : String) : Call × Answer → Bool
  | (.begin m, .begun claim) => m.name = name && claim = .fresh
  | _ => false

variable {t : InstanceTable} {name : String}

theorem after_append (t : InstanceTable) (calls more : List Call) :
    t.after (calls ++ more) = (t.after calls).after more :=
  List.foldl_append

/-! ### What one call keeps -/

theorem contains_run (call : Call) (h : t.contains name = true) :
    (call.run t).2.contains name = true := by
  cases call with
  | request m => exact contains_request h
  | begin m => exact contains_begin h
  | complete n => exact contains_complete h

theorem started_run (call : Call) (h : t.Started name) : Started (call.run t).2 name := by
  cases call with
  | request m => exact started_request h
  | begin m => exact started_begin h
  | complete n => exact started_complete h

theorem started_after (calls : List Call) (h : t.Started name) : (t.after calls).Started name := by
  induction calls generalizing t with
  | nil => exact h
  | cons call rest ih => exact ih (started_run call h)

/-- A write that does not set a state back moves every name forward or not at all. -/
theorem insert_forward {r : InstanceRecord} {n : String} {state : InstanceState}
    (forward : ∀ old, t.find? n = some old → old.state.rank ≤ r.state.rank)
    (h : t.state? name = some state) :
    ∃ next, InstanceTable.state? (t.insert n r) name = some next ∧ state.rank ≤ next.rank := by
  obtain ⟨old, found, rfl⟩ := Option.map_eq_some_iff.mp h
  unfold state?
  rw [Table.find?_insert]
  by_cases same : n = name
  · subst same
    exact ⟨r.state, by rw [if_pos rfl]; rfl, forward old found⟩
  · exact ⟨old.state, by rw [if_neg same, found]; rfl, Nat.le_refl _⟩

theorem state?_run (call : Call) {state : InstanceState} (h : t.state? name = some state) :
    ∃ next, InstanceTable.state? (call.run t).2 name = some next ∧ state.rank ≤ next.rank := by
  have unchanged : ∃ next, t.state? name = some next ∧ state.rank ≤ next.rank :=
    ⟨state, h, Nat.le_refl _⟩
  cases call with
  | request m =>
    simp only [Call.run, InstanceTable.request]
    split
    · exact unchanged
    case isFalse absent =>
      refine insert_forward (fun old found => ?_) h
      exact absurd (Table.contains_iff.mpr ⟨old, found⟩) absent
  | begin m =>
    simp only [Call.run, InstanceTable.begin]
    cases found : t.find? m.name with
    | none => exact insert_forward (fun old known => by cases found.symm.trans known) h
    | some r =>
      by_cases waits : r.state = .requested
      · simp only [if_pos waits]
        refine insert_forward (fun old known => ?_) h
        obtain rfl := Option.some.inj (found.symm.trans known)
        rw [waits]
        exact Nat.zero_le _
      · simp only [if_neg waits]
        exact unchanged
  | complete n =>
    simp only [Call.run, InstanceTable.complete]
    cases found : t.find? n with
    | none => exact unchanged
    | some r =>
      refine insert_forward (fun old _ => ?_) h
      exact InstanceState.rank_le_complete old.state

theorem state?_after (calls : List Call) {state : InstanceState} (h : t.state? name = some state) :
    ∃ next, (t.after calls).state? name = some next ∧ state.rank ≤ next.rank := by
  induction calls generalizing t state with
  | nil => exact ⟨state, h, Nat.le_refl _⟩
  | cons call rest ih =>
    obtain ⟨middle, now, le⟩ := state?_run call h
    obtain ⟨next, later, le'⟩ := ih now
    exact ⟨next, later, Nat.le_trans le le'⟩

/-! ### At most once -/

/-- An event that brings about a lasting condition, and cannot happen under it, happens once at
most. -/
theorem countP_log_le_one {happens : Call × Answer → Bool} {P : InstanceTable → Prop}
    (lasts : ∀ (t : InstanceTable) (call : Call), P t → P (call.run t).2)
    (never : ∀ (t : InstanceTable) (call : Call), P t → happens (call, (call.run t).1) = false)
    (passes : ∀ (t : InstanceTable) (call : Call), happens (call, (call.run t).1) = true →
      P (call.run t).2) (t : InstanceTable) (calls : List Call) :
    (t.log calls).countP happens ≤ 1 := by
  have none (calls : List Call) : ∀ t, P t → (log t calls).countP happens = 0 := by
    induction calls with
    | nil => exact fun _ _ => rfl
    | cons call rest ih =>
      intro t past
      rw [log, List.countP_cons, ih _ (lasts t call past), never t call past]
      rfl
  induction calls generalizing t with
  | nil => exact Nat.zero_le 1
  | cons call rest ih =>
    rw [log, List.countP_cons]
    cases now : happens (call, (call.run t).1) with
    | false => exact ih _
    | true => rw [none rest _ (passes t call now)]; decide

theorem admits_once (name : String) (calls : List Call) (t : InstanceTable) :
    (t.log calls).countP (Admits name) ≤ 1 := by
  refine countP_log_le_one (P := fun t => t.contains name = true)
    (fun t call => contains_run call) (fun t call past => ?_) (fun t call admitted => ?_) t calls
  · cases call with
    | request m =>
      simp only [Call.run, Admits, Bool.and_eq_false_iff, decide_eq_false_iff_not]
      by_cases same : m.name = name
      · rw [InstanceTable.request, same, if_pos past]
        exact .inr rfl
      · exact .inl same
    | begin m => rfl
    | complete n => rfl
  · cases call with
    | request m =>
      simp only [Call.run, Admits, Bool.and_eq_true, decide_eq_true_eq] at admitted
      obtain ⟨rfl, isNew⟩ := admitted
      simp only [Call.run]
      unfold InstanceTable.request at isNew ⊢
      split at isNew
      · cases isNew
      case isFalse absent => rw [if_neg absent]; exact Table.contains_insert_self t _ _
    | begin m => cases admitted
    | complete n => cases admitted

theorem hands_once (name : String) (calls : List Call) (t : InstanceTable) :
    (t.log calls).countP (Hands name) ≤ 1 := by
  refine countP_log_le_one (P := fun t => t.Started name)
    (fun t call => started_run call) (fun t call past => ?_) (fun t call handed => ?_) t calls
  · cases call with
    | request m => rfl
    | begin m =>
      simp only [Call.run, Hands, Bool.and_eq_false_iff, decide_eq_false_iff_not]
      by_cases same : m.name = name
      · exact .inr fun fresh => not_started_of_fresh fresh (same ▸ past)
      · exact .inl same
    | complete n => rfl
  · cases call with
    | request m => cases handed
    | begin m =>
      simp only [Call.run, Hands, Bool.and_eq_true, decide_eq_true_eq] at handed
      rw [← handed.1]
      exact started_of_begin t m.base m.args m.name
    | complete n => cases handed

/-- An instance that has been begun is not begun again; its state is told. -/
theorem begin_of_started (base : String) (args : List TypeRef) (h : t.Started name) :
    ∃ state, t.state? name = some state ∧ (t.begin base args name).1 = .existing state := by
  obtain ⟨r, found, begun⟩ := h
  refine ⟨r.state, by rw [state?, found]; rfl, ?_⟩
  unfold InstanceTable.begin
  simp only [found, if_neg begun]

/-! ### What is on record -/

end InstanceTable

theorem firstMentions_append (ms : List Mention) (m : Mention) :
    firstMentions (ms ++ [m]) =
      firstMentions ms ++ if m.name ∈ ms.map Mention.name then [] else [m] := by
  induction ms with
  | nil => rfl
  | cons first rest ih =>
    rw [List.cons_append, firstMentions, ih, firstMentions, List.filter_append, List.cons_append]
    by_cases same : m.name = first.name
    · by_cases later : m.name ∈ rest.map Mention.name <;> simp [same]
    · by_cases later : m.name ∈ rest.map Mention.name <;> simp_all

theorem mem_names_firstMentions {ms : List Mention} {name : String} :
    name ∈ (firstMentions ms).map Mention.name ↔ name ∈ ms.map Mention.name := by
  induction ms with
  | nil => rfl
  | cons m rest ih =>
    rw [firstMentions, List.map_cons, List.map_cons, List.mem_cons, List.mem_cons, ← ih]
    by_cases same : name = m.name
    · simp [same]
    · simp only [same, false_or, List.mem_map, List.mem_filter, decide_eq_true_eq]
      constructor
      · rintro ⟨later, ⟨member, -⟩, eq⟩
        exact ⟨later, member, eq⟩
      · rintro ⟨later, member, rfl⟩
        exact ⟨later, ⟨member, same⟩, rfl⟩

namespace Table

variable {α β : Type} {key : String} {v w : α} {es : List (String × α)}

theorem insertEntry_of_absent (absent : lookup key es = none) :
    insertEntry key v es = es ++ [(key, v)] := by
  induction es with
  | nil => rfl
  | cons e rest ih =>
    rw [lookup] at absent
    split at absent
    · cases absent
    case isFalse other => rw [insertEntry, if_neg other, ih absent, List.cons_append]

/-- A view of the entries that does not see the change is left as it is. -/
theorem map_insertEntry {f : String × α → β} (found : lookup key es = some w)
    (same : f (key, v) = f (key, w)) : (insertEntry key v es).map f = es.map f := by
  induction es with
  | nil => cases found
  | cons e rest ih =>
    obtain ⟨k, old⟩ := e
    rw [lookup] at found
    rw [insertEntry]
    split at found
    case isTrue here =>
      obtain rfl : k = key := here
      cases found
      rw [if_pos rfl, List.map_cons, List.map_cons, same]
    case isFalse other => rw [if_neg other, List.map_cons, List.map_cons, ih found]

end Table

namespace InstanceTable

/-- The records without their states. -/
def mentions (t : InstanceTable) : List (String × Mention) :=
  t.entries.map fun e => (e.1, e.2.mention)

variable {t : InstanceTable} {name : String}

theorem mentions_insert_absent {r : InstanceRecord} (absent : t.find? name = none) :
    mentions (t.insert name r) = t.mentions ++ [(name, r.mention)] := by
  unfold mentions
  rw [Table.insert, Table.insertEntry_of_absent absent, List.map_append]
  rfl

theorem mentions_insert_known {r old : InstanceRecord} (found : t.find? name = some old)
    (same : r.mention = old.mention) : mentions (t.insert name r) = t.mentions :=
  Table.map_insertEntry found (by rw [same])

theorem mentions_run (call : Call) :
    mentions (call.run t).2 = call.mention?.elim t.mentions fun m =>
      t.mentions ++ if t.contains m.name then [] else [(m.name, m)] := by
  cases call with
  | request m =>
    simp only [Call.run, InstanceTable.request, Call.mention?, Option.elim_some]
    by_cases known : t.contains m.name = true
    · rw [if_pos known, if_pos known, List.append_nil]
    · have absent : t.find? m.name = none := by simpa [Table.contains] using known
      rw [if_neg known, if_neg known, mentions_insert_absent absent]
      rfl
  | begin m =>
    simp only [Call.run, InstanceTable.begin, Call.mention?, Option.elim_some]
    cases found : t.find? m.name with
    | none =>
      have absent : ¬ t.contains m.name = true := by rw [Table.contains, found]; decide
      rw [if_neg absent, mentions_insert_absent found]
      rfl
    | some r =>
      rw [if_pos (Table.contains_iff.mpr ⟨r, found⟩), List.append_nil]
      by_cases waits : r.state = .requested
      · simp only [if_pos waits]
        exact mentions_insert_known found rfl
      · simp only [if_neg waits]
  | complete n =>
    simp only [Call.run, InstanceTable.complete, Call.mention?, Option.elim_none]
    cases found : t.find? n with
    | none => rfl
    | some r => exact mentions_insert_known found rfl

theorem contains_iff_mem_mentions :
    t.contains name = true ↔ name ∈ t.mentions.map Prod.fst := by
  have keys : t.mentions.map Prod.fst = t.entries.map Prod.fst := by simp [mentions]
  rw [keys, Table.contains, Table.find?]
  induction t.entries with
  | nil => simp [Table.lookup]
  | cons e rest ih =>
    rw [Table.lookup, List.map_cons, List.mem_cons]
    by_cases same : e.1 = name
    · simp [same]
    · rw [if_neg same, or_iff_right (Ne.symm same)]
      exact ih

/-- After any calls there is one record for each name that was mentioned, in order of the first
mentions and as it was mentioned there. -/
theorem mentions_after (calls : List Call) :
    mentions (after {} calls) =
      (firstMentions (calls.filterMap Call.mention?)).map fun m => (m.name, m) := by
  induction calls using List.reverseRecOn with
  | nil => rfl
  | append_singleton calls call ih =>
    have last : after {} (calls ++ [call]) = (call.run (after {} calls)).2 := after_append _ _ _
    rw [last, mentions_run, List.filterMap_append]
    cases mentioned : call.mention? with
    | none => simpa [mentioned] using ih
    | some m =>
      have known : (after {} calls).contains m.name = true ↔
          m.name ∈ (after {} calls).mentions.map Prod.fst := contains_iff_mem_mentions
      rw [ih, List.map_map] at known
      have names := known.trans mem_names_firstMentions
      rw [ih]
      simp only [List.filterMap_cons, List.filterMap_nil, mentioned, Option.elim_some,
        firstMentions_append, List.map_append, names]
      split <;> rfl

theorem contains_after (calls : List Call) : (after {} calls).contains name = true ↔
    name ∈ (calls.filterMap Call.mention?).map Mention.name := by
  rw [contains_iff_mem_mentions, mentions_after, List.map_map]
  exact mem_names_firstMentions

theorem request_isNew (base : String) (args : List TypeRef) :
    (t.request base args name).1 = true ↔ ¬ t.contains name = true := by
  unfold InstanceTable.request
  split
  case isTrue known => simp [known]
  case isFalse absent => simp [absent]

theorem started_of_mem {calls : List Call} {m : Mention} (h : .begin m ∈ calls) :
    (t.after calls).Started m.name := by
  obtain ⟨before, later, rfl⟩ := List.append_of_mem h
  rw [after_append]
  exact started_after later (started_of_begin (t.after before) m.base m.args m.name)

/-! ### Histories -/

/-- Over any calls on an empty table: the table holds the first mention of every name, in order,
whatever came later; states move forward only; a request finds an instance new just if the name was
not mentioned before, so once at most; an instance is handed out to be made once at most; and after
it has been begun every further attempt is told its state. -/
theorem one_way (calls : List Call) :
    mentions (after {} calls) =
        (firstMentions (calls.filterMap Call.mention?)).map (fun m => (m.name, m)) ∧
      (∀ (more : List Call) (name : String) (state : InstanceState),
        (after {} calls).state? name = some state →
          ∃ next, (after {} (calls ++ more)).state? name = some next ∧ state.rank ≤ next.rank) ∧
      (∀ m : Mention, ((after {} calls).request m.base m.args m.name).1 = true ↔
        m.name ∉ (calls.filterMap Call.mention?).map Mention.name) ∧
      (∀ name, (log {} calls).countP (Admits name) ≤ 1) ∧
      (∀ name, (log {} calls).countP (Hands name) ≤ 1) ∧
      ∀ first m : Mention, .begin first ∈ calls → m.name = first.name →
        ∃ state, (after {} calls).state? m.name = some state ∧
          ((after {} calls).begin m.base m.args m.name).1 = .existing state := by
  refine ⟨mentions_after calls, fun more name state now => ?_, fun m => ?_,
    fun name => admits_once name calls {}, fun name => hands_once name calls {},
    fun first m begun same => ?_⟩
  · rw [after_append]
    exact state?_after more now
  · rw [request_isNew, contains_after]
  · rw [same]
    exact begin_of_started m.base m.args (started_of_mem begun)

/-- A body that is asked for, begun with other arguments and completed: the record stays as it was
asked for, and beginning it again tells that it is complete. -/
theorem one_way_completed :
    let asked : Mention := ⟨"Box_i32", "Box", [.i32]⟩
    let other : Mention := ⟨"Box_i32", "Crate", [.bool]⟩
    let calls : List Call := [.request asked, .begin other, .request other, .complete "Box_i32"]
    mentions (after {} calls) = [("Box_i32", asked)] ∧
      ((after {} calls).begin other.base other.args other.name).1 = .existing .complete := by
  intro asked other calls
  have history := one_way calls
  refine ⟨history.1, ?_⟩
  obtain ⟨state, now, told⟩ := history.2.2.2.2.2 other other (by simp [calls]) rfl
  have complete : (after {} calls).state? other.name = some .complete := by decide
  obtain rfl := Option.some.inj (now.symm.trans complete)
  exact told

end InstanceTable

end Backend
