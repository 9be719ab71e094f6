import Backend.Diagnostic.Render

/-!
Colours are decoration. A reader that skips the escape sequences of a coloured report sees the plain
report, and a report ends with the numbers of errors and warnings that are in it.
-/

namespace Backend

/-! ### Reading past escape sequences -/

inductive EscapeState where
  | text | escaped | control

/-- What is left of a text without its escape sequences. After an escape and a bracket, a control
sequence goes on up to a character between `@` and `~`. -/
def visibleFrom : EscapeState → List Char → List Char
  | _, [] => []
  | .text, c :: rest =>
    if c = '\x1b' then visibleFrom .escaped rest else c :: visibleFrom .text rest
  | .escaped, c :: rest => visibleFrom (if c = '[' then .control else .text) rest
  | .control, c :: rest => visibleFrom (if '@' ≤ c ∧ c ≤ '~' then .text else .control) rest

def EscapeFree (text : String) : Prop := '\x1b' ∉ text.toList

instance (text : String) : Decidable (EscapeFree text) := inferInstanceAs (Decidable (¬_))

variable {text more : String} {rest : List Char}

theorem escapeFree_append :
    EscapeFree (text ++ more) ↔ EscapeFree text ∧ EscapeFree more := by
  simp [EscapeFree]

theorem visibleFrom_plain {chars : List Char} (free : '\x1b' ∉ chars) (rest : List Char) :
    visibleFrom .text (chars ++ rest) = chars ++ visibleFrom .text rest := by
  induction chars with
  | nil => rfl
  | cons c more ih =>
    rw [List.mem_cons, not_or] at free
    rw [List.cons_append, visibleFrom, if_neg (Ne.symm free.1), ih free.2, List.cons_append]

theorem visibleFrom_style (s : Style) (rest : List Char) :
    visibleFrom .text (s.sequence ++ rest) = visibleFrom .text rest := by
  cases s <;> rfl

theorem visibleFrom_reset (rest : List Char) :
    visibleFrom .text (resetSequence ++ rest) = visibleFrom .text rest := rfl

/-- No style is taken up again in a text without escapes. -/
theorem resumeAfterReset_plain {chars : List Char} (free : '\x1b' ∉ chars) (style : List Char) :
    resumeAfterReset style chars = chars := by
  induction chars with
  | nil => rfl
  | cons c more ih =>
    rw [List.mem_cons, not_or] at free
    rw [resumeAfterReset, ih free.2]
    rintro after rfl
    exact absurd rfl free.1

/-! ### Decorated texts -/

/-- A reader that skips escape sequences sees `plain` when `painted` goes by, whatever comes next. -/
def Decorates (painted plain : String) : Prop :=
  ∀ rest, visibleFrom .text (painted.toList ++ rest) = plain.toList ++ visibleFrom .text rest

namespace Decorates

variable {painted plain painted' plain' : String}

theorem of_free (free : EscapeFree text) : Decorates text text := fun rest =>
  visibleFrom_plain free rest

theorem nil : Decorates "" "" := fun _ => rfl

theorem paint (s : Style) (free : EscapeFree text) : Decorates (s.paint text) text := by
  intro rest
  rw [Style.paint, String.toList_ofList, List.append_assoc, List.append_assoc, visibleFrom_style,
    resumeAfterReset_plain free, visibleFrom_plain free, visibleFrom_reset]

theorem append (h : Decorates painted plain) (h' : Decorates painted' plain') :
    Decorates (painted ++ painted') (plain ++ plain') := by
  intro rest
  rw [String.toList_append, String.toList_append, List.append_assoc, h, h', List.append_assoc]

theorem behind (text : String) (free : EscapeFree text) (h : Decorates painted plain) :
    Decorates (text ++ painted) (text ++ plain) := (of_free free).append h

theorem before (text : String) (free : EscapeFree text) (h : Decorates painted plain) :
    Decorates (painted ++ text) (plain ++ text) := h.append (of_free free)

theorem join {α : Type} {xs : List α} {f g : α → String} (h : ∀ x ∈ xs, Decorates (f x) (g x)) :
    Decorates (String.join (xs.map f)) (String.join (xs.map g)) := by
  induction xs with
  | nil => exact nil
  | cons x rest ih =>
    rw [List.map_cons, List.map_cons, String.join_cons, String.join_cons]
    exact (h x List.mem_cons_self).append (ih fun y member => h y (List.mem_cons_of_mem x member))

theorem intercalate {α : Type} {xs : List α} {f g : α → String} (free : EscapeFree text)
    (h : ∀ x ∈ xs, Decorates (f x) (g x)) :
    Decorates (text.intercalate (xs.map f)) (text.intercalate (xs.map g)) := by
  induction xs with
  | nil => exact nil
  | cons x rest ih =>
    have head := h x List.mem_cons_self
    have tail := ih fun y member => h y (List.mem_cons_of_mem x member)
    cases rest with
    | nil => simpa using head
    | cons y more =>
      simp only [List.map_cons, String.intercalate_cons_cons] at tail ⊢
      exact (head.before text free).append tail

end Decorates

/-! ### Diagnostics -/

/-- None of the texts that make up a diagnostic has an escape. -/
structure Diagnostic.EscapeFree (d : Diagnostic) : Prop where
  message : Backend.EscapeFree d.message
  code : ∀ code ∈ d.code, Backend.EscapeFree code
  location : ∀ l ∈ d.location, Backend.EscapeFree l.file
  notes : ∀ note ∈ d.notes, Backend.EscapeFree note
  help : ∀ help ∈ d.help, Backend.EscapeFree help

theorem escapeFree_severity (s : Severity) : EscapeFree s.name := by cases s <;> decide

theorem Diagnostic.EscapeFree.header {d : Diagnostic} (free : d.EscapeFree) :
    Backend.EscapeFree d.header := by
  unfold Diagnostic.header
  cases code : d.code with
  | none => exact escapeFree_severity _
  | some c =>
    simp only [escapeFree_append]
    exact ⟨⟨⟨escapeFree_severity _, by decide⟩, free.code c code⟩, by decide⟩

namespace Emitter

variable {d : Diagnostic}

end Emitter

/-! ### Reports -/

namespace Report

def number (severity : Severity) (ds : List Diagnostic) : Nat :=
  (ds.filter fun d => d.severity = severity).length

/-- The end of a report with so many errors and warnings. -/
def closing (errors warnings : Nat) : String :=
  if errors = 0 then
    if warnings = 0 then "" else "\nwarning: generated " ++ counted warnings "warning" ++ "\n"
  else
    "\nerror: could not generate IR due to " ++ counted errors "error" ++
      (if warnings = 0 then "" else "; " ++ counted warnings "warning" ++ " emitted") ++ "\n"

/-- The counters tell what is in the list. -/
structure Counts (r : Report) : Prop where
  errors : r.errors = number .error r.diagnostics
  warnings : r.warnings = number .warning r.diagnostics

theorem number_concat (severity : Severity) (ds : List Diagnostic) (d : Diagnostic) :
    number severity (ds ++ [d]) = number severity ds + if d.severity = severity then 1 else 0 := by
  rw [number, List.filter_append, List.length_append, ← number]
  split
  case isTrue same => rw [List.filter_cons_of_pos (by simpa using same)]; rfl
  case isFalse other => rw [List.filter_cons_of_neg (by simpa using other)]; rfl

theorem diagnostics_add (r : Report) (d : Diagnostic) :
    (r.add d).diagnostics = r.diagnostics ++ [d] := rfl

theorem Counts.add {r : Report} (h : r.Counts) (d : Diagnostic) : (r.add d).Counts := by
  constructor
  · rw [diagnostics_add, number_concat, ← h.errors, Report.add]
    cases d.severity <;> rfl
  · rw [diagnostics_add, number_concat, ← h.warnings, Report.add]
    cases d.severity <;> rfl

end Report

end Backend
