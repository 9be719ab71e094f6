import Backend.Substitution

/-!
Normal types and what a substitution does to them. A type is normal if it is built with the merging
constructors alone. On normal types a substitution depends only on the names without arguments that
it knows: a type without such names is left as it is.
-/

namespace Backend

variable {types : List TypeRef} {name : String} {t : TypeRef}

namespace TypeRef

def isPointer : TypeRef → Bool
  | .pointer .. => true
  | _ => false

def isArray : TypeRef → Bool
  | .array .. => true
  | _ => false

mutual

def isNormal : TypeRef → Bool
  | .primitive _ => true
  | .pointer inner depth => depth ≠ 0 && !inner.isPointer && inner.isNormal
  | .array inner dims => !dims.isEmpty && !inner.isArray && inner.isNormal
  | .tuple elems => allNormal elems
  | .function params ret _ => allNormal params && ret.isNormal
  | .named _ args _ => allNormal args

def allNormal : List TypeRef → Bool
  | [] => true
  | t :: rest => t.isNormal && allNormal rest

end

mutual

/-- The names without arguments in a type. Only these can be parameters. -/
def simpleNames : TypeRef → List String
  | .primitive _ => []
  | .pointer inner _ | .array inner _ => inner.simpleNames
  | .tuple elems => allSimpleNames elems
  | .function params ret _ => allSimpleNames params ++ ret.simpleNames
  | .named name [] _ => [name]
  | .named _ (arg :: args) _ => arg.simpleNames ++ allSimpleNames args

def allSimpleNames : List TypeRef → List String
  | [] => []
  | t :: rest => t.simpleNames ++ allSimpleNames rest

end

theorem isNormal_of_mem (normal : allNormal types = true) (member : t ∈ types) :
    t.isNormal = true := by
  induction types with
  | nil => cases member
  | cons u rest ih =>
    simp only [allNormal, Bool.and_eq_true] at normal
    rcases List.mem_cons.mp member with rfl | member
    · exact normal.1
    · exact ih normal.2 member

theorem allNormal_iff : allNormal types = true ↔ ∀ t ∈ types, t.isNormal = true := by
  refine ⟨fun normal t => isNormal_of_mem normal, fun normal => ?_⟩
  induction types with
  | nil => rfl
  | cons u rest ih =>
    rw [allNormal, Bool.and_eq_true]
    exact ⟨normal u List.mem_cons_self, ih fun t member => normal t (List.mem_cons_of_mem u member)⟩

theorem allNormal_eq_all (types : List TypeRef) : allNormal types = types.all isNormal := by
  rw [Bool.eq_iff_iff, allNormal_iff, List.all_eq_true]

theorem mem_allSimpleNames : name ∈ allSimpleNames types ↔ ∃ t ∈ types, name ∈ t.simpleNames := by
  induction types with
  | nil => simp [allSimpleNames]
  | cons u rest ih => simp [allSimpleNames, ih]

/-! ### Where names stand -/

/-- One step into a type: a pointer of depth two is two steps. The result of a function is its part
zero. -/
inductive Step where
  | pointer
  | dim (size : Nat)
  | part (i : Nat)

/-- A name without arguments and where it stands in a type. -/
structure Occurrence where
  path : List Step
  name : String
  hint : Option DeclKind

namespace Occurrence

def below (path : List Step) (o : Occurrence) : Occurrence := { o with path := path ++ o.path }

theorem map_below_nil (os : List Occurrence) : os.map (below []) = os := List.map_id os

theorem map_below_below (outer inner : List Step) (os : List Occurrence) :
    (os.map (below inner)).map (below outer) = os.map (below (outer ++ inner)) := by
  simp [below]

end Occurrence

mutual

def occurrences : TypeRef → List Occurrence
  | .primitive _ => []
  | .pointer inner depth => inner.occurrences.map (.below (List.replicate depth .pointer))
  | .array inner dims => inner.occurrences.map (.below (dims.map .dim))
  | .tuple elems => allOccurrences 0 elems
  | .function params ret _ => allOccurrences 1 params ++ ret.occurrences.map (.below [.part 0])
  | .named name [] hint => [⟨[], name, hint⟩]
  | .named _ (arg :: args) _ => arg.occurrences.map (.below [.part 0]) ++ allOccurrences 1 args

/-- Those in consecutive parts. -/
def allOccurrences (first : Nat) : List TypeRef → List Occurrence
  | [] => []
  | t :: rest => t.occurrences.map (.below [.part first]) ++ allOccurrences (first + 1) rest

end

mutual

theorem simpleNames_eq : (t : TypeRef) → t.simpleNames = t.occurrences.map Occurrence.name
  | .primitive _ => rfl
  | .pointer inner _ => by
    rw [simpleNames, occurrences, simpleNames_eq inner, List.map_map]; rfl
  | .array inner _ => by
    rw [simpleNames, occurrences, simpleNames_eq inner, List.map_map]; rfl
  | .tuple elems => allSimpleNames_eq 0 elems
  | .function params ret _ => by
    rw [simpleNames, occurrences, allSimpleNames_eq 1 params, simpleNames_eq ret,
      List.map_append, List.map_map]
    rfl
  | .named _ [] _ => rfl
  | .named _ (arg :: args) _ => by
    rw [simpleNames, occurrences, allSimpleNames_eq 1 args, simpleNames_eq arg,
      List.map_append, List.map_map]
    rfl

theorem allSimpleNames_eq (first : Nat) : (types : List TypeRef) →
    allSimpleNames types = (allOccurrences first types).map Occurrence.name
  | [] => rfl
  | t :: rest => by
    rw [allSimpleNames, allOccurrences, allSimpleNames_eq (first + 1) rest, simpleNames_eq t,
      List.map_append, List.map_map]
    rfl

end

/-! ### The merging constructors -/

theorem pointerTo_pointer (t : TypeRef) (depth more : Nat) :
    pointerTo (.pointer t depth) more = .pointer t (depth + more) := by
  unfold pointerTo
  split
  · rw [‹more = 0›, Nat.add_zero]
  · rfl

theorem pointerTo_pointerTo (t : TypeRef) (depth more : Nat) :
    pointerTo (pointerTo t depth) more = pointerTo t (depth + more) := by
  cases depth with
  | zero => rw [Nat.zero_add]; rfl
  | succ depth =>
    cases t with
    | pointer inner d =>
      rw [pointerTo_pointer, pointerTo_pointer, pointerTo_pointer, Nat.add_assoc]
    | _ =>
      refine (pointerTo_pointer _ _ _).trans ?_
      unfold pointerTo
      rw [if_neg (by omega)]

theorem pointerTo_of_not_pointer (h : t.isPointer = false) {depth : Nat} (some : depth ≠ 0) :
    pointerTo t depth = .pointer t depth := by
  unfold pointerTo
  rw [if_neg some]
  cases t <;> first | rfl | cases h

theorem arrayOf_of_not_array (h : t.isArray = false) {dims : List Nat}
    (some : dims.isEmpty = false) : arrayOf t dims = .array t dims := by
  unfold arrayOf
  rw [if_neg (by rw [some]; decide)]
  cases t <;> first | rfl | cases h

theorem pointerTo_cases (t : TypeRef) (depth : Nat) :
    (depth = 0 ∧ pointerTo t depth = t) ∨
    (∃ inner d, depth ≠ 0 ∧ t = .pointer inner d ∧ pointerTo t depth = .pointer inner (d + depth)) ∨
    (depth ≠ 0 ∧ t.isPointer = false ∧ pointerTo t depth = .pointer t depth) := by
  by_cases none : depth = 0
  · exact .inl ⟨none, by rw [none]; rfl⟩
  · cases shape : t.isPointer with
    | false => exact .inr (.inr ⟨none, rfl, pointerTo_of_not_pointer shape none⟩)
    | true =>
      cases t with
      | pointer inner d => exact .inr (.inl ⟨inner, d, none, rfl, pointerTo_pointer inner d depth⟩)
      | _ => cases shape

theorem arrayOf_cases (t : TypeRef) (dims : List Nat) :
    (dims = [] ∧ arrayOf t dims = t) ∨
    (∃ inner ds, dims ≠ [] ∧ t = .array inner ds ∧ arrayOf t dims = .array inner (dims ++ ds)) ∨
    (dims ≠ [] ∧ t.isArray = false ∧ arrayOf t dims = .array t dims) := by
  cases dims with
  | nil => exact .inl ⟨rfl, rfl⟩
  | cons d rest =>
    have some : d :: rest ≠ [] := List.cons_ne_nil d rest
    cases shape : t.isArray with
    | false => exact .inr (.inr ⟨some, rfl, arrayOf_of_not_array shape rfl⟩)
    | true =>
      cases t with
      | array inner ds => exact .inr (.inl ⟨inner, ds, some, rfl, rfl⟩)
      | _ => cases shape

theorem isNormal_pointerTo (normal : t.isNormal = true) (depth : Nat) :
    (pointerTo t depth).isNormal = true := by
  rcases pointerTo_cases t depth with ⟨-, eq⟩ | ⟨inner, d, some, rfl, eq⟩ | ⟨some, shape, eq⟩
  · rw [eq]; exact normal
  · simp only [isNormal, Bool.and_eq_true, decide_eq_true_eq] at normal
    rw [eq, isNormal]
    simp only [Bool.and_eq_true, decide_eq_true_eq]
    exact ⟨⟨by omega, normal.1.2⟩, normal.2⟩
  · simp [eq, isNormal, some, shape, normal]

theorem isNormal_arrayOf (normal : t.isNormal = true) (dims : List Nat) :
    (arrayOf t dims).isNormal = true := by
  rcases arrayOf_cases t dims with ⟨-, eq⟩ | ⟨inner, ds, some, rfl, eq⟩ | ⟨some, shape, eq⟩
  · rw [eq]; exact normal
  · simp only [isNormal, Bool.and_eq_true] at normal
    simp [eq, isNormal, some, normal.1.2, normal.2]
  · simp [eq, isNormal, some, shape, normal]

theorem occurrences_pointerTo (t : TypeRef) (depth : Nat) :
    (pointerTo t depth).occurrences = t.occurrences.map (.below (List.replicate depth .pointer)) := by
  rcases pointerTo_cases t depth with ⟨rfl, eq⟩ | ⟨inner, d, -, rfl, eq⟩ | ⟨-, -, eq⟩
  · rw [eq, List.replicate_zero, Occurrence.map_below_nil]
  · rw [eq, occurrences, occurrences, Occurrence.map_below_below, List.replicate_append_replicate,
      Nat.add_comm]
  · rw [eq, occurrences]

theorem occurrences_arrayOf (t : TypeRef) (dims : List Nat) :
    (arrayOf t dims).occurrences = t.occurrences.map (.below (dims.map .dim)) := by
  rcases arrayOf_cases t dims with ⟨rfl, eq⟩ | ⟨inner, ds, -, rfl, eq⟩ | ⟨-, -, eq⟩
  · rw [eq, List.map_nil, Occurrence.map_below_nil]
  · rw [eq, occurrences, occurrences, Occurrence.map_below_below, List.map_append]
  · rw [eq, occurrences]

end TypeRef

namespace Substitution

open TypeRef (Step Occurrence)

def Normal (σ : Substitution) : Prop := ∀ t ∈ σ.values, t.isNormal = true

theorem Normal.found {σ : Substitution} (h : σ.Normal) {name : String} {t : TypeRef}
    (found : σ.find? name = some t) : t.isNormal = true :=
  h t (Table.mem_values_of_find? found)

theorem normal_empty : Normal {} := fun _ member => (List.not_mem_nil member).elim

theorem replaceAll_eq_map (σ : Substitution) (types : List TypeRef) :
    σ.replaceAll types = types.map σ.replace := by
  induction types with
  | nil => rfl
  | cons t rest ih => rw [replaceAll, ih, List.map_cons]

/-! ### What is left as it is -/

mutual

theorem replace_eq_self {σ : Substitution} : (t : TypeRef) → t.isNormal = true →
    (∀ name ∈ t.simpleNames, σ.find? name = none) → σ.replace t = t
  | .primitive _, _, _ => rfl
  | .pointer inner depth, normal, unknown => by
    simp only [TypeRef.isNormal, Bool.and_eq_true, decide_eq_true_eq, Bool.not_eq_true'] at normal
    rw [replace, replace_eq_self inner normal.2 unknown,
      TypeRef.pointerTo_of_not_pointer normal.1.2 normal.1.1]
  | .array inner dims, normal, unknown => by
    simp only [TypeRef.isNormal, Bool.and_eq_true, Bool.not_eq_true'] at normal
    rw [replace, replace_eq_self inner normal.2 unknown,
      TypeRef.arrayOf_of_not_array normal.1.2 normal.1.1]
  | .tuple elems, normal, unknown => by
    rw [replace, replaceAll_eq_self elems normal unknown]
  | .function params ret variadic, normal, unknown => by
    simp only [TypeRef.isNormal, Bool.and_eq_true] at normal
    rw [replace, replaceAll_eq_self params normal.1 fun n h => unknown n (List.mem_append_left _ h),
      replace_eq_self ret normal.2 fun n h => unknown n (List.mem_append_right _ h)]
  | .named name [] hint, _, unknown => by
    rw [replace, unknown name (by simp [TypeRef.simpleNames]), Option.getD_none]
  | .named name (arg :: args) hint, normal, unknown => by
    simp only [TypeRef.isNormal, TypeRef.allNormal, Bool.and_eq_true] at normal
    rw [replace, replace_eq_self arg normal.1 fun n h => unknown n (List.mem_append_left _ h),
      replaceAll_eq_self args normal.2 fun n h => unknown n (List.mem_append_right _ h)]

theorem replaceAll_eq_self {σ : Substitution} : (types : List TypeRef) →
    TypeRef.allNormal types = true → (∀ name ∈ TypeRef.allSimpleNames types, σ.find? name = none) →
    σ.replaceAll types = types
  | [], _, _ => rfl
  | t :: rest, normal, unknown => by
    simp only [TypeRef.allNormal, Bool.and_eq_true] at normal
    rw [replaceAll, replace_eq_self t normal.1 fun n h => unknown n (List.mem_append_left _ h),
      replaceAll_eq_self rest normal.2 fun n h => unknown n (List.mem_append_right _ h)]

end

theorem apply_eq_replace (σ : Substitution) (normal : t.isNormal = true) :
    σ.apply t = σ.replace t := by
  unfold apply
  split
  case isTrue empty =>
    have nothing (name : String) : σ.find? name = none := by
      rw [Table.find?, List.isEmpty_iff.mp empty]; rfl
    rw [replace_eq_self t normal fun name _ => nothing name]
  case isFalse => rfl

/-! ### What a substituted type consists of -/

section

variable {σ : Substitution}

mutual

theorem isNormal_replace (values : σ.Normal) : (t : TypeRef) → t.isNormal = true →
    (σ.replace t).isNormal = true
  | .primitive _, _ => rfl
  | .pointer inner depth, normal => by
    simp only [TypeRef.isNormal, Bool.and_eq_true] at normal
    exact TypeRef.isNormal_pointerTo (isNormal_replace values inner normal.2) depth
  | .array inner dims, normal => by
    simp only [TypeRef.isNormal, Bool.and_eq_true] at normal
    exact TypeRef.isNormal_arrayOf (isNormal_replace values inner normal.2) dims
  | .tuple elems, normal => allNormal_replaceAll values elems normal
  | .function params ret variadic, normal => by
    simp only [TypeRef.isNormal, Bool.and_eq_true] at normal
    rw [replace, TypeRef.isNormal, allNormal_replaceAll values params normal.1,
      isNormal_replace values ret normal.2]
    rfl
  | .named name [] hint, _ => by
    rw [replace]
    cases found : σ.find? name with
    | none => rfl
    | some t => exact values.found found
  | .named name (arg :: args) hint, normal => by
    simp only [TypeRef.isNormal, TypeRef.allNormal, Bool.and_eq_true] at normal
    rw [replace, TypeRef.isNormal, TypeRef.allNormal, isNormal_replace values arg normal.1,
      allNormal_replaceAll values args normal.2]
    rfl

theorem allNormal_replaceAll (values : σ.Normal) : (types : List TypeRef) →
    TypeRef.allNormal types = true → TypeRef.allNormal (σ.replaceAll types) = true
  | [], _ => rfl
  | t :: rest, normal => by
    simp only [TypeRef.allNormal, Bool.and_eq_true] at normal
    rw [replaceAll, TypeRef.allNormal, isNormal_replace values t normal.1,
      allNormal_replaceAll values rest normal.2]
    rfl

end

theorem isNormal_apply (values : σ.Normal) (normal : t.isNormal = true) :
    (σ.apply t).isNormal = true := by
  rw [apply_eq_replace σ normal]
  exact isNormal_replace values t normal

/-- A name that is left in a substituted type was there already, or comes from a type that stands
for a parameter. -/
def Leaves (σ : Substitution) (before : List String) (name : String) : Prop :=
  (name ∈ before ∧ σ.find? name = none) ∨ ∃ param t, σ.find? param = some t ∧ name ∈ t.simpleNames

/-- What becomes of an occurrence. -/
def place (σ : Substitution) (o : Occurrence) : List Occurrence :=
  (σ.find? o.name).elim [o] fun t => t.occurrences.map (.below o.path)

theorem flatMap_place_below (path : List Step) (os : List Occurrence) :
    (os.map (.below path)).flatMap σ.place = (os.flatMap σ.place).map (.below path) := by
  have placed (o : Occurrence) : σ.place (o.below path) = (σ.place o).map (.below path) := by
    unfold place
    change (σ.find? o.name).elim _ _ = _
    cases σ.find? o.name with
    | none => rfl
    | some t => exact (Occurrence.map_below_below path o.path t.occurrences).symm
  rw [List.flatMap_map, List.map_flatMap]
  exact congrArg (os.flatMap ·) (funext placed)

mutual

theorem occurrences_replace : (t : TypeRef) →
    (σ.replace t).occurrences = t.occurrences.flatMap σ.place
  | .primitive _ => rfl
  | .pointer inner depth => by
    rw [replace, TypeRef.occurrences_pointerTo, TypeRef.occurrences, flatMap_place_below,
      occurrences_replace inner]
  | .array inner dims => by
    rw [replace, TypeRef.occurrences_arrayOf, TypeRef.occurrences, flatMap_place_below,
      occurrences_replace inner]
  | .tuple elems => allOccurrences_replaceAll 0 elems
  | .function params ret _ => by
    rw [replace, TypeRef.occurrences, TypeRef.occurrences, List.flatMap_append,
      flatMap_place_below, allOccurrences_replaceAll 1 params, occurrences_replace ret]
  | .named name [] hint => by
    rw [replace, TypeRef.occurrences, List.flatMap_singleton, place]
    cases σ.find? name with
    | none => rfl
    | some t => exact (Occurrence.map_below_nil t.occurrences).symm
  | .named _ (arg :: args) _ => by
    rw [replace, TypeRef.occurrences, TypeRef.occurrences, List.flatMap_append,
      flatMap_place_below, allOccurrences_replaceAll 1 args, occurrences_replace arg]

theorem allOccurrences_replaceAll (first : Nat) : (types : List TypeRef) →
    TypeRef.allOccurrences first (σ.replaceAll types) =
      (TypeRef.allOccurrences first types).flatMap σ.place
  | [] => rfl
  | t :: rest => by
    rw [replaceAll, TypeRef.allOccurrences, TypeRef.allOccurrences, List.flatMap_append,
      flatMap_place_below, allOccurrences_replaceAll (first + 1) rest, occurrences_replace t]

end

theorem leaves_replace (t : TypeRef) :
    ∀ name ∈ (σ.replace t).simpleNames, σ.Leaves t.simpleNames name := by
  intro name member
  rw [TypeRef.simpleNames_eq, occurrences_replace] at member
  obtain ⟨o, placed, rfl⟩ := List.mem_map.mp member
  obtain ⟨origin, inside, placed⟩ := List.mem_flatMap.mp placed
  unfold place at placed
  cases found : σ.find? origin.name with
  | none =>
    rw [found] at placed
    obtain rfl := List.mem_singleton.mp placed
    exact .inl ⟨TypeRef.simpleNames_eq t ▸ List.mem_map_of_mem inside, found⟩
  | some u =>
    rw [found] at placed
    obtain ⟨inner, inside, rfl⟩ := List.mem_map.mp placed
    refine .inr ⟨origin.name, u, found, TypeRef.simpleNames_eq u ▸ ?_⟩
    exact List.mem_map.mpr ⟨inner, inside, rfl⟩

/-! ### Concrete types -/

/-- No parameter stands in a type that stands for a parameter. -/
def Closed (σ : Substitution) : Prop :=
  ∀ param t, σ.find? param = some t → ∀ name ∈ t.simpleNames, σ.find? name = none

/-- The types that stand for parameters are normal and hold no parameters themselves, and no
primitive is a parameter. -/
structure Ground (σ : Substitution) : Prop where
  normal : σ.Normal
  closed : σ.Closed
  primitive : ∀ name p, Primitive.ofName? name = some p → σ.find? name = none

theorem Ground.unknown (ground : σ.Ground) (t : TypeRef) :
    ∀ name ∈ (σ.replace t).simpleNames, σ.find? name = none := by
  intro name member
  rcases leaves_replace t name member with ⟨-, unknown⟩ | ⟨param, u, found, member⟩
  · exact unknown
  · exact ground.closed param u found name member

theorem Ground.replace_replace (ground : σ.Ground) (normal : t.isNormal = true) :
    σ.replace (σ.replace t) = σ.replace t :=
  replace_eq_self _ (isNormal_replace ground.normal t normal) (ground.unknown t)

theorem Ground.isSelfMapped (ground : σ.Ground) (name : String) : σ.isSelfMapped name = false := by
  unfold Substitution.isSelfMapped
  split
  case h_1 other hint found =>
    have unknown := ground.closed name _ found other (by simp [TypeRef.simpleNames])
    rw [decide_eq_false_iff_not]
    rintro rfl
    rw [found] at unknown
    cases unknown
  case h_2 => rfl

mutual

theorem fits_of_fits_replace : (t : TypeRef) → (σ.replace t).fits = true → t.fits = true
  | .primitive _, _ => rfl
  | .pointer inner depth, h => by
    rw [replace] at h
    rw [TypeRef.fits, Bool.and_eq_true, decide_eq_true_eq]
    rcases TypeRef.pointerTo_cases (σ.replace inner) depth with
      ⟨none, eq⟩ | ⟨u, d, -, eq, merged⟩ | ⟨-, -, eq⟩
    · rw [eq] at h
      exact ⟨by rw [none]; decide, fits_of_fits_replace inner h⟩
    · rw [merged, TypeRef.fits, Bool.and_eq_true, decide_eq_true_eq] at h
      refine ⟨by omega, fits_of_fits_replace inner ?_⟩
      rw [eq, TypeRef.fits, Bool.and_eq_true, decide_eq_true_eq]
      exact ⟨by omega, h.2⟩
    · rw [eq, TypeRef.fits, Bool.and_eq_true, decide_eq_true_eq] at h
      exact ⟨h.1, fits_of_fits_replace inner h.2⟩
  | .array inner dims, h => by
    rw [replace] at h
    refine fits_of_fits_replace inner ?_
    rcases TypeRef.arrayOf_cases (σ.replace inner) dims with
      ⟨-, eq⟩ | ⟨u, ds, -, eq, merged⟩ | ⟨-, -, eq⟩
    · rwa [eq] at h
    · rw [merged, TypeRef.fits] at h
      rwa [eq, TypeRef.fits]
    · rwa [eq, TypeRef.fits] at h
  | .tuple elems, h => allFit_of_allFit_replaceAll elems h
  | .function params ret variadic, h => by
    rw [replace, TypeRef.fits, Bool.and_eq_true] at h
    rw [TypeRef.fits, allFit_of_allFit_replaceAll params h.1, fits_of_fits_replace ret h.2]
    rfl
  | .named _ [] _, _ => rfl
  | .named _ (arg :: args) _, h => by
    rw [replace, TypeRef.fits, TypeRef.allFit, Bool.and_eq_true] at h
    rw [TypeRef.fits, TypeRef.allFit, fits_of_fits_replace arg h.1,
      allFit_of_allFit_replaceAll args h.2]
    rfl

theorem allFit_of_allFit_replaceAll : (types : List TypeRef) →
    TypeRef.allFit (σ.replaceAll types) = true → TypeRef.allFit types = true
  | [], _ => rfl
  | t :: rest, h => by
    rw [replaceAll, TypeRef.allFit, Bool.and_eq_true] at h
    rw [TypeRef.allFit, fits_of_fits_replace t h.1, allFit_of_allFit_replaceAll rest h.2]
    rfl

end

theorem isUnsigned_replace (normal : t.isNormal = true)
    (unknown : ∀ name hint, t = .named name [] hint → σ.find? name = none) :
    (σ.replace t).isUnsigned = t.isUnsigned := by
  cases t with
  | primitive p => rfl
  | pointer inner depth =>
    simp only [TypeRef.isNormal, Bool.and_eq_true, decide_eq_true_eq] at normal
    rw [replace]
    rcases TypeRef.pointerTo_cases (σ.replace inner) depth with
      ⟨none, -⟩ | ⟨u, d, -, -, eq⟩ | ⟨-, -, eq⟩
    · exact absurd none normal.1.1
    · rw [eq]; rfl
    · rw [eq]; rfl
  | array inner dims =>
    simp only [TypeRef.isNormal, Bool.and_eq_true, Bool.not_eq_true', List.isEmpty_eq_false_iff]
      at normal
    rw [replace]
    rcases TypeRef.arrayOf_cases (σ.replace inner) dims with
      ⟨none, -⟩ | ⟨u, ds, -, -, eq⟩ | ⟨-, -, eq⟩
    · exact absurd none normal.1.1
    · rw [eq]; rfl
    · rw [eq]; rfl
  | tuple elems => rfl
  | function params ret variadic => rfl
  | named name args hint =>
    cases args with
    | nil => rw [replace, unknown name hint rfl, Option.getD_none]
    | cons arg rest => rfl

end

/-! ### Parameters and arguments in order -/

section

variable {params : List String} {args : List TypeRef} {name : String}

theorem mem_of_find?_ofParams (h : (ofParams params args).find? name = some t) :
    name ∈ params ∧ t ∈ args :=
  List.of_mem_zip (Table.mem_of_find?_ofList h)

theorem not_mem_of_find?_ofParams (same : params.length = args.length)
    (h : (ofParams params args).find? name = none) : name ∉ params := by
  have unknown := Table.not_mem_of_find?_ofList h
  rwa [List.map_fst_zip (Nat.le_of_eq same)] at unknown

theorem normal_ofParams (normal : ∀ t ∈ args, t.isNormal = true) :
    (ofParams params args).Normal := by
  intro t member
  rcases Table.mem_values_foldl_insert member with listed | nothing
  · obtain ⟨e, zipped, rfl⟩ := List.mem_map.mp listed
    exact normal e.2 (List.of_mem_zip zipped).2
  · exact (List.not_mem_nil nothing).elim

end

end Substitution

end Backend
