import Backend.Proofs.Resolution.Follows

/-!
Resolution under a substitution and resolution of substituted types. Main statement:
`Gen.resolve_image`, a type under a substitution resolves as the substituted type does, with the
same session. The substituted type nests less deep, since a parameter is one level of resolution and
a pointer to a pointer is merged.
-/

namespace Backend

variable {args types : List TypeRef} {depth m n : Nat} {s : Session} {τ : Substitution}
  {inner t ty ty' : TypeRef}

namespace Resolution

open Gen

variable {B : Prop} {σ : Substitution} {r r' : Resolver} {α : Type} {P : α → Prop}

/-! ### Levels -/

theorem nested_run {x : Gen α} {a : α} {s₁ : Session} (within : s.resolveDepth < maxResolveDepth)
    (run : x { s with resolveDepth := s.resolveDepth + 1 } = .ok a s₁) :
    nested ty x s = .ok a { s₁ with resolveDepth := s₁.resolveDepth - 1 } := by
  unfold nested
  rw [bind_of_ok (x := get) rfl, if_neg (Nat.not_le.mpr within), bind_of_ok (x := modify _) rfl,
    finally_run, run]

theorem steady_counted (steady : s.Steady B σ) (depth : Nat) :
    Session.Steady B σ { s with resolveDepth := depth } :=
  ⟨steady.holds.alike ⟨rfl, rfl, rfl, rfl, rfl, rfl⟩, steady.undeclared, steady.targets⟩

theorem nested_follows {x y : Gen α} (h : Gen.Follows B σ P x y) :
    Gen.Follows B σ P (nested ty x) (nested ty' y) := by
  intro s a s' run steady
  obtain ⟨within, s₁, ran, rfl⟩ := nested_ok run
  obtain ⟨result, asked, goes, again⟩ := h ran (steady_counted steady _)
  have depth₁ : s₁.resolveDepth = s.resolveDepth + 1 := goes.depth
  refine ⟨result, asked, ?_, fun depth le queue => ?_⟩
  · exact {
      goes with
      steady := steady_counted goes.steady _
      depth := by simp only [depth₁]; omega }
  · have counted := again (depth + 1) (Nat.succ_le_succ le) queue
    exact nested_run (s := s.moved depth queue) (Nat.lt_of_le_of_lt le within) counted

theorem nested_follows_unnested {x y : Gen α} (h : Gen.Follows B σ P x y) :
    Gen.Follows B σ P (nested ty x) y := by
  intro s a s' run steady
  obtain ⟨within, s₁, ran, rfl⟩ := nested_ok run
  obtain ⟨result, asked, goes, again⟩ := h ran (steady_counted steady _)
  have depth₁ : s₁.resolveDepth = s.resolveDepth + 1 := goes.depth
  refine ⟨result, asked, ?_, fun depth le queue => again depth (Nat.le_succ_of_le le) queue⟩
  exact {
    goes with
    steady := steady_counted goes.steady _
    depth := by simp only [depth₁]; omega }

/-! ### One level with another resolver -/

structure Resolver.Follows (B : Prop) (σ : Substitution) (r r' : Resolver) : Prop where
  under : ∀ t τ, t.isNormal = true → τ.Normal → Agrees B σ (r t τ) (r' t τ)
  settled : ∀ t, t.isNormal = true → Gen.Follows B σ (Settled B σ t) (r t {}) (r' t {})

theorem Resolver.Follows.resolvers (hr : Resolver.Follows B σ r r')
    {queues : PendingQueue → PendingQueue → Prop} (grows : Growing queues)
    (steady : s.Steady B σ) (le : depth ≤ s.resolveDepth) :
    (Follows.walk B σ s depth queues).Resolvers r r' where
  answers := fun {t τ} normal admits => by
    change Beside.Answers _ (r t τ) (r' t (τ.retype id))
    rw [normalTypes.retype_id]
    exact ((hr.under t τ normal (shallower_admits.mp admits)).pairs grows steady le).imp
      fun _ _ both => both.1.symm
  payload := fun {t} normal => (hr.settled t normal).pairs grows steady le

theorem concreteType_follows (hr : Resolver.Follows B σ r r') (kind : DeclKind) (name : String)
    (normal : TypeRef.allNormal args = true) :
    Agrees B σ (concreteType r kind name args) (concreteType r' kind name args) :=
  .of_pairs fun s depth queues grows steady le => by
    have all : args.all TypeRef.isNormal = true :=
      List.all_eq_true.mpr (TypeRef.allNormal_iff.mp normal)
    have pairs := Walk.concreteType_pairs (hr.resolvers grows steady le)
      (shallower_lawful grows) kind name all
    change Beside.Answers _ _ (concreteType r' kind name (args.map id)) at pairs
    rwa [List.map_id] at pairs

theorem step_follows (hr : Resolver.Follows B σ r r') (normal : t.isNormal = true)
    (values : τ.Normal) : Agrees B σ (step r t τ) (step r' t τ) :=
  .of_pairs fun s depth queues grows steady le => by
    have pairs := Walk.step_pairs (hr.resolvers grows steady le) (shallower_lawful grows)
      shallower_structural normal (shallower_admits.mpr values)
    change Beside.Answers _ _ (step r' t (τ.retype id)) at pairs
    rwa [normalTypes.retype_id] at pairs

theorem checkArity_follows (decl : String) (params : List String) (args : List TypeRef) :
    Gen.Follows B σ (fun _ => params.length = args.length) (checkArity decl params args)
      (checkArity decl params args) :=
  .ite (fun same => .pure same) fun _ => .fail

theorem substitute_follows (τ : Substitution) (t : TypeRef) :
    Gen.Follows B σ (fun out => out = τ.apply t) (substitute τ t) (substitute τ t) :=
  .ite (fun _ => .pure rfl) fun _ => .throw

theorem aliasTarget_follows (name : String) (normal : TypeRef.allNormal args = true) :
    Gen.Follows B σ
      (fun out => out.isNormal = true ∧
        ((∀ n ∈ TypeRef.allSimpleNames args, σ.find? n = none) →
          ∀ n ∈ out.simpleNames, σ.find? n = none))
      (aliasTarget name args) (aliasTarget name args) := by
  refine .reads (fun _ _ _ => rfl) fun s steady => ?_
  refine (Follows.orFail fun a found => Table.mem_values_of_find? found).bind fun a member => ?_
  refine (checkArity_follows _ _ _).bind fun _ arity => (substitute_follows _ _).weaken ?_
  rintro out rfl
  have targetNormal : a.target.isNormal = true := by
    have allowed := steady.holds.decls.typeAliases a member
    simp only [Retyping.typeAlias, Bool.and_eq_true] at allowed
    exact allowed.2
  have values : (Substitution.ofParams a.typeParams args).Normal :=
    Substitution.normal_ofParams fun t => TypeRef.isNormal_of_mem normal
  refine ⟨Substitution.isNormal_apply values targetNormal, fun unknown n inTarget => ?_⟩
  rw [Substitution.apply_eq_replace _ targetNormal] at inTarget
  rcases Substitution.leaves_replace _ n inTarget with ⟨inside, free⟩ | ⟨param, t, found, inside⟩
  · have notParam := Substitution.not_mem_of_find?_ofParams arity free
    exact (steady.targets a member n inside).resolve_left notParam
  · have inArgs := (Substitution.mem_of_find?_ofParams found).2
    exact unknown n (TypeRef.mem_allSimpleNames.mpr ⟨t, inArgs, inside⟩)

/-! ### All levels -/

theorem settled (ground : σ.Ground) (normal : t.isNormal = true) {y : Gen IrType}
    (h : Agrees B σ (resolveWithin n t {}) y) :
    Gen.Follows B σ (Settled B σ t) (resolveWithin n t {}) y := by
  intro s ty s' run steady
  refine ⟨fun emitted => ⟨normal, fun name hint same param => ?_⟩, (h run steady).2⟩
  subst same
  refine named_isNumber ?_ (steady.undeclared emitted name param) run
  cases found : Primitive.ofName? name with
  | none => rfl
  | some p => exact absurd (ground.primitive name p found) param

theorem resolveWithin_follows (ground : σ.Ground) (le : n ≤ m) :
    Resolver.Follows B σ (resolveWithin n) (resolveWithin m) := by
  induction n generalizing m with
  | zero => exact ⟨fun _ _ _ _ => .throw, fun _ _ => .throw⟩
  | succ n ih =>
    obtain ⟨m, rfl⟩ := Nat.exists_eq_add_of_lt (Nat.lt_of_lt_of_le (Nat.succ_pos n) le)
    rw [Nat.zero_add] at le ⊢
    have under (t : TypeRef) (τ : Substitution) (normal : t.isNormal = true) (values : τ.Normal) :
        Agrees B σ (resolveWithin (n + 1) t τ) (resolveWithin (m + 1) t τ) :=
      nested_follows (step_follows (ih (Nat.le_of_succ_le_succ le)) normal values)
    exact ⟨under, fun t normal =>
      settled ground normal (under t {} normal Substitution.normal_empty)⟩

/-! ### Wrappers -/

def pointerType (depth : Nat) (base : IrType) : IrType :=
  (if base.isVoid then IrType.i8 else base).ptrs depth

theorem ptrs_ptrs (ty : IrType) (depth more : Nat) :
    (ty.ptrs depth).ptrs more = ty.ptrs (depth + more) := by
  induction more with
  | zero => rfl
  | succ more ih => exact congrArg IrType.ptr ih

theorem arrays_arrays (ty : IrType) (dims more : List Nat) :
    (ty.arrays dims).arrays more = ty.arrays (more ++ dims) := by
  induction more with
  | nil => rfl
  | cons d rest ih => exact congrArg (IrType.array d) ih

theorem pointerType_pointerType (some : depth ≠ 0) (more : Nat) (base : IrType) :
    pointerType more (pointerType depth base) = pointerType (depth + more) base := by
  cases depth with
  | zero => exact absurd rfl some
  | succ depth =>
    have solid : (pointerType (depth + 1) base).isVoid = false := rfl
    rw [pointerType, solid, if_neg (by decide), pointerType, ptrs_ptrs, pointerType]

theorem unwrapped (ground : σ.Ground) (normal : inner.isNormal = true) {wrap : IrType → IrType}
    (one : ∀ r : Resolver, step r t {} = r inner {} >>= fun base => pure (wrap base)) (m : Nat) :
    Agrees B σ (resolveWithin m t {})
      (resolveWithin m inner {} >>= fun base => pure (wrap base)) := by
  cases m with
  | zero => exact .throw
  | succ m =>
    change Agrees B σ (nested t (step (resolveWithin m) t {})) _
    rw [one]
    have more : Agrees B σ _ _ := (resolveWithin_follows ground (Nat.le_succ m)).under inner {}
      normal Substitution.normal_empty
    exact nested_follows_unnested (more.bind fun _ _ => .pure trivial)

theorem merged_follows (ground : σ.Ground) (normal : inner.isNormal = true)
    (wrap outer both : IrType → IrType) (merge : ∀ base, outer (wrap base) = both base)
    (one : ∀ r : Resolver, step r t {} = r inner {} >>= fun base => pure (wrap base))
    {x : Gen IrType} (h : Agrees B σ x (resolveWithin m t {})) :
    Agrees B σ (nested ty (x >>= fun base => pure (outer base)))
      (nested ty' (resolveWithin m inner {} >>= fun base => pure (both base))) := by
  have split : (resolveWithin m inner {} >>= fun base => pure (both base)) =
      (resolveWithin m inner {} >>= fun base => pure (wrap base)) >>= fun base => pure (outer base) := by
    simp only [bind_assoc, pure_bind, merge]
  rw [split]
  exact nested_follows ((h.trans (unwrapped ground normal one m)).bind fun _ _ => .pure trivial)

/-! ### Substituted types -/

/-- `r'` resolves substituted types as `r` does under the substitution. -/
def Resolver.Images (B : Prop) (σ : Substitution) (r r' : Resolver) : Prop :=
  ∀ t, t.isNormal = true → Agrees B σ (r t σ) (r' (σ.replace t) {})

theorem substituteAll_image (normal : TypeRef.allNormal types = true) :
    Gen.Follows B σ (fun out => out = σ.replaceAll types) (substituteAll σ types)
      (substituteAll {} (σ.replaceAll types)) := by
  have applied : σ.applyAll types = σ.replaceAll types := by
    rw [Substitution.replaceAll_eq_map, Substitution.applyAll]
    exact List.map_congr_left fun t member =>
      Substitution.apply_eq_replace σ (TypeRef.isNormal_of_mem normal member)
  have same : Substitution.applyAll {} (σ.replaceAll types) = σ.replaceAll types :=
    List.map_id _
  unfold substituteAll
  rw [applied, same]
  exact .ite (fun _ => .pure rfl) fun _ => .throw

theorem declaredType_image (ground : σ.Ground) (hr : Resolver.Follows B σ r r')
    (hi : Resolver.Images B σ r r')
    (name : String) (normal : TypeRef.allNormal args = true) (hint : Option DeclKind) :
    Agrees B σ (declaredType r name args hint σ)
      (declaredType r' name (σ.replaceAll args) hint {}) := by
  refine (substituteAll_image normal).bind fun out same => ?_
  have outNormal : TypeRef.allNormal out = true := by
    rw [same]; exact Substitution.allNormal_replaceAll ground.normal args normal
  have unknown : ∀ n ∈ TypeRef.allSimpleNames out, σ.find? n = none := by
    rw [same, Substitution.replaceAll_eq_map]
    intro n member
    obtain ⟨u, inMap, inside⟩ := TypeRef.mem_allSimpleNames.mp member
    obtain ⟨t, -, rfl⟩ := List.mem_map.mp inMap
    exact ground.unknown t n inside
  refine .reads (fun _ _ _ => rfl) fun s _ => ?_
  cases s.decls.kind? name hint with
  | some kind => exact concreteType_follows hr kind name outNormal
  | none =>
    refine (aliasTarget_follows name outNormal).bind fun target h => ?_
    have image := hi target h.1
    rwa [Substitution.replace_eq_self target h.1 (h.2 unknown)] at image

theorem mapM_image (hi : Resolver.Images B σ r r') (normal : TypeRef.allNormal types = true) :
    Agrees B σ (types.mapM fun t => r t σ) ((σ.replaceAll types).mapM fun t => r' t {}) := by
  rw [Substitution.replaceAll_eq_map, List.mapM_map]
  exact (Follows.mapM (R := fun _ _ => True) types fun t member =>
    hi t (TypeRef.isNormal_of_mem normal member)).weaken fun _ _ => trivial

theorem pointer_image (ground : σ.Ground) (normal : inner.isNormal = true) (some : depth ≠ 0)
    (h : Agrees B σ (resolveWithin n inner σ) (resolveWithin m (σ.replace inner) {})) :
    Agrees B σ (resolveWithin (n + 1) (.pointer inner depth) σ)
      (resolveWithin (m + 1) (.pointerTo (σ.replace inner) depth) {}) := by
  have concrete := Substitution.isNormal_replace ground.normal inner normal
  rcases TypeRef.pointerTo_cases (σ.replace inner) depth with
    ⟨none, -⟩ | ⟨u, d, -, shape, merged⟩ | ⟨-, -, eq⟩
  · exact absurd none some
  · rw [shape] at h concrete
    simp only [TypeRef.isNormal, Bool.and_eq_true, decide_eq_true_eq] at concrete
    rw [merged]
    exact merged_follows ground concrete.2 (pointerType d) (pointerType depth)
      (pointerType (d + depth)) (pointerType_pointerType concrete.1.1 depth) (fun _ => rfl) h
  · rw [eq]
    exact nested_follows (h.bind fun _ _ => .pure trivial)

theorem array_image (ground : σ.Ground) (normal : inner.isNormal = true) {dims : List Nat}
    (some : dims ≠ [])
    (h : Agrees B σ (resolveWithin n inner σ) (resolveWithin m (σ.replace inner) {})) :
    Agrees B σ (resolveWithin (n + 1) (.array inner dims) σ)
      (resolveWithin (m + 1) (.arrayOf (σ.replace inner) dims) {}) := by
  have concrete := Substitution.isNormal_replace ground.normal inner normal
  rcases TypeRef.arrayOf_cases (σ.replace inner) dims with
    ⟨none, -⟩ | ⟨u, ds, -, shape, merged⟩ | ⟨-, -, eq⟩
  · exact absurd none some
  · rw [shape] at h concrete
    simp only [TypeRef.isNormal, Bool.and_eq_true] at concrete
    rw [merged]
    exact merged_follows ground concrete.2 (IrType.arrays · ds) (IrType.arrays · dims)
      (IrType.arrays · (dims ++ ds)) (fun base => arrays_arrays base ds dims) (fun _ => rfl) h
  · rw [eq]
    exact nested_follows (h.bind fun _ _ => .pure trivial)

theorem simpleName_image (ground : σ.Ground) (le : n ≤ m)
    (hi : ∀ k, n ≤ k → Resolver.Images B σ (resolveWithin n) (resolveWithin k)) (name : String)
    (hint : Option DeclKind) : Agrees B σ (resolveWithin (n + 1) (.named name [] hint) σ)
      (resolveWithin (m + 1) (σ.replace (.named name [] hint)) {}) := by
  rw [Substitution.replace]
  cases found : σ.find? name with
  | some mapped =>
    -- a parameter is one level on the left and none on the right
    have noPrimitive : Primitive.ofName? name = none := by
      cases primitive : Primitive.ofName? name with
      | none => rfl
      | some p => rw [ground.primitive name p primitive] at found; cases found
    have self := Substitution.replace_eq_self mapped (ground.normal.found found)
      (ground.closed name mapped found)
    have image := hi (m + 1) (Nat.le_succ_of_le le) mapped (ground.normal.found found)
    rw [self] at image
    refine nested_follows_unnested ?_
    simp only [step, simpleName, noPrimitive, ground.isSelfMapped, found]
    exact image
  | none =>
    refine nested_follows ?_
    simp only [Option.getD_none, step, simpleName, found]
    cases Primitive.ofName? name with
    | some p => exact .pure trivial
    | none =>
      simp only [ground.isSelfMapped]
      exact declaredType_image ground (resolveWithin_follows ground le) (hi m le) name rfl hint

theorem resolveWithin_image (ground : σ.Ground) (le : n ≤ m) :
    Resolver.Images B σ (resolveWithin n) (resolveWithin m) := by
  induction n generalizing m with
  | zero => exact fun _ _ => .throw
  | succ n ih =>
    obtain ⟨m, rfl⟩ := Nat.exists_eq_add_of_lt (Nat.lt_of_lt_of_le (Nat.succ_pos n) le)
    rw [Nat.zero_add] at le ⊢
    have lower := Nat.le_of_succ_le_succ le
    have self : Resolver.Follows B σ _ _ := resolveWithin_follows ground lower
    intro t normal
    cases t with
    | primitive p => exact nested_follows (.pure trivial)
    | pointer inner depth =>
      simp only [TypeRef.isNormal, Bool.and_eq_true, decide_eq_true_eq] at normal
      exact pointer_image ground normal.2 normal.1.1 (ih lower inner normal.2)
    | array inner dims =>
      simp only [TypeRef.isNormal, Bool.and_eq_true, Bool.not_eq_true',
        List.isEmpty_eq_false_iff] at normal
      exact array_image ground normal.2 normal.1.1 (ih lower inner normal.2)
    | tuple elems =>
      exact nested_follows ((mapM_image (ih lower) normal).bind fun _ _ => .pure trivial)
    | function params ret variadic =>
      simp only [TypeRef.isNormal, Bool.and_eq_true] at normal
      refine nested_follows ((ih lower ret normal.2).bind fun _ _ => ?_)
      exact (mapM_image (ih lower) normal.1).bind fun _ _ => .pure trivial
    | named name args hint =>
      cases args with
      | nil => exact simpleName_image ground lower (fun k le => ih le) name hint
      | cons arg rest =>
        exact nested_follows (declaredType_image ground self (ih lower) name normal hint)

end Resolution

theorem Gen.resolve_image {B : Prop} {σ : Substitution} (ground : σ.Ground)
    (normal : t.isNormal = true) : Gen.Agrees B σ (resolve t σ) (resolve (σ.apply t) {}) := by
  rw [Substitution.apply_eq_replace σ normal]
  exact Resolution.resolveWithin_image ground (Nat.le_refl _) t normal

end Backend
