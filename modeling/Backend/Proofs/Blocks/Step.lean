import Backend.Proofs.Blocks.Frame

/-!
What the steps of a body do to its blocks. `Emit.Leads` is a triple about runs that succeed. A step
`Keeps` the blocks if it does so whatever labels are owed or opened, so it can stand between the
making of a label and the opening of its block.
-/

namespace Backend

namespace Emit

variable {α β : Type}

def Leads (P : Frame → Prop) (x : Emit α) (Q : α → Frame → Prop) : Prop :=
  ∀ ⦃f s a f' s'⦄, x f s = .ok (a, f') s' → P f → Q a f'

def Keeps (x : Emit α) : Prop :=
  ∀ owed opened, Leads (Frame.Blocks owed opened) x fun _ => Frame.Blocks owed opened

namespace Leads

variable {P : Frame → Prop} {Q : α → Frame → Prop} {R : β → Frame → Prop}

theorem bind {x : Emit α} {k : α → Emit β} (first : Leads P x Q) (rest : ∀ a, Leads (Q a) (k a) R) :
    Leads P (x >>= k) R := by
  intro f s b f' s' h start
  obtain ⟨a, f₁, s₁, ran, h⟩ := bind_ok h
  exact rest a h (first ran start)

theorem pure {a : α} (h : ∀ f, P f → Q a f) : Leads P (pure a) Q := by
  intro f s b f' s' ran start
  obtain ⟨rfl, rfl, rfl⟩ := pure_ok ran
  exact h f' start

theorem assuming {p : Prop} {x : Emit α} (h : p → Leads P x Q) : Leads (fun f => p ∧ P f) x Q :=
  fun _ _ _ _ _ ran start => h start.1 ran start.2

theorem both {Q' : α → Frame → Prop} {x : Emit α} (h : Leads P x Q) (h' : Leads P x Q') :
    Leads P x fun a f => Q a f ∧ Q' a f :=
  fun _ _ _ _ _ ran start => ⟨h ran start, h' ran start⟩

theorem forgetting {x : Emit α} {owed opened : List Label} (labels : List Label)
    (h : Leads P x fun _ => Frame.Blocks owed (labels ++ opened)) :
    Leads P x fun _ => Frame.Blocks owed opened := by
  intro f s a f' s' ran start
  have blocks := h ran start
  exact blocks.withOpened fun l member => blocks.opened (List.mem_append_right _ member)

end Leads

namespace Keeps

theorem bind {x : Emit α} {k : α → Emit β} (first : x.Keeps) (rest : ∀ a, (k a).Keeps) :
    (x >>= k).Keeps :=
  fun owed opened => .bind (first owed opened) fun a => rest a owed opened

theorem pure (a : α) : (pure a : Emit α).Keeps := fun _ _ => .pure fun _ h => h

theorem fail (cause : Cause) : (fail cause : Emit α).Keeps :=
  fun _ _ _ _ _ _ _ h => (fail_ok h).elim

theorem lift (x : Gen α) : (liftM x : Emit α).Keeps := by
  intro owed opened f s a f' s' h start
  obtain ⟨rfl, -⟩ := lift_ok h
  exact start

theorem orFail (value : Option α) (cause : Cause) : (orFail value cause : Emit α).Keeps := by
  cases value with
  | none => exact fail cause
  | some a => exact pure a

theorem get : (get : Emit Frame).Keeps := by
  intro owed opened f s a f' s' h start
  obtain ⟨-, rfl, -⟩ := get_ok h
  exact start

theorem modify {g : Frame → Frame} (same : ∀ f, Frame.SameBlocks f (g f)) :
    (modify g : Emit Unit).Keeps := by
  intro owed opened f s a f' s' h start
  obtain ⟨rfl, -⟩ := modify_ok h
  exact start.congr (same f)

theorem ite {p : Prop} [Decidable p] {x y : Emit α} (yes : x.Keeps) (no : y.Keeps) :
    (if p then x else y).Keeps := by
  split
  · exact yes
  · exact no

theorem mapM {x : α → Emit β} (xs : List α) (h : ∀ a ∈ xs, (x a).Keeps) : (xs.mapM x).Keeps := by
  induction xs with
  | nil => exact pure []
  | cons a rest ih =>
    rw [List.mapM_cons]
    refine bind (h a List.mem_cons_self) fun b => ?_
    refine bind (ih fun a member => h a (List.mem_cons_of_mem _ member)) fun bs => ?_
    exact pure (b :: bs)

end Keeps

/-! ### Labels, lines and blocks -/

section

variable {owed opened : List Label}

theorem freshLabel_leads (stem : String) :
    Leads (Frame.Blocks owed opened) (freshLabel stem) fun l => Frame.Blocks (l :: owed) opened := by
  intro f s l f' s' h start
  cases h
  exact start.fresh stem

theorem reopen_cases {f f' : Frame} {s s' : Session} (h : reopen f s = .ok ((), f') s') :
    (f.terminated = false ∧ f' = f) ∨
    (f.terminated = true ∧ f' = f.withFreshLabel.entered (.fresh "dead" f.nextLabel)) := by
  obtain ⟨now, f₁, s₁, got, rest⟩ := bind_ok h
  obtain ⟨rfl, rfl, rfl⟩ := get_ok got
  split at rest
  case isTrue ended =>
    cases rest
    exact .inr ⟨ended, rfl⟩
  case isFalse going =>
    obtain ⟨-, rfl, -⟩ := pure_ok rest
    exact .inl ⟨by simpa using going, rfl⟩

theorem reopen_leads : Leads (Frame.Blocks owed opened) reopen
    fun _ f => f.terminated = false ∧ f.Blocks owed opened := by
  intro f s _ f' s' h start
  rcases reopen_cases h with ⟨going, rfl⟩ | ⟨ended, rfl⟩
  · exact ⟨going, start⟩
  · have entered : (f.withFreshLabel.entered _).Blocks ([] ++ owed) _ :=
      (start.fresh "dead").entered ended
    exact ⟨rfl, entered.withOpened fun l member => entered.opened (List.mem_cons_of_mem _ member)⟩

theorem emit_leads {i : Instr} (incoming : i.incoming ⊆ owed ++ opened) :
    Leads (Frame.Blocks owed opened) (emit i) fun _ => Frame.Blocks owed opened := by
  intro f s _ f' s' h start
  obtain ⟨_, f₁, s₁, reopened, rest⟩ := bind_ok h
  obtain ⟨going, blocks⟩ := reopen_leads reopened start
  cases rest
  have pushed : (f₁.pushed (.instr i f₁.location) false).Blocks owed opened :=
    blocks.pushed rfl (by rw [going]; rfl) fun l mention => blocks.known_of_mem (incoming mention)
  exact pushed.congr ⟨rfl, rfl, rfl, going, rfl⟩

theorem terminate_leads {t : Terminator} (targets : t.targets ⊆ owed ++ opened) :
    Leads (Frame.Blocks owed opened) (terminate t) fun _ => Frame.Blocks owed opened := by
  intro f s _ f' s' h start
  obtain ⟨_, f₁, s₁, reopened, rest⟩ := bind_ok h
  obtain ⟨going, blocks⟩ := reopen_leads reopened start
  cases rest
  have pushed : (f₁.pushed (.term t f₁.location) true).Blocks owed opened :=
    blocks.pushed rfl (by rw [going]; rfl) fun l mention => blocks.known_of_mem (targets mention)
  exact pushed

theorem startBlock_leads (before : List Label) {after : List Label} (label : Label) :
    Leads (Frame.Blocks (before ++ label :: after) opened) (startBlock label)
      fun _ => Frame.Blocks (before ++ after) (label :: opened) := by
  intro f s _ f' s' h start
  obtain ⟨now, f₁, s₁, got, rest⟩ := bind_ok h
  obtain ⟨rfl, rfl, rfl⟩ := get_ok got
  split at rest
  case isTrue ended =>
    cases rest
    exact start.entered (by simpa using ended)
  case isFalse going =>
    cases rest
    have owed : label ∈ f₁.known (before ++ label :: after) := by simp [Frame.known]
    have closed : (f₁.pushed (.term (.jump label) none) true).Blocks _ opened :=
      start.pushed rfl (by simp_all [Line.closes]) (by simpa [Line.mentioned, Terminator.targets])
    exact closed.entered rfl

theorem jumpTo_leads {label : Label} (target : label ∈ owed ++ opened) :
    Leads (Frame.Blocks owed opened) (jumpTo label) fun _ => Frame.Blocks owed opened := by
  intro f s _ f' s' h start
  obtain ⟨now, f₁, s₁, got, rest⟩ := bind_ok h
  obtain ⟨rfl, rfl, rfl⟩ := get_ok got
  split at rest
  case isTrue ended =>
    obtain ⟨-, rfl, -⟩ := pure_ok rest
    exact start
  case isFalse going =>
    exact terminate_leads (by simpa [Terminator.targets] using target) rest start

theorem get_leads : Leads (Frame.Blocks owed opened) get
    fun now => Frame.Blocks owed (now.block :: opened) := by
  intro f s now f' s' h start
  obtain ⟨rfl, rfl, rfl⟩ := get_ok h
  exact start.withOpened (List.cons_subset.mpr ⟨start.current, start.opened⟩)

end

/-! ### Steps that keep the blocks -/

theorem freshLabel_keeps (stem : String) : (freshLabel stem).Keeps := by
  intro owed opened f s l f' s' h start
  cases h
  exact {
    start with
    numbered := fun l member n number => Nat.lt_succ_of_lt (start.numbered l member n number) }

theorem freshReg_keeps : freshReg.Keeps := by
  intro owed opened f s a f' s' h start
  cases h
  exact start.congr ⟨rfl, rfl, rfl, rfl, rfl⟩

theorem emit_keeps {i : Instr} (incoming : i.incoming = []) : (emit i).Keeps :=
  fun _ _ => emit_leads (by rw [incoming]; exact List.nil_subset _)

theorem emitValue_leads {owed opened : List Label} (ty : IrType) {i : Register → Instr}
    (incoming : ∀ r, (i r).incoming ⊆ owed ++ opened) :
    Leads (Frame.Blocks owed opened) (emitValue ty i) fun _ => Frame.Blocks owed opened :=
  .bind (freshReg_keeps _ _) fun r => .bind (emit_leads (incoming r)) fun _ => .pure fun _ h => h

theorem emitValue_keeps (ty : IrType) {i : Register → Instr} (incoming : ∀ r, (i r).incoming = []) :
    (emitValue ty i).Keeps :=
  fun _ _ => emitValue_leads ty fun r => by rw [incoming r]; exact List.nil_subset _

theorem terminate_keeps {t : Terminator} (targets : t.targets = []) : (terminate t).Keeps :=
  fun _ _ => terminate_leads (by rw [targets]; exact List.nil_subset _)

theorem alloca_keeps (ty : IrType) : (alloca ty).Keeps :=
  freshReg_keeps.bind fun _ => .bind (.modify fun _ => ⟨rfl, rfl, rfl, rfl, rfl⟩) fun _ => .pure _

theorem resolve_keeps (ty : TypeRef) : (resolve ty).Keeps := Keeps.get.bind fun _ => .lift _

theorem bindLocal_keeps (name : String) (l : Local) : (bindLocal name l).Keeps :=
  .modify fun _ => ⟨rfl, rfl, rfl, rfl, rfl⟩

theorem inScope_keeps {α : Type} {x : Emit α} (h : x.Keeps) : (inScope x).Keeps :=
  Keeps.get.bind fun _ => h.bind fun _ => .bind (.modify
    fun _ => ⟨rfl, rfl, rfl, rfl, rfl⟩) fun _ => .pure _

theorem locationId_keeps (location : Location) (scope : Option Nat) :
    (locationId location scope).Keeps := by
  cases scope with
  | some scope => exact .lift _
  | none => exact .pure _

theorem setLocation_keeps (location : Location) : (setLocation location).Keeps :=
  Keeps.get.bind fun _ => (locationId_keeps _ _).bind fun _ => .modify
    fun _ => ⟨rfl, rfl, rfl, rfl, rfl⟩

theorem locating_keeps {α : Type} (l : Location) {x : Emit α} (h : x.Keeps) :
    (locating l x).Keeps := by
  intro owed opened f s a f' s' ran start
  exact h owed opened (Gen.locating_ok ran) start

end Emit

end Backend
