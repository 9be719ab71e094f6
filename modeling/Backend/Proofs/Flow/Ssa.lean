import Backend.Proofs.Flow.Function

/-!
Single assignment. Main statement: in the function that `Gen.emitFunction` adds to the output every
numbered register is set by one line, which stands before all lines that read it and dominates them.
-/

namespace Backend

variable {b : Block} {f f' : Frame} {line : Line} {incoming : List Incoming} {n : Nat}
  {s s' : Session}

/-! ### Registers and their text -/

theorem Register.toList_text_temp (n : Nat) :
    (Register.temp n).text.toList = '%' :: 't' :: Nat.toDigits 10 n := by
  have prefixed : (Register.temp n).text = "%t" ++ n.repr := rfl
  simp [prefixed, String.toList_append]

theorem Register.text_temp_injective {m : Nat}
    (h : (Register.temp m).text = (Register.temp n).text) : m = n := by
  have chars := congrArg String.toList h
  rw [toList_text_temp, toList_text_temp] at chars
  exact toDigits_injective (List.cons.inj (List.cons.inj chars).2).2

theorem Register.text_named_ne_temp {name : String} {c : Char} (last : name.toList.getLast? = some c)
    (letter : c.isDigit = false) (n : Nat) : (Register.named name).text ≠ (Register.temp n).text := by
  intro same
  have chars := congrArg String.toList same
  rw [toList_text_temp, show (Register.named name).text = "%" ++ name from rfl, String.toList_append]
    at chars
  have tail : name.toList = 't' :: Nat.toDigits 10 n := (List.cons.inj chars).2
  rw [tail] at last
  have digit : c ∈ Nat.toDigits 10 n := by
    cases digits : Nat.toDigits 10 n with
    | nil => exact (Nat.toDigits_ne_nil digits).elim
    | cons d ds =>
      rw [digits, List.getLast?_cons_cons] at last
      exact List.mem_of_getLast? last
  rw [Nat.isDigit_of_mem_toDigits (by decide) (by decide) digit] at letter
  cases letter

/-! ### From points to functions -/

/-- What a point knows of the lines so far, once they are all there. -/
structure Point.Describes (p : Point) (f : FunctionDef) : Prop where
  ok : p.Ok
  lines : f.body = p.lines
  slots : f.slotRegisters = p.slots
  incoming : ∀ r ∈ p.incoming, ∃ name, r = .named name

namespace Point.Describes

variable {p : Point} {f : FunctionDef} (h : p.Describes f)

include h

theorem definitions_perm : f.definitions.Perm ((List.range p.frame.nextReg).map .temp) := by
  rw [FunctionDef.definitions, h.slots, h.lines]
  exact h.ok.counted

theorem definitions_nodup : f.definitions.Nodup := by
  rw [h.definitions_perm.nodup_iff]
  exact List.nodup_range.map fun m n same => by simpa using same

theorem not_named_mem_definitions (name : String) : .named name ∉ f.definitions := by
  rw [h.definitions_perm.mem_iff]
  simp

theorem slot_of_always (always : p.Always (.temp n)) : .temp n ∈ f.slotRegisters := by
  rcases always with incoming | slot
  · obtain ⟨name, same⟩ := h.incoming _ incoming
    cases same
  · rw [h.slots]
    exact slot

theorem sound : Everywhere (LineSound p.Always p.promise) f.body := by
  rw [h.lines]
  exact h.ok.sound

theorem dominated (member : b ∈ f.blocks) (reached : f.Reachable b.label)
    {before after : List Line} (split : b.lines = before ++ line :: after)
    (read : .reg (.temp n) ∈ line.operands) : f.Supplies (.temp n) b.label before := by
  obtain ⟨lines, rest, body, position, opened⟩ := FunctionDef.blocks_split member split
  have available := (h.sound lines line rest body).reads _ read
  rw [Available, position, opened] at available
  exact FunctionDef.supplies_of_available h.ok.start h.sound h.definitions_nodup reached
    h.slot_of_always available

theorem merged (distinct : (f.blocks.map fun b => b.label.text).Nodup) (member : line ∈ f.body)
    {l : Label} (arm : (.reg (.temp n), l) ∈ line.arms) (reached : f.Reachable l)
    (among : b ∈ f.blocks) (label : b.label = l) : f.Supplies (.temp n) l b.lines := by
  obtain ⟨before, after, body⟩ := List.append_of_mem member
  refine FunctionDef.supplies_of_available h.ok.start h.sound h.definitions_nodup reached
    h.slot_of_always (((h.sound before line after body).arms _ _ arm).imp_right fun either => ?_)
  refine either.imp_right ?_
  rintro ⟨xs, setter, ys, split, position, set⟩
  have inner : setter.label? = none := by
    cases setter with
    | label l => cases set
    | _ => rfl
  obtain ⟨b', among', label', inside⟩ := FunctionDef.exists_block inner
    (show f.body = xs ++ setter :: (ys ++ line :: after) by rw [body, split]; simp)
  have same : b' = b := by
    have texts := List.inj_on_of_nodup_map distinct
    exact texts among' among (by rw [label', label, position])
  rw [← same]
  exact List.mem_filterMap.mpr ⟨setter, inside, set⟩

theorem ssa (distinct : (f.blocks.map fun b => b.label.text).Nodup)
    (params : ∀ p ∈ f.params, ∀ n, (Register.named p.2).text ≠ (Register.temp n).text) : f.Ssa where
  numbered := by
    intro r member
    obtain ⟨n, -, same⟩ := List.mem_map.mp (h.definitions_perm.mem_iff.mp member)
    exact ⟨n, same.symm⟩
  unique := by
    rw [(h.definitions_perm.map Register.text).nodup_iff, List.map_map]
    exact List.nodup_range.map fun m n same => Register.text_temp_injective same
  distinct := params
  ordered := by
    intro before line after body n mention
    exact ((h.sound before line after body).written _ mention).imp_left h.slot_of_always
  dominated := fun b member reached before line after split n read =>
    h.dominated member reached split read
  merged := fun line member n l arm reached b among label =>
    h.merged distinct member arm reached among label

end Point.Describes

/-! ### Functions -/

open Emit

theorem receiverParam_registers {receiver : Option String}
    (h : receiverParam receiver f s = .ok (incoming, f') s') :
    ∀ i ∈ incoming, i.register = "this" := by
  cases receiver with
  | none =>
    obtain ⟨rfl, -⟩ := pure_ok h
    exact List.forall_mem_nil _
  | some owner =>
    obtain ⟨ty, f₁, s₁, -, rest⟩ := bind_ok h
    obtain ⟨rfl, -⟩ := pure_ok rest
    exact List.forall_mem_singleton.mpr rfl

theorem incomingParams_registers {params : List Field}
    (h : incomingParams params f s = .ok (incoming, f') s') :
    ∀ i ∈ incoming, ∃ name, i.register = name ++ ".arg" := by
  unfold incomingParams at h
  induction params generalizing f s incoming with
  | nil =>
    obtain ⟨rfl, -⟩ := pure_ok h
    exact List.forall_mem_nil _
  | cons p rest ih =>
    rw [List.mapM_cons] at h
    obtain ⟨i, f₁, s₁, first, later⟩ := bind_ok h
    obtain ⟨is, f₂, s₂, others, last⟩ := bind_ok later
    obtain ⟨rfl, rfl, rfl⟩ := pure_ok last
    obtain ⟨ir, f₃, s₃, -, made⟩ := bind_ok first
    obtain ⟨rfl, -⟩ := pure_ok made
    exact List.forall_mem_cons.mpr ⟨⟨p.name, rfl⟩, ih others⟩

theorem Register.text_incoming_ne_temp {register : String}
    (h : register = environmentParam ∨ register = "this" ∨ ∃ name, register = name ++ ".arg")
    (n : Nat) : (Register.named register).text ≠ (Register.temp n).text := by
  rcases h with rfl | rfl | ⟨name, rfl⟩
  · exact text_named_ne_temp (c := 'v') (by decide) (by decide) n
  · exact text_named_ne_temp (c := 's') (by decide) (by decide) n
  · refine text_named_ne_temp (c := 'g') ?_ (by decide) n
    rw [String.toList_append, List.getLast?_append]
    rfl

def Signature.readable (sig : Signature) (incoming : List Incoming) : List String :=
  (if sig.symbol = "main" ∧ Captures.unpacked sig.captures = false then [] else [environmentParam]) ++
    incoming.map Incoming.register

theorem Signature.body_proceeds (sig : Signature) (incoming : List Incoming) (body : List Stmt) :
    Proceeds ((sig.readable incoming).map fun name => .reg (.named name))
      (functionBody incoming sig.captures body) := by
  refine Acts.proceeds (functionBody_acts body (fun i member => ?_) fun unpacked => ?_)
  · refine List.mem_map_of_mem (f := fun name => Operand.reg (.named name)) ?_
    exact List.mem_append_right _ (List.mem_map_of_mem member)
  · refine List.mem_map_of_mem (f := fun name => Operand.reg (.named name)) ?_
    simp [readable, unpacked]

/-- What is known where a function is complete. An entry point has no environment, but captured
variables are taken out of one all the same. -/
theorem Emit.functionDef_describes {sig : Signature} {body : List Stmt} {σ : Substitution}
    {d : FunctionDef}
    (h : functionDef sig body { symbol := sig.symbol, subst := σ } s = .ok (d, f') s') :
    ∃ p : Point, p.Describes d ∧
      (∀ name, .named name ∈ p.incoming → name ∈ d.params.map Prod.snd ∨
        (name = environmentParam ∧ sig.symbol = "main" ∧ Captures.unpacked sig.captures = true)) ∧
      ∀ param ∈ d.params, ∀ n, (Register.named param.2).text ≠ (Register.temp n).text := by
  obtain ⟨_, _, _, got, ran₁⟩ := bind_ok h
  obtain ⟨rfl, rfl, rfl⟩ := get_ok got
  obtain ⟨ret, _, _, result, ran₂⟩ := bind_ok ran₁
  obtain rfl := resultType_still _ _ result
  obtain ⟨receiver, _, _, this, ran₃⟩ := bind_ok ran₂
  obtain rfl := receiverParam_still _ this
  obtain ⟨params, _, _, incoming, ran₄⟩ := bind_ok ran₃
  obtain rfl := incomingParams_still _ incoming
  obtain ⟨scope, _, _, described, ran₅⟩ := bind_ok ran₄
  obtain rfl := Still.lift _ described
  obtain ⟨_, _, _, set, ran₆⟩ := bind_ok ran₅
  obtain ⟨rfl, rfl⟩ := modify_ok set
  obtain ⟨_, _, _, lowered, ran₇⟩ := bind_ok ran₆
  obtain ⟨_, _, _, got, made⟩ := bind_ok ran₇
  obtain ⟨rfl, rfl, rfl⟩ := get_ok got
  obtain ⟨rfl, rfl, rfl⟩ := pure_ok made
  obtain ⟨q, rfl, ok, le⟩ := sig.body_proceeds (receiver ++ params) body _ lowered
    (Point.start_ok sig.symbol σ ret scope (sig.readable (receiver ++ params)))
    ⟨rfl, Point.start_knows _ _ _ _ _⟩
  have registers : ∀ i ∈ receiver ++ params,
      i.register = "this" ∨ ∃ name, i.register = name ++ ".arg" := by
    intro i member
    rcases List.mem_append.mp member with first | later
    · exact .inl (receiverParam_registers this i first)
    · exact .inr (incomingParams_registers incoming i later)
  refine ⟨q, ⟨ok, rfl, rfl, ?_⟩, ?_, ?_⟩
  · rw [le.incoming]
    intro r member
    obtain ⟨name, -, rfl⟩ := List.mem_map.mp member
    exact ⟨name, rfl⟩
  · intro name member
    rw [le.incoming] at member
    obtain ⟨_, among, same⟩ := List.mem_map.mp member
    cases same
    rcases List.mem_append.mp among with env | param
    · by_cases main : sig.symbol = "main"
      · simp_all
      · simp_all [Frame.isMain]
    · exact .inl (by simp_all)
  · intro param member
    refine Register.text_incoming_ne_temp ?_
    rcases List.mem_append.mp member with env | param
    · split at env
      · cases env
      · exact .inl (by simp_all)
    · obtain ⟨i, among, rfl⟩ := List.mem_map.mp param
      exact .inr (registers i among)

/-- The function that is added to the output is in single-assignment form. Besides the numbered
registers it mentions its parameters only; an entry point that takes captured variables out of an
environment mentions that environment too. -/
theorem Gen.emitFunction_ssa (sig : Signature) (body : List Stmt) (σ : Substitution)
    (s s' : Session) (h : Gen.emitFunction sig body σ s = .ok () s') :
    ∃ earlier f, s'.output.functions = earlier ++ [f] ∧ f.symbol = sig.symbol ∧ f.Ssa ∧
      ∀ line ∈ f.body, ∀ name, .reg (.named name) ∈ line.mentions →
        name ∈ f.params.map Prod.snd ∨ (name = environmentParam ∧ sig.symbol = "main" ∧
          Captures.unpacked sig.captures = true) := by
  obtain ⟨⟨f, frame⟩, s₁, ran, added⟩ := Gen.bind_ok h
  cases added
  obtain ⟨symbol, wellFormed⟩ := functionDef_wellFormed ran (Frame.blocks_start _ _)
  obtain ⟨p, describes, incoming, params⟩ := functionDef_describes ran
  refine ⟨s₁.output.functions, f, rfl, symbol, describes.ssa wellFormed.unique params, ?_⟩
  intro line member name mention
  obtain ⟨before, after, split⟩ := List.append_of_mem member
  have unset := describes.not_named_mem_definitions name
  rw [FunctionDef.definitions, describes.slots, split, settings_append] at unset
  rcases (describes.sound before line after split).written _ mention with (known | slot) | set
  · exact incoming name known
  · exact (unset (List.mem_append_left _ slot)).elim
  · exact (unset (List.mem_append_right _ (List.mem_append_left _ set))).elim

theorem Gen.emitFunction_ssa_deadCode :
    ∃ s', Gen.emitFunction { symbol := "f", returnType := .i32 } deadCode {} {} = .ok () s' ∧
      ∃ earlier f, s'.output.functions = earlier ++ [f] ∧ f.symbol = "f" ∧ f.Ssa ∧
        ∀ line ∈ f.body, ∀ name, .reg (.named name) ∈ line.mentions →
          name ∈ f.params.map Prod.snd ∨ (name = environmentParam ∧ "f" = "main" ∧
            Captures.unpacked none = true) := by
  have succeeds : (Gen.emitFunction { symbol := "f", returnType := .i32 } deadCode {}).succeeds {} =
      true := by decide +kernel
  obtain ⟨_, s', h⟩ := Gen.exists_ok succeeds
  exact ⟨s', h, Gen.emitFunction_ssa _ _ _ _ _ h⟩

def capturingMain : Signature where
  symbol := "main"
  returnType := .i32
  captures := some { envType := "main_env", fields := [{ name := "x", ty := .i32 }] }

/-- The captured variables of an entry point are read from a register that is not one of its
parameters. -/
theorem Gen.emitFunction_environment_unset :
    ∃ s', Gen.emitFunction capturingMain [] {} {} = .ok () s' ∧
      ∃ f ∈ s'.output.functions, f.params = [] ∧
        ∃ line ∈ f.body, .reg (.named environmentParam) ∈ line.mentions := by
  have reached : (Gen.emitFunction capturingMain [] {}).reaches {} (fun s =>
      ∃ f ∈ s.output.functions, f.params = [] ∧
        ∃ line ∈ f.body, .reg (.named environmentParam) ∈ line.mentions) = true := by decide +kernel
  obtain ⟨_, s', ran, unset⟩ := Gen.exists_reached reached
  exact ⟨s', ran, unset⟩

end Backend
