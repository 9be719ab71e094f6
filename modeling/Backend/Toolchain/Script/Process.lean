import Backend.Toolchain.Script.Files

/-!
Processes: parts of scripts that run apart, signals that reach them, and jobs in the background.

Commands are run one after another. A job is run to its end when it is started, on a clock of its
own; what it writes is put in order by time. If a signal reaches it before its end, it is run
again with that signal.
-/

namespace Backend.Script

inductive Chunk where
  | text (s : String) (quoted : Bool)
  | split (pieces : List String)
  | fields (values : List String)

structure Level where
  run : Command → Shell Unit
  expand : Bool → Word → Shell (List Chunk)
  start : String → List String → Shell Unit

/-! ### Texts of commands -/

def runLines (self : Level) (ranAny : Bool) : Nat → Reader → Shell Unit
  | 0, _ => throw .endless
  | n + 1, r => do
    let s ← get
    match Reader.readLine { r with aliases := s.aliases, documents := s.documents } with
    | .error mistake r =>
      modify fun s => { s with documents := r.documents, line := mistake.line }
      fault ("Syntax error: " ++ mistake.text)
    | .ok .finished _ => unless ranAny do setStatus 0
    | .ok (.commands none) r => runLines self ranAny n r
    | .ok (.commands (some c)) r => do
      modify fun s => { s with documents := r.documents, readLine := r.line }
      self.run c
      runLines self true n r

def runText (self : Level) (source : String) : Shell Unit := do
  let reader : Reader := { input := source.toList }
  let before := (← get).readLine
  ensuring (runLines self false reader.bound reader)
    (modify fun s => { s with readLine := before })

def withTested (isTested isLast : Bool) (act : Shell Unit) : Shell Unit := do
  let before ← get
  set { before with isTested, isLast }
  ensuring act do
    modify fun s => { s with isTested := before.isTested, isLast := before.isLast }

/-! ### Signals -/

def receive (signal : Nat) : Shell Unit := do
  let s ← get
  let trap := if signal ∈ unstoppableSignals then none else s.traps.lookup signal
  match trap with
  | some "" => pure ()
  | some _ => unless signal ∈ s.pending do set { s with pending := s.pending ++ [signal] }
  | none =>
    unless signal ∈ harmlessSignals || (19 ≤ signal && signal ≤ 22) do throw (.killed signal)

def State.isDue (s : State) (time : Nat) (d : Delivery) : Bool :=
  d.target = s.pid && d.time ≤ time

def advanceTo (time : Nat) : Shell Unit := do
  let s ← get
  let due := (s.deliveries.filter (s.isDue time)).mergeSort fun a b => a.time ≤ b.time
  set { s with deliveries := s.deliveries.filter fun d => !s.isDue time d }
  for d in due do
    modify fun s => { s with clock := max s.clock d.time }
    receive d.signal
  modify fun s => { s with clock := max s.clock time }

def checkSignals : Shell Unit := do advanceTo (← get).clock

def runTraps (self : Level) : Shell Unit := do
  let s ← get
  set { s with pending := [] }
  for signal in s.pending do
    match (← get).traps.lookup signal with
    | some action =>
      let status := (← get).status
      modify fun s => { s with trapStatus := some status }
      ensuring (withTested false false (runText self action))
        (modify fun s => { s with trapStatus := none })
      setStatus status
    | none => pure ()

def runExitTrap (self : Level) : Shell Unit := do
  let s ← get
  match s.traps.lookup 0 with
  | some action =>
    set { s with
      traps := s.traps.filter fun t => t.1 ≠ 0
      trapStatus := some s.status
      isTested := false
      isLast := false }
    match ← caught (runText self action) with
    | some .exit | some .fault => pure ()
    | some (.killed n) => throw (.killed n)
    | some .endless => throw .endless
    | _ => setStatus s.status
  | none => pure ()

/-! ### Parts that run apart -/

def asProcess (self : Level) (act : Shell Unit) : Shell Outcome := do
  let ending : Shell Unit := do
    match ← caught act with
    | some (.killed n) => throw (.killed n)
    | some .endless => throw .endless
    | _ => runExitTrap self
  match ← caught ending with
  | some (.killed n) => return .signalled n
  | some .endless => throw .endless
  | _ => return .exited ((← get).status % 256)

def Process.fork (p : Process) (pid : Nat) : Process :=
  { p with
    pid
    ancestors := p.pid :: p.ancestors
    traps := p.traps.filter fun t => t.2 = "" && t.1 ≠ 0
    pending := []
    jobs := []
    isLast := false }

def newPid : Shell Nat := do
  let s ← get
  set { s with lastPid := s.lastPid + 1 }
  return s.lastPid + 1

def forked (self : Level) (act : Shell Unit) : Shell Outcome := do
  let before ← get
  let pid ← newPid
  modify fun s => { s with toProcess := before.toProcess.fork pid }
  let outcome ← asProcess self act
  modify fun s => { s with toProcess := before.toProcess }
  checkSignals
  receive childSignal
  return outcome

def noteOutcome : Outcome → Shell Unit
  | .signalled n => do
    match signalNote? n with
    | some note => warn (note ++ "\n")
    | none => pure ()
  | .exited _ => pure ()

def isolated (self : Level) (act : Shell Unit) : Shell Unit := do
  let outcome ← forked self act
  noteOutcome outcome
  setStatus outcome.status

/-! ### Jobs -/

def runJob (self : Level) (start : Start) : Shell (Option Nat × Outcome) := do
  let before ← get
  set { before with
    toProcess := start.process
    clock := start.time
    steps := min before.steps maxJobSteps }
  let result ← tryCatch (do return some (← asProcess self (self.run start.body)))
    fun _ => return none
  let s ← get
  set { s with
    toProcess := before.toProcess
    clock := before.clock
    steps := before.steps - (min before.steps maxJobSteps - s.steps) }
  match result with
  | some outcome => return (some s.clock, outcome)
  | none => return (none, .exited 0)

def freeNumber (jobs : List Job) : Nat :=
  ((List.range (jobs.length + 1)).find? fun n => !jobs.any fun j => j.number = n + 1).getD 0 + 1

def sendEnd (target job : Nat) (ends : Option Nat) : Shell Unit := do
  match ends with
  | some time =>
    let d : Delivery := { target, sender := job, time, signal := childSignal }
    modify fun s => { s with deliveries := s.deliveries ++ [d] }
  | none => pure ()

def startJob (self : Level) (body : Command) : Shell Unit := do
  let pid ← newPid
  let silent ← newHandle (.device .null)
  let s ← get
  let forked := s.toProcess.fork pid
  let process :=
    { forked with
      job := pid
      traps := (2, "") :: (3, "") :: forked.traps.filter fun t => t.1 ≠ 2 && t.1 ≠ 3
      descriptors := (0, silent) :: forked.descriptors.filter fun e => e.1 ≠ 0
      isTested := false
      isLast := true }
  let start : Start := { pid, time := s.clock + 100, body, process }
  let (ends, outcome) ← runJob self start
  sendEnd s.pid pid ends
  modify fun s =>
    let jobs := s.jobs.filter fun j => !j.wasWaitedFor
    let job : Job := { number := freeNumber jobs, pid, ends, outcome }
    { s with starts := start :: s.starts, jobs := jobs ++ [job], lastJob := some pid }

def Job.isRunning (j : Job) (time : Nat) : Bool :=
  match j.ends with
  | some t => time < t
  | none => true

def signalJob (self : Level) (j : Job) (signal : Nat) : Shell Unit := do
  let s ← get
  match s.starts.find? fun start => start.pid = j.pid with
  | none => pure ()
  | some start =>
    let delivery : Delivery := { target := j.pid, sender := s.job, time := s.clock, signal }
    let deliveries := s.deliveries.filter (fun d => d.sender ≠ j.pid) ++ [delivery]
    let others (b : Buffer) : Buffer :=
      { b with written := b.written.filter fun w => w.job ≠ j.pid }
    set { s with deliveries, buffers := s.buffers.map others }
    let (ends, outcome) ← runJob self start
    sendEnd s.pid j.pid ends
    modify fun s =>
      { s with
        deliveries := s.deliveries ++ deliveries.filter fun d => d.target = j.pid
        jobs := s.jobs.map fun k => if k.pid = j.pid then { k with ends, outcome } else k }

def waitFor (j : Job) : Shell (Option Nat) := do
  let s ← get
  let ends ← match j.ends with
    | some t => pure t
    | none =>
      match s.deliveries.find? fun d => d.target = s.pid && d.signal ≠ childSignal with
      | some d => pure d.time
      | none => throw .endless
  let first := (s.deliveries.filter (s.isDue ends)).mergeSort fun a b => a.time ≤ b.time
  match first.find? fun d =>
      d.signal ≠ childSignal && (s.traps.lookup d.signal).any (· ≠ "") with
  | some d =>
    advanceTo d.time
    return some d.signal
  | none =>
    advanceTo ends
    modify fun s =>
      { s with jobs := s.jobs.map fun k =>
          if k.pid = j.pid then { k with wasWaitedFor := true } else k }
    return none

end Backend.Script
