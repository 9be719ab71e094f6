import Backend.Toolchain.Script.Builtin.Options
import Backend.Toolchain.Script.Process

/-! Commands on signals and jobs. -/

namespace Backend.Script

def killUsage : String :=
  "Usage: kill [-s sigspec | -signum | -sigspec] [pid | job]... or\nkill -l [exitstatus]"

def findJob? (jobs : List Job) (spec : String) : Option Job :=
  match spec with
  | "%" | "%%" | "%+" => jobs.getLast?
  | "%-" => (jobs.reverse.drop 1).head?
  | spec =>
    match spec.toList with
    | '%' :: digits =>
      if !digits.isEmpty && digits.all Char.isDigit then
        jobs.find? fun j => j.number = valueOf 10 digits
      else none
    | _ => none

def isJobSpec (arg : String) : Bool := arg.toList.head? = some '%'

def jobArg (spec : String) : Shell Job := do
  match findJob? (← get).jobs spec with
  | some j => return j
  | none => fault ("No such job: " ++ spec)

def sendSignal (self : Level) (pid signal : Nat) : Shell Bool := do
  let s ← get
  if pid = s.pid || pid = 0 then
    unless signal = 0 do receive signal
    return true
  else if pid ∈ s.ancestors then
    let d : Delivery := { target := pid, sender := s.job, time := s.clock, signal }
    unless signal = 0 do set { s with deliveries := s.deliveries ++ [d] }
    return true
  else match s.jobs.find? fun j => j.pid = pid with
    | some j =>
      if j.isRunning s.clock then
        unless signal = 0 do signalJob self j signal
        return true
      else return !j.wasWaitedFor
    | none => return false

def sendTo (self : Level) (signal : Nat) (targets : List String) : Shell Unit := do
  setStatus 0
  for target in targets do
    let isThere ←
      if isJobSpec target then
        let _ ← jobArg target
        pure false
      else match target.toList with
        | '-' :: digits => do
          let group ← countArg (String.ofList digits)
          if group = 0 then sendSignal self 0 signal else pure false
        | _ => sendSignal self (← countArg target) signal
    unless isThere do
      complain "No such process\n"
      setStatus 1

def listSignals (args : List String) : Shell Unit := do
  match args.head? with
  | none =>
    print "0\n"
    for n in List.range signalCount do
      unless n = 0 do print (signalName n ++ "\n")
  | some arg =>
    let n ← countArg arg
    let n := if 128 < n then n - 128 else n
    if 0 < n && n < signalCount then print (signalName n ++ "\n")
    else fault ("invalid signal number or exit status: " ++ arg)
  setStatus 0

def signalArg (name : String) : Shell Nat :=
  match signalNumber? 1 name with
  | some n => return n
  | none => fault ("invalid signal number or name: " ++ name)

def kill (self : Level) (args : List String) : Shell Unit := do
  match args with
  | [] => fault killUsage
  | first :: rest =>
    match first.toList with
    | '-' :: c :: letters =>
      match if first = "--" then none else signalNumber? 1 (String.ofList (c :: letters)) with
      | some n => if rest.isEmpty then fault killUsage else sendTo self n rest
      | none =>
        let (given, targets) ← options "ls:" args
        if given.any fun g => g.1 = 'l' then listSignals targets
        else
          let n ← match given.getLast? with
            | some (_, name) => signalArg name
            | none => pure 15
          if targets.isEmpty then fault killUsage else sendTo self n targets
    | _ => sendTo self 15 args

/-! ### Traps -/

def listTraps : Shell Unit := do
  let traps := (← get).traps.mergeSort fun a b => a.1 ≤ b.1
  for (n, action) in traps do
    print ("trap -- " ++ singleQuoted action ++ " " ++ signalName n ++ "\n")

def setTraps (action : Option String) : List String → Shell Unit
  | [] => setStatus 0
  | name :: rest => do
    match signalNumber? 0 name with
    | none =>
      warn ("trap: " ++ name ++ ": bad trap\n")
      setStatus 1
    | some n =>
      modify fun s =>
        let others := s.traps.filter fun t => t.1 ≠ n
        { s with traps := match action with
            | some a => (n, a) :: others
            | none => others }
      setTraps action rest

def trap (args : List String) : Shell Unit := do
  let (_, args) ← options "" args
  match args with
  | [] =>
    listTraps
    setStatus 0
  | [name] => setTraps none [name]
  | action :: names =>
    let digits := action.toList
    if !digits.isEmpty && digits.all Char.isDigit && valueOf 10 digits < signalCount then
      setTraps none (action :: names)
    else setTraps (if action = "-" then none else some action) names

/-! ### Jobs -/

def waitForAll : List Job → Shell Unit
  | [] => setStatus 0
  | j :: rest => do
    match ← waitFor j with
    | some signal => setStatus (128 + signal)
    | none => waitForAll rest

def waitForEach : List String → Shell Unit
  | [] => pure ()
  | arg :: rest => do
    let job ←
      if isJobSpec arg then pure (some (← jobArg arg))
      else do
        let pid ← countArg arg
        pure ((← get).jobs.find? fun j => j.pid = pid)
    match job with
    | none =>
      setStatus 127
      waitForEach rest
    | some j =>
      match ← waitFor j with
      | some signal => setStatus (128 + signal)
      | none =>
        unless j.wasWaitedFor do noteOutcome j.outcome
        setStatus j.outcome.status
        waitForEach rest

def waitCommand (args : List String) : Shell Unit := do
  let (_, args) ← options "" args
  if args.isEmpty then waitForAll (← get).jobs else waitForEach args

def jobState (j : Job) (time : Nat) : String :=
  if j.isRunning time then "Running"
  else match j.outcome with
    | .exited 0 => "Done"
    | .exited n => "Done(" ++ toString n ++ ")"
    | .signalled n => (signalNote? n).getD ""

def padTo (width : Nat) (s : String) : String :=
  s ++ String.ofList (List.replicate (width - s.length) ' ')

def showJobs (withPid onlyPid : Bool) : Nat → List Job → Shell Unit
  | _, [] => pure ()
  | kept, j :: rest => do
    let time := (← get).clock
    let mark := if kept = 0 then "+" else if kept = 1 then "-" else " "
    let pid := if withPid then toString j.pid ++ " " else ""
    if onlyPid then print (toString j.pid ++ "\n")
    else
      print ("[" ++ toString j.number ++ "] " ++ mark ++ " " ++ pid ++
        padTo 27 (jobState j time) ++ "\n")
    if j.isRunning time then showJobs withPid onlyPid (kept + 1) rest
    else
      modify fun s => { s with jobs := s.jobs.filter fun k => k.pid ≠ j.pid }
      showJobs withPid onlyPid kept rest

def listJobs (args : List String) : Shell Unit := do
  let (given, _) ← options "lp" args
  showJobs (given.any fun g => g.1 = 'l') (given.any fun g => g.1 = 'p') 0 (← get).jobs.reverse
  setStatus 0

def moveJob (args : List String) : Shell Unit := do
  let (_, args) ← options "" args
  match args.head? with
  | some spec => discard (jobArg spec)
  | none => if (← get).jobs.isEmpty then fault "No current job"
  fault "job (null) not created under job control"

end Backend.Script
