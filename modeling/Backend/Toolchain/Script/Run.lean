import Backend.Text.Bytes
import Backend.Toolchain.Script.Builtin.Directory
import Backend.Toolchain.Script.Builtin.Jobs
import Backend.Toolchain.Script.Builtin.Names
import Backend.Toolchain.Script.Builtin.Variables
import Backend.Toolchain.Script.Condition
import Backend.Toolchain.Script.Format
import Backend.Toolchain.Script.Redirection

/-!
Running scripts. Commands are run level by level: a level knows how the commands inside a command
are run, and the number of levels is bounded.
-/

namespace Backend.Script

/-! ### Commands of the script's own -/

def fileAnswer (t : Tree) (q : Condition.FileQuestion) (path : String) : Bool :=
  match t.find path with
  | .error _ => (descriptorPath? path).isSome && q = .exists
  | .ok e =>
    match q, e with
    | .exists, _ | .isReadable, _ | .isWritable, _ => true
    | .isFile, .file .. | .isFile, .program _ => true
    | .isDirectory, .directory | .isExecutable, .directory => true
    | .isExecutable, e => runnable? e
    | .isDevice, .device _ => true
    | .isNonEmpty, .file content _ => content ≠ ""
    | .isNonEmpty, .program _ | .isNonEmpty, .directory => true
    | _, _ => false

def isSameFile (t : Tree) (a b : String) : Bool :=
  match t.locate a, t.locate b with
  | .ok (p, _), .ok (q, _) => p = q
  | _, _ => false

def evalCondition (args : List String) : Shell Unit := do
  let t ← view
  match Condition.eval { file := fileAnswer t, same := isSameFile t } args with
  | .ok true => setStatus 0
  | .ok false => setStatus 1
  | .error message => fault message

def printFormatted (args : List String) : Shell Unit := do
  let (_, args) ← options "" args
  match args with
  | [] => fault "usage: printf format [arg ...]"
  | format :: args =>
    let (p, problem) := Format.print format args
    for w in p.warnings.reverse do complain w
    match problem with
    | some problem =>
      complain problem.message
      print p.out
      setStatus 2
      throw .fault
    | none =>
      print p.out
      setStatus (if p.warnings.isEmpty then 0 else 1)

def leaveLoops (args : List String) (flow : Nat → Flow) : Shell Unit := do
  let n ← match args.head? with
    | some arg =>
      match ← countArg arg with
      | 0 => fault ("Illegal number: " ++ arg)
      | n => pure n
    | none => pure 1
  let loops := (← get).loops
  setStatus 0
  unless loops = 0 do throw (flow (min n loops))

def sourcePath (name : String) : Shell String := do
  if '/' ∈ name.toList then return name
  else
    let t ← view
    let places := (((← get).var? "PATH").getD "").splitOn ":"
    let found := places.findSome? fun place =>
      let path := if place = "" then name else place ++ "/" ++ name
      match t.find path with
      | .ok (.file ..) => some path
      | _ => none
    match found with
    | some path => return path
    | none => fault (name ++ ": not found")

def runFile (self : Level) (args : List String) : Shell Unit := do
  let (_, args) ← options "" args
  match args.head? with
  | none => setStatus 0
  | some name =>
    let path ← sourcePath name
    match ← readPath path with
    | .error refusal => fault ("cannot open " ++ path ++ ": " ++ openReason false refusal)
    | .ok source =>
      modify fun s => { s with command := some path }
      match ← caught (withTested (← get).isTested false (runText self source)) with
      | some .back => pure ()
      | flow => rethrow flow

def runBuiltin (self : Level) (name : String) (args : List String) : Shell Unit := do
  match name with
  | ":" | "true" => setStatus 0
  | "false" => setStatus 1
  | "exit" =>
    match args.head?, (← get).trapStatus with
    | some arg, _ => setStatus (← countArg arg)
    | none, some status => setStatus status
    | none, none => pure ()
    throw .exit
  | "return" =>
    match args.head? with
    | some arg => setStatus (← countArg arg)
    | none => pure ()
    throw .back
  | "break" => leaveLoops args .leave
  | "continue" => leaveLoops args .again
  | "eval" => withTested (← get).isTested false (runText self (" ".intercalate args))
  | "." => runFile self args
  | "set" => setCommand args
  | "shift" => shiftArgs args
  | "export" => exportVars args
  | "readonly" => protectVars args
  | "unset" => unsetNames args
  | "local" => localVars args
  | "trap" => trap args
  | "times" =>
    print "0m0.000000s 0m0.000000s\n0m0.000000s 0m0.000000s\n"
    setStatus 0
  | "echo" =>
    print (echoed args)
    setStatus 0
  | "printf" => printFormatted args
  | "test" => evalCondition args
  | "[" =>
    if args.getLast? = some "]" then evalCondition args.dropLast else fault "missing ]"
  | "read" => readCommand args
  | "getopts" => getOption args
  | "kill" => kill self args
  | "wait" => waitCommand args
  | "jobs" => listJobs args
  | "fg" | "bg" => moveJob args
  | "cd" | "chdir" => changeDirectory args
  | "pwd" => printDirectory args
  | "umask" => setMask args
  | "alias" => aliasCommand args
  | "unalias" => unaliasCommand args
  | "type" => typeCommand args
  | "hash" => hash args
  | "ulimit" => limit args
  | _ => pure ()

def callBuiltin (self : Level) (isShielded : Bool) (name : String) (args : List String) :
    Shell Unit := do
  let before := (← get).command
  modify fun s => { s with command := some name, unwritten := none }
  let flow ← caught (runBuiltin self name args)
  if (← get).unwritten.isSome then
    complain (name ++ ": I/O error")
    modify fun s => { s with unwritten := none, status := if s.status = 0 then 1 else s.status }
  modify fun s => { s with command := before }
  match flow with
  | some .fault => unless isShielded do throw .fault
  | flow => rethrow flow

def callFunction (self : Level) (body : Command) (args : List String) : Shell Unit := do
  let before ← get
  if before.calls ≥ maxCalls then
    fault ("Maximum function recursion depth (" ++ toString maxCalls ++ ") reached")
  set { before with
    args, calls := before.calls + 1, loops := 0, optionIndex := 1, optionOffset := none }
  let restored : Shell Unit :=
    modify fun s =>
      { s with
        args := before.args
        calls := before.calls
        loops := before.loops
        optionIndex := before.optionIndex
        optionOffset := before.optionOffset }
  let act := withTested before.isTested false (withSaved (self.run body))
  match ← caught act with
  | some .back | none => restored
  | flow =>
    restored
    rethrow flow

/-! ### Programs -/

inductive Callee where
  | builtin
  | function (body : Command)
  | program

def calleeOf (s : State) (skipsFunctions : Bool) (name : String) : Callee :=
  if name ∈ specialBuiltins then .builtin
  else match if skipsFunctions then none else s.functions.find? name with
    | some body => .function body
    | none => if name ∈ regularBuiltins then .builtin else .program

def notRunnable (name : String) (reason : Unrunnable) : Shell Unit := do
  complain (reason.message name)
  match reason with
  | .notFound => setStatus 127
  | .denied => setStatus 126

def State.canBeReplaced (s : State) : Bool := s.isLast && s.traps.all fun t => t.2 = ""

def callProgram (self : Level) (path : Option String) (name : String) (args : List String) :
    Shell Unit := do
  match ← findProgram name path with
  | .error reason =>
    notRunnable name reason
    unless '/' ∈ name.toList do setStatus 127
  | .ok (full, _) =>
    let act := do
      modify fun s => { s with program := name }
      self.start full args
    if (← get).canBeReplaced then act else isolated self act

def replaceBy (self : Level) (name : String) (args : List String) : Shell Unit := do
  match ← findProgram name none with
  | .error reason =>
    notRunnable name reason
    throw .exit
  | .ok (full, _) =>
    modify fun s => { s with traps := s.traps.filter fun t => t.2 = "", program := name }
    self.start full args
    throw .exit

structure PassedOn where
  path : Option String := none
  args : List String

def passOn? : List String → Option PassedOn
  | [] => some { args := [] }
  | "--" :: args => some { args }
  | arg :: args =>
    match arg.toList with
    | '-' :: c :: letters =>
      if (c :: letters).all (· = 'p') then
        (passOn? args).map fun p => { p with path := some standardPath }
      else none
    | _ => some { args := arg :: args }

def describeNames (args : List String) : Shell Unit := do
  let before := (← get).command
  modify fun s => { s with command := some "command" }
  ensuring (act args) (modify fun s => { s with command := before })
where
  act (args : List String) : Shell Unit := do
    let flow ← caught do
      let (given, names) ← options "pvV" args
      let path := if given.any fun g => g.1 = 'p' then some standardPath else none
      let isLong := (given.getLast?.map Prod.fst) = some 'V'
      match names.head? with
      | none => setStatus 0
      | some name => setStatus (if ← describe isLong path name then 0 else 127)
    match flow with
    | some .fault => pure ()
    | flow => rethrow flow

def call (self : Level) (isShielded skipsFunctions : Bool) (path : Option String) (name : String)
    (args : List String) : Shell Unit := do
  match calleeOf (← get) skipsFunctions name with
  | .function body => callFunction self body args
  | .program => callProgram self path name args
  | .builtin =>
    match name, args with
    | "exec", program :: args =>
      let before := (← get).command
      modify fun s => { s with command := some "exec" }
      ensuring (replaceBy self program args) (modify fun s => { s with command := before })
    | "exec", [] => setStatus 0
    | _, _ => callBuiltin self isShielded name args

def callAny (self : Level) : Nat → Bool → Option String → List String → Shell Unit
  | 0, _, _, _ | _, _, _, [] => setStatus 0
  | n + 1, isPassedOn, path, name :: args => do
    match name, calleeOf (← get) isPassedOn name with
    | "command", .builtin =>
      match passOn? args with
      | some p => callAny self n true p.path p.args
      | none => describeNames args
    | _, _ =>
      let isShielded := isPassedOn || name ∉ specialBuiltins
      call self isShielded isPassedOn path name args

/-! ### Simple commands -/

def assigningBuiltins : List String := ["export", "readonly", "local", "alias"]

def commandFields (self : Level) : List String → List Word → Shell (List String)
  | done, [] => return done
  | done, w :: rest => do
    let isAssigning : Bool := match done.dropWhile (· = "command") with
      | name :: _ => name ∈ assigningBuiltins
      | [] => false
    match if isAssigning then w.assignment? else none with
    | some (name, value) =>
      let text ← valueText self value
      commandFields self (done ++ [name ++ "=" ++ text]) rest
    | none => commandFields self (done ++ (← fieldsOf self w)) rest

def traced (self : Level) (number : Option Nat) (words : List String) : Shell Unit := do
  let s ← get
  if s.hasOption 'x' then
    let lead ← wholeText self (Reader.quotedText ((s.var? "PS4").getD ""))
    match number.bind fun i => (s.handles[i]?).map fun h => (i, h) with
    | some (i, h) => discard (writeHandle i (lead ++ " ".intercalate words ++ "\n") h)
    | none => pure ()

def assignAll (self : Level) (give : String → String → Shell Unit) :
    List Word → Shell (List String)
  | [] => return []
  | w :: rest => do
    match w.assignment? with
    | some (name, value) =>
      let text ← valueText self value
      give name text
      return (name ++ "=" ++ text) :: (← assignAll self give rest)
    | none => assignAll self give rest

def checkFailure : Shell Unit := do
  let s ← get
  if s.status ≠ 0 && s.hasOption 'e' && !s.isTested then throw .exit

def runSimple (self : Level) (line : Nat) (assigns words : List Word) (rs : List Redirect) :
    Shell Unit := do
  modify fun s => { s with line, substituted := 0 }
  let args ← commandFields self [] words
  let errors := (← get).descriptors.lookup 2
  let isSpecial := args.head?.any fun name => name ∈ specialBuiltins
  let stays := args.isEmpty || isSpecial
  let body (isRedirected : Bool) : Shell Unit := do
    if !isRedirected then
      if isSpecial then throw .fault
    else
      let give (name value : String) : Shell Unit := do
        unless stays do saveVar name
        setVar name value
        unless stays do updateVar name fun v => { v with exported := true }
      let shown ← assignAll self give assigns
      unless shown.isEmpty && args.isEmpty do traced self errors (shown ++ args)
      if args.isEmpty then setStatus (← get).substituted
      else callAny self (args.length + 1) false none args
  if args.length = 1 && args.head? = some "exec" then body (← applyRedirects self rs)
  else if stays then withRedirects self rs body
  else withSaved (withRedirects self rs body)

/-! ### Compound commands -/

def succeeded : Shell Bool := return (← get).status = 0

def tested (self : Level) (c : Command) : Shell Unit := withTested true false (self.run c)

/-- Runs the test or the body of a loop; gives whether the loop goes on with what follows. -/
inductive Round where
  | finished
  | next
  | left

def oneRound (act : Shell Unit) : Shell Round := do
  match ← caught act with
  | none => return .finished
  | some (.leave n) => if n ≤ 1 then return .left else throw (.leave (n - 1))
  | some (.again n) => if n ≤ 1 then return .next else throw (.again (n - 1))
  | some flow => throw flow

def repeated (self : Level) (onSuccess : Bool) (test body : Command) : Nat → Nat → Shell Unit
  | 0, _ => throw .endless
  | n + 1, last => do
    countStep
    match ← oneRound (tested self test) with
    | .left => setStatus last
    | .next => repeated self onSuccess test body n last
    | .finished =>
      if (← succeeded) = onSuccess then
        match ← oneRound (self.run body) with
        | .left => pure ()
        | _ => repeated self onSuccess test body n (← get).status
      else setStatus last

def overWords (self : Level) (name : String) (body : Command) : List String → Shell Unit
  | [] => pure ()
  | w :: rest => do
    countStep
    setVar name w
    match ← oneRound (self.run body) with
    | .left => pure ()
    | _ => overWords self name body rest

def inLoop (act : Shell Unit) : Shell Unit := do
  let before ← get
  set { before with loops := before.loops + 1, isLast := false }
  ensuring act (modify fun s => { s with loops := before.loops, isLast := before.isLast })

def chooseArm (self : Level) (subject : List Char) : List Arm → Shell Unit
  | [] => setStatus 0
  | (patterns, body) :: rest => do
    if ← fitsAny patterns then
      match body with
      | some body => self.run body
      | none => setStatus 0
    else chooseArm self subject rest
where
  fitsAny : List Word → Shell Bool
    | [] => return false
    | p :: rest => do
      if (chunksPattern (← self.expand false p)).fits subject then return true else fitsAny rest

def runStages (self : Level) (input : Option Nat) : List Command → Shell Unit
  | [] => pure ()
  | [last] => do
    let outcome ← forked self do
      if input.isSome then setDescriptor 0 input
      withTested (← get).isTested true (self.run last)
    noteOutcome outcome
    setStatus outcome.status
  | stage :: rest => do
    let n ← newBuffer true
    let output ← newHandle (.buffer n)
    let outcome ← forked self do
      if input.isSome then setDescriptor 0 input
      setDescriptor 1 (some output)
      withTested (← get).isTested true (self.run stage)
    noteOutcome outcome
    let text ← bufferText n
    runStages self (some (← newHandle (.text text.toList))) rest

def notLast (act : Shell Unit) : Shell Unit := do
  let s ← get
  if s.isLast then withTested s.isTested false act else act

def runAny (self : Level) : Command → Shell Unit
  | .simple line assigns words rs => do
    runSimple self line assigns words rs
    checkFailure
  | .redirected line (.subshell _ body) rs => do
    modify fun s => { s with line }
    let targets ← rs.mapM (targetOf self)
    let act := do
      if ← redirectAll self targets then withTested (← get).isTested true (self.run body)
      else throw .fault
    if (← get).canBeReplaced then act else isolated self act
    checkFailure
  | .redirected line body rs => do
    modify fun s => { s with line }
    notLast (withRedirects self rs fun ok => if ok then self.run body else pure ())
  | .sequence first second => do
    notLast (self.run first)
    self.run second
  | .background _ body => do
    startJob self body
    setStatus 0
  | .subshell line body => do
    modify fun s => { s with line }
    let act := do withTested (← get).isTested true (self.run body)
    if (← get).canBeReplaced then act else isolated self act
    checkFailure
  | .pipe stages => do
    runStages self none stages
    checkFailure
  | .negated body => do
    tested self body
    setStatus (if ← succeeded then 1 else 0)
  | .andThen first second => do
    tested self first
    if ← succeeded then self.run second
  | .orElse first second => do
    tested self first
    unless ← succeeded do self.run second
  | .ifThen test body otherwise => do
    tested self test
    if ← succeeded then self.run body
    else match otherwise with
      | some c => self.run c
      | none => setStatus 0
  | .loop onSuccess test body =>
    inLoop (do repeated self onSuccess test body (← get).steps 0)
  | .forEach line name words body => do
    modify fun s => { s with line }
    let ws ← fields self words
    if ws.isEmpty then setStatus 0
    inLoop (overWords self name body ws)
  | .choose line subject arms => do
    modify fun s => { s with line }
    chooseArm self (← wholeText self subject).toList arms
  | .define name body => do
    modify fun s => { s with functions := s.functions.insert name body }
    setStatus 0

def runCommand (self : Level) (c : Command) : Shell Unit := do
  countStep
  unless (← get).hasOption 'n' do
    runTraps self
    runAny self c
    runTraps self

end Backend.Script
