import Backend.Toolchain.Script.Run
import Backend.Toolchain.Script.Utility.Basic

/-! Programs that scripts and builds can start. -/

namespace Backend.Script

/-! ### Scripts as programs -/

def Process.script (p : Process) (name : String) (args : List String) (options : List Char) :
    Process :=
  let given : List (String × Variable) := (Utility.environment p).map fun (name, value) =>
    (name, { value := some value, exported := true })
  let usual : List (String × Variable) :=
    [("PATH", standardPath), ("PS1", "# "), ("PS2", "> "), ("PS4", "+ ")].map fun (name, value) =>
      (name, { value := some value })
  let own : List (String × Variable) :=
    [("IFS", { value := some " \t\n" }), ("OPTIND", { value := some "1" }),
     ("PPID", { value := some (toString (p.ancestors.headD 1)) }),
     ("PWD", { value := some (sitePath p.directory), exported := true })]
  { pid := p.pid
    shell := p.pid
    ancestors := p.ancestors
    job := p.job
    name, args, options
    vars := .ofList (usual ++ given ++ own)
    traps := p.traps.filter fun t => t.2 = "" && t.1 ≠ 0
    descriptors := p.descriptors
    directory := p.directory
    mask := p.mask }

def runScript (self : Level) (name : String) (args : List String) (options : List Char)
    (source : String) : Shell Unit := do
  let before ← get
  set { before with toProcess := before.toProcess.script name args options }
  let outcome ← asProcess self (runText self source)
  modify fun s => { s with toProcess := before.toProcess }
  match outcome with
  | .exited n => setStatus n
  | .signalled n => throw (.killed n)

structure ScriptOptions where
  letters : List Char := []
  isCommand : Bool := false
  isInput : Bool := false
  args : List String := []

def scriptLetters (value : Bool) (o : ScriptOptions) :
    List Char → List String → Except String (ScriptOptions × List String)
  | [], args => .ok (o, args)
  | 'c' :: rest, args => scriptLetters value { o with isCommand := true } rest args
  | 's' :: rest, args => scriptLetters value { o with isInput := true } rest args
  | 'l' :: rest, args => scriptLetters value o rest args
  | 'o' :: rest, args =>
    match args with
    | [] => scriptLetters value o rest []
    | name :: args =>
      match optionNames.find? fun p => p.2 = name with
      | some (some c, _) => scriptLetters value (setLetter o c) rest args
      | some (none, _) => scriptLetters value o rest args
      | none => .error ("Illegal option -o " ++ name)
  | c :: rest, args =>
    if optionNames.any fun p => p.1 = some c then scriptLetters value (setLetter o c) rest args
    else .error ("Illegal option -" ++ String.singleton c)
where
  setLetter (o : ScriptOptions) (c : Char) : ScriptOptions :=
    let others := o.letters.filter (· ≠ c)
    { o with letters := if value then c :: others else others }

def scriptOptions : Nat → ScriptOptions → List String → Except String ScriptOptions
  | 0, o, args => .ok { o with args }
  | _, o, [] => .ok { o with args := [] }
  | n + 1, o, arg :: args =>
    match arg.toList with
    | ['-'] | ['-', '-'] => .ok { o with args }
    | '-' :: letters => do
      let (o, args) ← scriptLetters true o letters args
      scriptOptions n o args
    | '+' :: letters => do
      let (o, args) ← scriptLetters false o letters args
      scriptOptions n o args
    | _ => .ok { o with args := arg :: args }

def shellProgram (self : Level) (args : List String) : Shell Unit := do
  let refuse (message : String) : Shell Unit := do
    warn ("sh: 0: " ++ message ++ "\n")
    setStatus 2
  match scriptOptions (args.length + 1) {} args with
  | .error message => refuse message
  | .ok o =>
    if o.isCommand then
      match o.args with
      | [] => refuse "-c requires an argument"
      | source :: rest => runScript self (rest.headD "sh") (rest.drop 1) o.letters source
    else match o.isInput, o.args with
      | false, path :: args =>
        match ← readPath path with
        | .ok source => runScript self path args o.letters source
        | .error refusal => refuse ("cannot open " ++ path ++ ": " ++ openReason false refusal)
      | _, args =>
        let source ← readAll 0
        runScript self "sh" args ('s' :: o.letters) (source.toOption.getD "")

/-! ### Other programs -/

def utilities : List (String × (List String → Shell Unit)) :=
  [("cat", Utility.cat), ("echo", Utility.echo), ("false", fun _ => setStatus 1),
   ("sleep", Utility.sleep), ("true", fun _ => setStatus 0)]

def starters (self : Level) : List (String × (List String → Shell Unit)) :=
  [("sh", shellProgram self), ("dash", shellProgram self)] ++
    ["[", "kill", "printf", "pwd", "test"].map fun name => (name, Utility.asProgram self name)

def runUtility (self : Level) (name : String) (args : List String) : Shell Unit := do
  match utilities.lookup name, (starters self).lookup name with
  | some run, _ =>
    modify fun s => { s with unwritten := none }
    run args
    match (← get).unwritten with
    | some refusal => Utility.fail ("write error: " ++ reasonText refusal)
    | none => pure ()
  | none, some run => run args
  | none, none => setStatus 127

def interpreter? (content : String) : Option (String × List String) :=
  match content.toList with
  | '#' :: '!' :: rest =>
    let line := rest.takeWhile (· ≠ '\n')
    let words := (String.ofList line).splitOn " " |>.filter (· ≠ "")
    match words with
    | [] => none
    | path :: args => some (path, if args.isEmpty then [] else [" ".intercalate args])
  | _ => none

def startProgram (self : Level) (path : String) (args : List String) : Shell Unit := do
  match (← view).find path with
  | .ok (.program name) => runUtility self name args
  | .ok (.file content _) =>
    match interpreter? content with
    | some (interpreter, options) =>
      match (← view).find interpreter with
      | .ok (.program _) => self.start interpreter (options ++ path :: args)
      | .ok _ => notRunnable path .denied
      | .error _ => notRunnable path .notFound
    | none => runScript self path args [] content
  | _ => notRunnable path .notFound

/-! ### Levels -/

mutual

def runAt : Nat → Command → Shell Unit
  | 0, _ => throw .endless
  | n + 1, c => runCommand ⟨runAt n, expandAt n, startAt n⟩ c

def expandAt : Nat → Bool → Word → Shell (List Chunk)
  | 0, _, _ => throw .endless
  | n + 1, inFields, w => expandWord ⟨runAt n, expandAt n, startAt n⟩ inFields w

def startAt : Nat → String → List String → Shell Unit
  | 0, _, _ => throw .endless
  | n + 1, path, args => startProgram ⟨runAt n, expandAt n, startAt n⟩ path args

end

def programNames : List String :=
  utilities.map Prod.fst ++
    (starters ⟨fun _ => pure (), fun _ _ => pure [], fun _ _ => pure ()⟩).map Prod.fst

def firstPid : Nat := 4242

def firstState (t : Tree) : State :=
  let process : Process :=
    { pid := firstPid
      shell := firstPid
      ancestors := [firstPid - 1]
      name := "sh"
      args := []
      vars := .ofList
        [("PATH", { value := some standardPath, exported := true }),
         ("HOME", { value := some "/root", exported := true })]
      descriptors := [(0, 0), (1, 1), (2, 2)]
      directory := t.home }
  let world : World :=
    { tree := t
      handles := #[.device .null, .buffer 0, .buffer 1]
      buffers := #[{}, {}]
      lastPid := firstPid
      steps := maxSteps }
  { process, world with }

def launch (t : Tree) (command program : String) (args : List String) : ToolResult × Tree :=
  let self : Level := ⟨runAt maxDepth, expandAt maxDepth, startAt maxDepth⟩
  let act := asProcess self (self.start ("/bin/" ++ byteText program) (args.map byteText))
  let first := { firstState (t.mapText byteText) with program := byteText command }
  let (status, s) := match act.run first with
    | .ok (.exited n) s => (ExitStatus.code n, s)
    | .ok (.signalled n) s => (.signal n, s)
    | .error _ s => (.signal 9, s)
  ({ status, stderr := ofByteText (s.toWorld.bufferText 1) },
    { s.tree.mapText ofByteText with home := t.home })

end Backend.Script
