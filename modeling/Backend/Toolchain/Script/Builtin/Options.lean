import Backend.Toolchain.Script.Files

/-! Options of commands, and options of the script itself. -/

namespace Backend.Script

abbrev Given := Char × String

def readLetters (allowed : List Char) :
    Nat → List Given → List Char → List String → Shell (List Given × List String)
  | 0, done, _, args | _, done, [], args => return (done, args)
  | n + 1, done, c :: rest, args => do
    if c ∉ allowed || c = ':' then fault ("Illegal option -" ++ String.singleton c)
    else if ((allowed.dropWhile (· ≠ c)).drop 1).head? = some ':' then
      match rest, args with
      | [], [] => fault ("No arg for -" ++ String.singleton c ++ " option")
      | [], a :: args => return ((c, a) :: done, args)
      | rest, args => return ((c, String.ofList rest) :: done, args)
    else readLetters allowed n ((c, "") :: done) rest args

def readOptions (allowed : String) :
    Nat → List Given → List String → Shell (List Given × List String)
  | 0, done, args => return (done.reverse, args)
  | _, done, "--" :: args => return (done.reverse, args)
  | n + 1, done, arg :: args => do
    match arg.toList with
    | '-' :: c :: letters =>
      let (done, args) ← readLetters allowed.toList (arg.length + 1) done (c :: letters) args
      readOptions allowed n done args
    | _ => return (done.reverse, arg :: args)
  | _, done, [] => return (done.reverse, [])

def options (allowed : String) (args : List String) : Shell (List Given × List String) :=
  readOptions allowed (args.length + 1) [] args

def countArg (arg : String) : Shell Nat :=
  match count? arg with
  | some n => return n
  | none => fault ("Illegal number: " ++ arg)

def singleQuoted (s : String) : String :=
  let pieces := s.splitOn "'"
  "'" ++ "'\"'\"'".intercalate pieces ++ "'"

/-! ### Options of the script -/

def optionNames : List (Option Char × String) :=
  [(some 'e', "errexit"), (some 'f', "noglob"), (some 'I', "ignoreeof"), (some 'i', "interactive"),
   (some 'm', "monitor"), (some 'n', "noexec"), (some 's', "stdin"), (some 'x', "xtrace"),
   (some 'v', "verbose"), (some 'V', "vi"), (some 'E', "emacs"), (some 'C', "noclobber"),
   (some 'a', "allexport"), (some 'b', "notify"), (some 'u', "nounset"), (some 'p', "privileged"),
   (none, "nolog"), (none, "debug")]

def setOption (c : Char) (value : Bool) : Shell Unit := do
  if optionNames.any fun o => o.1 = some c then
    if c = 'm' && value then complain "can't access tty; job control turned off"
    else
      modify fun s =>
        let others := s.options.filter (· ≠ c)
        { s with options := if value then c :: others else others }
  else fault ("Illegal option -" ++ String.singleton c)

def listOptions (asCommands : Bool) : Shell Unit := do
  let s ← get
  unless asCommands do print "Current option settings\n"
  for (letter, name) in optionNames do
    let isOn := letter.any s.hasOption
    if asCommands then print ("set " ++ (if isOn then "-" else "+") ++ "o " ++ name ++ "\n")
    else
      let gap := String.ofList (List.replicate (16 - name.length) ' ')
      print (name ++ gap ++ (if isOn then "on" else "off") ++ "\n")

def setNamedOption (name : String) (value : Bool) : Shell Unit := do
  match optionNames.find? fun o => o.2 = name with
  | some (some c, _) => setOption c value
  | some (none, _) => pure ()
  | none => fault ("Illegal option -o " ++ name)

def setLetters (value : Bool) : List Char → List String → Shell (List String)
  | [], args => return args
  | 'o' :: rest, args => do
    match args with
    | [] =>
      listOptions (!value)
      setLetters value rest []
    | name :: args =>
      setNamedOption name value
      setLetters value rest args
  | c :: rest, args => do
    setOption c value
    setLetters value rest args

def setAll : Nat → List String → Shell Unit
  | 0, _ | _, [] => pure ()
  | n + 1, arg :: args => do
    match arg.toList with
    | ['-'] =>
      modify fun s => { s with options := s.options.filter fun c => c ≠ 'x' && c ≠ 'v' }
      unless args.isEmpty do modify fun s => { s with args }
    | ['-', '-'] => modify fun s => { s with args }
    | '-' :: letters => setAll n (← setLetters true letters args)
    | '+' :: letters => setAll n (← setLetters false letters args)
    | _ => modify fun s => { s with args := arg :: args }

end Backend.Script
