import Backend.Toolchain.Script.Builtin.Options

/-! What names of commands stand for. -/

namespace Backend.Script

def regularBuiltins : List String :=
  ["[", "alias", "bg", "cd", "chdir", "command", "echo", "false", "fg", "getopts", "hash", "jobs",
   "kill", "printf", "pwd", "read", "test", "true", "type", "ulimit", "umask", "unalias", "wait"]

def isBuiltin (name : String) : Bool := name ∈ specialBuiltins || name ∈ regularBuiltins

/-! ### Programs -/

inductive Unrunnable where
  | notFound
  | denied
  deriving DecidableEq

def runnable? : Entry → Bool
  | .program _ => true
  | .file _ isExecutable => isExecutable
  | _ => false

def searchAlong (t : Tree) (name : String) (places : List String) :
    Except Unrunnable (String × Entry) :=
  places.foldr (fun place later =>
    let path := if place = "" then name else place ++ "/" ++ name
    match t.find path with
    | .ok e =>
      if runnable? e then .ok (path, e)
      else match later with
        | .ok found => .ok found
        | .error _ => .error .denied
    | .error _ => later) (.error .notFound)

def standardPath : String := "/usr/local/sbin:/usr/local/bin:/usr/sbin:/usr/bin:/sbin:/bin"

def findProgram (name : String) (path : Option String) :
    Shell (Except Unrunnable (String × Entry)) := do
  let t ← view
  if '/' ∈ name.toList then
    match t.find name with
    | .ok e => return if runnable? e then .ok (name, e) else .error .denied
    | .error .denied => return .error .denied
    | .error _ => return .error .notFound
  else
    match path.or ((← get).var? "PATH") with
    | some list => return searchAlong t name (list.splitOn ":")
    | none => return .error .notFound

def Unrunnable.message (name : String) : Unrunnable → String
  | .notFound => name ++ ": not found"
  | .denied => name ++ ": Permission denied"

/-! ### Aliases -/

def nameOrder (name : String) : Nat :=
  let codes := name.toList.map Char.toNat
  (codes.foldl (· + ·) (16 * codes.headD 0)) % 39

def aliasText (name text : String) : String := name ++ "=" ++ singleQuoted text

def aliasCommand (args : List String) : Shell Unit := do
  setStatus 0
  if args.isEmpty then
    let entries := (← get).aliases.entries.mergeSort fun a b => nameOrder a.1 ≤ nameOrder b.1
    for (name, text) in entries do print (aliasText name text ++ "\n")
  let mut shown := ""
  for arg in args do
    let name := String.ofList (arg.toList.takeWhile (· ≠ '='))
    if name.length < arg.length && name ≠ "" then
      let text := String.ofList (arg.toList.drop (name.length + 1))
      modify fun s => { s with aliases := s.aliases.insert name text }
    else
      match (← get).aliases.find? arg with
      | some text => shown := shown ++ aliasText arg text ++ "\n"
      | none =>
        warn ("alias: " ++ arg ++ " not found\n")
        setStatus 1
  print shown

def unaliasCommand (args : List String) : Shell Unit := do
  let (given, names) ← options "a" args
  setStatus 0
  if !given.isEmpty then modify fun s => { s with aliases := {} }
  else
    for name in names do
      if (← get).aliases.contains name then
        modify fun s => { s with aliases := s.aliases.erase name }
      else
        warn ("unalias: " ++ name ++ " not found\n")
        setStatus 1

/-! ### What a name is -/

def describe (isLong : Bool) (path : Option String) (name : String) : Shell Bool := do
  let s ← get
  let tell (long short : String) : Shell Bool := do
    print ((if isLong then name ++ long else short) ++ "\n")
    return true
  if name ∈ keywords then tell " is a shell keyword" name
  else match s.aliases.find? name with
    | some text => tell (" is an alias for " ++ text) ("alias " ++ aliasText name text)
    | none =>
      if name ∈ specialBuiltins then tell " is a special shell builtin" name
      else if s.functions.contains name then tell " is a shell function" name
      else if name ∈ regularBuiltins then tell " is a shell builtin" name
      else
        let full? ←
          if '/' ∈ name.toList then pure (((← view).find name).toOption.map fun _ => name)
          else pure ((← findProgram name path).toOption.map Prod.fst)
        match full? with
        | some full => tell (" is " ++ full) full
        | none =>
          if isLong then print (name ++ ": not found\n")
          return false

def typeCommand (args : List String) : Shell Unit := do
  setStatus 0
  for name in args do
    unless ← describe true none name do setStatus 127

def hash (args : List String) : Shell Unit := do
  let (_, names) ← options "rv" args
  setStatus 0
  for name in names do
    unless isBuiltin name || (← get).functions.contains name do
      match ← findProgram name none with
      | .ok _ => pure ()
      | .error reason =>
        complain (reason.message name)
        setStatus 1

def limit (args : List String) : Shell Unit := do
  let (given, args) ← options "HSatfdscmlpnvwrb" args
  match args.head? with
  | some arg =>
    unless arg = "unlimited" || (!arg.isEmpty && arg.toList.all Char.isDigit) do fault "bad number"
  | none =>
    print (if given.any fun g => g.1 = 'c' then "0\n" else "unlimited\n")
  setStatus 0

end Backend.Script
