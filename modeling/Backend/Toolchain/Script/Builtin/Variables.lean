import Backend.Toolchain.Script.Builtin.Options

/-! Commands on variables and arguments. -/

namespace Backend.Script

def splitAssignment (arg : String) : String × Option String :=
  let name := arg.toList.takeWhile (· ≠ '=')
  match arg.toList.drop name.length with
  | _ :: value => (String.ofList name, some (String.ofList value))
  | [] => (String.ofList name, none)

def checkName (name : String) : Shell Unit := do
  unless isName name do fault (name ++ ": bad variable name")

def sortedVars (s : State) : List (String × Variable) :=
  s.vars.entries.mergeSort fun a b => a.1 ≤ b.1

def listVars (word : String) (which : Variable → Bool) : Shell Unit := do
  for (name, v) in sortedVars (← get) do
    if which v then
      let value := match v.value with
        | some text => "=" ++ singleQuoted text
        | none => ""
      print (word ++ (if word = "" then "" else " ") ++ name ++ value ++ "\n")

def markVars (word : String) (isMarked : Variable → Bool) (mark : Variable → Variable)
    (args : List String) : Shell Unit := do
  let (given, args) ← options "p" args
  if given.isEmpty && !args.isEmpty then
    for arg in args do
      let (name, value) := splitAssignment arg
      match value with
      | some value =>
        checkName name
        setVar name value
      | none => unless (← get).vars.contains name do checkName name
      modify fun s => { s with vars := s.vars.insert name (mark ((s.vars.find? name).getD {})) }
  else listVars word isMarked
  setStatus 0

def exportVars (args : List String) : Shell Unit :=
  markVars "export" Variable.exported (fun v => { v with exported := true }) args

def protectVars (args : List String) : Shell Unit :=
  markVars "readonly" Variable.readOnly (fun v => { v with readOnly := true }) args

def unsetNames (args : List String) : Shell Unit := do
  let (given, names) ← options "vf" args
  for name in names do
    if (given.getLast?.map Prod.fst) = some 'f' then
      modify fun s => { s with functions := s.functions.erase name }
    else
      checkName name
      unsetVar name
  setStatus 0

def localVars (args : List String) : Shell Unit := do
  if (← get).saved.isEmpty then fault "not in a function"
  for arg in args do
    if arg = "-" then
      modify fun s =>
        match s.saved with
        | frame :: rest => { s with saved := (.options s.options :: frame) :: rest }
        | [] => s
    else
      let (name, value) := splitAssignment arg
      checkName name
      saveVar name
      match value with
      | some value => setVar name value
      | none => pure ()
  setStatus 0

def shiftArgs (args : List String) : Shell Unit := do
  let n ← match args.head? with
    | some arg => countArg arg
    | none => pure 1
  let s ← get
  if s.args.length < n then fault "can't shift that many"
  else set { s with args := s.args.drop n, optionIndex := 1, optionOffset := none }
  setStatus 0

def setCommand (args : List String) : Shell Unit := do
  if args.isEmpty then listVars "" fun v => v.value.isSome
  else setAll (args.length + 1) args
  setStatus 0

/-! ### Options of the script's arguments -/

/-- What a look at the arguments finds: the option, its argument, and where to go on. -/
structure Found where
  option : Char := '?'
  argument : Option String := none
  message : String := ""
  isDone : Bool := false
  index : Nat
  offset : Option Nat := none

def foundLetter (spec : List Char) (args : List String) (index : Nat) (arg : List Char)
    (offset : Nat) : Found :=
  let c := (arg[offset]?).getD '?'
  let isSilent := spec.head? = some ':'
  let after := arg.drop (offset + 1)
  let on : Option Nat := if after.isEmpty then none else some (offset + 1)
  if c ∉ spec || c = ':' then
    if isSilent then { index, argument := some (String.singleton c), offset := on }
    else { index, message := "Illegal option -" ++ String.singleton c ++ "\n", offset := on }
  else if ((spec.dropWhile (· ≠ c)).drop 1).head? ≠ some ':' then
    { index, option := c, argument := some "", offset := on }
  else if !after.isEmpty then { index, option := c, argument := some (String.ofList after) }
  else match args[index - 1]? with
    | some a => { index := index + 1, option := c, argument := some a }
    | none =>
      if isSilent then { index, option := ':', argument := some (String.singleton c) }
      else { index, message := "No arg for -" ++ String.singleton c ++ " option\n" }

def findOption (spec : List Char) (args : List String) (index : Nat) (offset : Option Nat) :
    Found :=
  let under := do
    let o ← offset
    let arg ← if index ≤ 1 then none else args[index - 2]?
    if o < arg.length then some (arg.toList, o) else none
  match under with
  | some (arg, o) => foundLetter spec args index arg o
  | none =>
    match (args[index - 1]?).map String.toList with
    | some ['-', '-'] => { index := index + 1, isDone := true }
    | some ('-' :: c :: rest) => foundLetter spec args (index + 1) ('-' :: c :: rest) 1
    | _ => { index, isDone := true }

def getOption (args : List String) : Shell Unit := do
  let (_, args) ← options "" args
  match args with
  | spec :: name :: rest =>
    let s ← get
    let args := if rest.isEmpty then s.args else rest
    let (index, offset) :=
      if args.length + 1 < s.optionIndex then (1, none) else (s.optionIndex, s.optionOffset)
    let found := findOption spec.toList args index offset
    unless found.message = "" do warn found.message
    match found.argument with
    | some text => setVar "OPTARG" text
    | none => unless found.isDone do unsetVar "OPTARG"
    setVar "OPTIND" (toString found.index)
    checkName name
    setVar name (String.singleton found.option)
    modify fun s => { s with optionIndex := found.index, optionOffset := found.offset }
    setStatus (if found.isDone then 1 else 0)
  | _ => fault "Usage: getopts optstring var [arg...]"

/-! ### Input -/

abbrev Kept := Char × Bool

def takeLine (isRaw : Bool) : List Kept → List Char → List Kept × Bool × List Char
  | done, [] => (done.reverse, false, [])
  | done, '\n' :: rest => (done.reverse, true, rest)
  | done, '\\' :: c :: rest =>
    if isRaw then takeLine isRaw (('\\', false) :: done) (c :: rest)
    else if c = '\n' then takeLine isRaw done rest
    else takeLine isRaw ((c, true) :: done) rest
  | done, c :: rest =>
    if c = '\\' && !isRaw then takeLine isRaw done rest
    else takeLine isRaw ((c, false) :: done) rest
termination_by _ cs => cs.length

namespace InputFields

variable (separators : List Char)

def isSeparator : Kept → Bool
  | (c, plain) => !plain && c ∈ separators

def isBlankSeparator (k : Kept) : Bool := isSeparator separators k && isBlank k.1

def text (ks : List Kept) : String := String.ofList (ks.map Prod.fst)

def passOne (ks : List Kept) : List Kept :=
  let ks := ks.dropWhile (isBlankSeparator separators)
  match ks with
  | k :: rest =>
    if isSeparator separators k then rest.dropWhile (isBlankSeparator separators) else ks
  | [] => []

def lastField (ks : List Kept) : String :=
  let field := ks.takeWhile fun k => !isSeparator separators k
  if (passOne separators (ks.drop field.length)).isEmpty then text field
  else text (ks.reverse.dropWhile (isBlankSeparator separators)).reverse

def values : Nat → List Kept → List String
  | 0, _ => []
  | 1, ks => [lastField separators ks]
  | n + 1, ks =>
    let field := ks.takeWhile fun k => !isSeparator separators k
    text field :: values n (passOne separators (ks.drop field.length))

end InputFields

def readCommand (args : List String) : Shell Unit := do
  let (given, names) ← options "p:r" args
  let isRaw := given.any fun g => g.1 = 'r'
  if names.isEmpty then fault "arg count"
  match ← handleOf 0 with
  | none => setStatus 1
  | some (i, h) =>
    match ← readHandle i h with
    | .error _ => setStatus 1
    | .ok text =>
      let (line, isWhole, rest) := takeLine isRaw [] text.toList
      unread i rest
      let separators := (← get).separators
      let line := line.filter fun k => k.1 ≠ '\x00'
      let line := line.dropWhile (InputFields.isBlankSeparator separators)
      let values := InputFields.values separators names.length line
      for (name, value) in names.zip values do
        checkName name
        setVar name value
      setStatus (if isWhole then 0 else 1)

end Backend.Script
