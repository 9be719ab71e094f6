import Backend.Host.Tree
import Backend.Toolchain.Script.Reader.Grammar
import Backend.Toolchain.Script.Signal

/-! What running scripts know, and the world that they share. -/

namespace Backend.Script

structure Variable where
  value : Option String := none
  exported : Bool := false
  readOnly : Bool := false

inductive Flow where
  | exit
  | fault
  | killed (signal : Nat)
  | leave (loops : Nat)
  | again (loops : Nat)
  | back
  | endless

inductive Outcome where
  | exited (status : Nat)
  | signalled (n : Nat)
  deriving DecidableEq

def Outcome.status : Outcome → Nat
  | .exited n => n
  | .signalled n => 128 + n

structure Job where
  number : Nat
  pid : Nat
  ends : Option Nat
  outcome : Outcome
  wasWaitedFor : Bool := false

inductive Saved where
  | variable (name : String) (before : Option Variable)
  | options (before : List Char)

structure Process where
  pid : Nat
  shell : Nat
  ancestors : List Nat
  job : Nat := 0
  name : String
  program : String := ""
  args : List String
  vars : Table Variable := {}
  functions : Table Command := {}
  aliases : Table String := {}
  traps : List (Nat × String) := []
  pending : List Nat := []
  descriptors : List (Nat × Nat) := []
  directory : Site
  mask : Nat := 18
  options : List Char := []
  status : Nat := 0
  trapStatus : Option Nat := none
  substituted : Nat := 0
  isTested : Bool := false
  isLast : Bool := false
  loops : Nat := 0
  calls : Nat := 0
  saved : List (List Saved) := []
  optionIndex : Nat := 1
  optionOffset : Option Nat := none
  jobs : List Job := []
  lastJob : Option Nat := none
  line : Nat := 1
  readLine : Nat := 1
  unwritten : Option Refusal := none
  command : Option String := none

/-- An open file. What is read and written through it moves on for all that share it. -/
inductive Handle where
  | text (rest : List Char)
  | file (site : Site) (offset : Nat) (canRead canWrite appends : Bool)
  | buffer (n : Nat)
  | device (d : Device)

structure Written where
  time : Nat
  job : Nat
  text : String

structure Buffer where
  written : List Written := []
  size : Nat := 0
  isPipe : Bool := false

structure Delivery where
  target : Nat
  sender : Nat
  time : Nat
  signal : Nat

structure Start where
  pid : Nat
  time : Nat
  body : Command
  process : Process

structure World where
  tree : Tree
  handles : Array Handle := #[]
  buffers : Array Buffer := #[]
  documents : Array Word := #[]
  clock : Nat := 0
  lastPid : Nat
  deliveries : List Delivery := []
  starts : List Start := []
  steps : Nat

structure State extends Process, World

abbrev Shell := EStateM Flow State

def maxDepth : Nat := 100000

def maxCalls : Nat := 1000

def maxSteps : Nat := 1000000

def maxPipe : Nat := 262144

def maxJobSteps : Nat := 20000

def setStatus (n : Nat) : Shell Unit := modify fun s => { s with status := n }

def caught (act : Shell Unit) : Shell (Option Flow) :=
  tryCatch (do act; return none) fun flow => return some flow

def rethrow : Option Flow → Shell Unit
  | some flow => throw flow
  | none => pure ()

def ensuring (act : Shell Unit) (tidy : Shell Unit) : Shell Unit := do
  let flow ← caught act
  tidy
  rethrow flow

def countStep : Shell Unit := do
  let s ← get
  match s.steps with
  | 0 => throw .endless
  | n + 1 => set { s with steps := n }

/-! ### Parameters -/

namespace State

def var? (s : State) (name : String) : Option String :=
  (s.vars.find? name).bind Variable.value

def hasOption (s : State) (letter : Char) : Bool := letter ∈ s.options

def separators (s : State) : List Char :=
  match s.var? "IFS" with
  | some chars => chars.toList
  | none => [' ', '\t', '\n']

def joint (s : State) : String :=
  match s.var? "IFS" with
  | some chars => String.ofList (chars.toList.take 1)
  | none => " "

def optionLetters (s : State) : String :=
  String.ofList (['u', 'b', 'a', 'C', 'E', 'V', 'v', 'x', 's', 'n', 'm', 'i', 'I', 'f', 'e'].filter
    s.hasOption)

def param? (s : State) (name : String) : Option String :=
  match name with
  | "#" => some (toString s.args.length)
  | "?" => some (toString s.status)
  | "$" => some (toString s.shell)
  | "!" => s.lastJob.map toString
  | "-" => some s.optionLetters
  | "@" | "*" => some (s.joint.intercalate s.args)
  | "0" => some s.name
  | _ =>
    if name.toList.all Char.isDigit then
      match valueOf 10 name.toList with
      | 0 => some s.name
      | n + 1 => s.args[n]?
    else s.var? name

end State

def sitePath (site : Site) : String := "/" ++ site.key

end Backend.Script
