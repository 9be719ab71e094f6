import Backend.Toolchain.Script.Files
import Backend.Toolchain.Script.Utility.Quoting

/-!
How programs read their arguments. Options are letters after a minus sign or words after two of
them; they may stand between the other arguments and end at two minus signs alone.
-/

namespace Backend.Script.Utility

structure Options where
  letters : String := ""
  words : List (String × Char) := []
  areFirst : Bool := false
  leavesNumbers : Bool := false
  failure : Nat := 1

structure Request where
  given : List (Char × String) := []
  operands : List String := []

namespace Request

def has (r : Request) (c : Char) : Bool := r.given.any fun g => g.1 = c

def value? (r : Request) (c : Char) : Option String :=
  (r.given.reverse.find? fun g => g.1 = c).map Prod.snd

def lastOf? (r : Request) (cs : List Char) : Option Char :=
  (r.given.reverse.find? fun g => g.1 ∈ cs).map Prod.fst

def give (r : Request) (c : Char) (value : String) : Request :=
  { r with given := r.given ++ [(c, value)] }

end Request

namespace Options

def takesValue (o : Options) (c : Char) : Bool :=
  ((o.letters.toList.dropWhile (· ≠ c)).drop 1).head? = some ':'

def readLetters (o : Options) (r : Request) :
    List Char → List String → Except String (Request × List String)
  | [], args => .ok (r, args)
  | c :: rest, args =>
    if c ∉ o.letters.toList || c = ':' then
      .error ("invalid option -- " ++ quoted (String.singleton c))
    else if o.takesValue c then
      match rest, args with
      | [], [] => .error ("option requires an argument -- " ++ quoted (String.singleton c))
      | [], a :: args => .ok (r.give c a, args)
      | rest, args => .ok (r.give c (String.ofList rest), args)
    else o.readLetters (r.give c "") rest args

def readWord (o : Options) (r : Request) (word : String) (args : List String) :
    Except String (Request × List String) :=
  let name := String.ofList (word.toList.takeWhile (· ≠ '='))
  let value? :=
    if name = word then none else some (String.ofList (word.toList.drop (name.length + 1)))
  let shown := quoted ("--" ++ name)
  let whole := o.words.filter fun w => w.1 = name
  let found := if whole.isEmpty then o.words.filter fun w => name.toList.isPrefixOf w.1.toList
    else whole
  match found with
  | [] => .error ("unrecognized option " ++ quoted ("--" ++ word))
  | (full, c) :: others =>
    if others.any fun w => w.2 ≠ c then
      .error ("option " ++ shown ++ " is ambiguous; possibilities:" ++
        "".intercalate (found.map fun w => " " ++ quoted ("--" ++ w.1)))
    else match o.takesValue c, value?, args with
      | true, some value, args => .ok (r.give c value, args)
      | true, none, value :: args => .ok (r.give c value, args)
      | true, none, [] => .error ("option " ++ quoted ("--" ++ full) ++ " requires an argument")
      | false, none, args => .ok (r.give c "", args)
      | false, some _, _ =>
        .error ("option " ++ quoted ("--" ++ full) ++ " doesn't allow an argument")

def readArgs (o : Options) : Nat → Request → List String → Except String Request
  | 0, r, _ | _, r, [] => .ok r
  | n + 1, r, arg :: args =>
    match arg.toList with
    | ['-', '-'] => .ok { r with operands := r.operands ++ args }
    | '-' :: '-' :: word => do
      let (r, args) ← o.readWord r (String.ofList word) args
      o.readArgs n r args
    | '-' :: c :: letters =>
      if o.leavesNumbers && (c.isDigit || c = '.') then
        .ok { r with operands := r.operands ++ arg :: args }
      else do
        let (r, args) ← o.readLetters r (c :: letters) args
        o.readArgs n r args
    | _ =>
      if o.areFirst then .ok { r with operands := r.operands ++ arg :: args }
      else o.readArgs n { r with operands := r.operands ++ [arg] } args

def read (o : Options) (args : List String) : Except String Request :=
  o.readArgs (args.length + 1) {} args

end Options

/-! ### Messages -/

def tell (message : String) : Shell Unit := do
  warn ((← get).program ++ ": " ++ message ++ "\n")

def fail (message : String) : Shell Unit := do
  tell message
  setStatus 1

def misused (message : String) (status : Nat) : Shell Unit := do
  tell message
  warn ("Try '" ++ (← get).program ++ " --help' for more information.\n")
  setStatus status

def withOptions (o : Options) (args : List String) (act : Request → Shell Unit) : Shell Unit := do
  match o.read args with
  | .error message => misused message o.failure
  | .ok r =>
    setStatus 0
    act r

/-! ### Inputs -/

def inputOf (name : String) : Shell (Except Refusal String) :=
  if name = "-" then readAll 0 else readPath name

def inputNames (operands : List String) : List String :=
  if operands.isEmpty then ["-"] else operands

def plainRefusal (name : String) (refusal : Refusal) : String :=
  name ++ ": " ++ reasonText refusal

def shownRefusal (name : String) (refusal : Refusal) : String :=
  plainRefusal (shownPath name) refusal

/-! ### Lines -/

def linesOf (text : String) : List String :=
  let lines := text.splitOn "\n"
  let whole := lines.dropLast.map (· ++ "\n")
  match lines.getLast? with
  | some "" | none => whole
  | some last => whole ++ [last]

end Backend.Script.Utility
