import Backend.Toolchain.Script.Run
import Backend.Toolchain.Script.Utility.Options

/-! Programs that pass texts on, say or wait for something. -/

namespace Backend.Script.Utility

def padLeft (width : Nat) (s : String) : String :=
  String.ofList (List.replicate (width - s.length) ' ') ++ s

/-! ### Copies -/

structure Show where
  numbers : Bool := false
  numbersNonEmpty : Bool := false
  squeezes : Bool := false
  marksEnds : Bool := false
  marksTabs : Bool := false
  marksOthers : Bool := false

structure Shown where
  line : Nat := 0
  isInside : Bool := false
  blanks : Nat := 0

def visible (c : Char) : String :=
  let low (n : Nat) : String :=
    if n < 32 then "^" ++ String.singleton (Char.ofNat (n + 64))
    else if n = 127 then "^?"
    else String.singleton (Char.ofNat n)
  if c.toNat < 128 then low c.toNat else "M-" ++ low (c.toNat - 128)

def Show.char (o : Show) (c : Char) : String :=
  if c = '\n' then if o.marksEnds then "$\n" else "\n"
  else if c = '\t' then if o.marksTabs then "^I" else "\t"
  else if o.marksOthers then visible c
  else String.singleton c

def Show.line (o : Show) (before : Shown) (line : String) : Shown × String :=
  let isEmpty := line = "\n" && !before.isInside
  let blanks := if isEmpty then before.blanks + 1 else 0
  if o.squeezes && 1 < blanks then ({ before with blanks }, "")
  else
    let isNumbered := !before.isInside && (if o.numbersNonEmpty then !isEmpty else o.numbers)
    let number := if isNumbered then before.line + 1 else before.line
    let lead := if isNumbered then padLeft 6 (toString number) ++ "\t" else ""
    let isInside := line.toList.getLast? ≠ some '\n'
    ({ line := number, isInside, blanks }, lead ++ "".intercalate (line.toList.map o.char))

def Show.lines (o : Show) : Shown → List String → Shown × List String
  | before, [] => (before, [])
  | before, line :: rest =>
    let (before, text) := o.line before line
    let (before, texts) := o.lines before rest
    (before, text :: texts)

def catOptions : Options where
  letters := "AbeEnstTuv"
  words := [("show-all", 'A'), ("number-nonblank", 'b'), ("show-ends", 'E'), ("number", 'n'),
    ("squeeze-blank", 's'), ("show-tabs", 'T'), ("show-nonprinting", 'v')]

def inputPlace? (name : String) : Shell (Option (Site × Nat)) := do
  if name = "-" then
    match ← handleOf 0 with
    | some (_, .file site offset ..) => return some (site, offset)
    | _ => return none
  else return (((← view).locate name).toOption).map fun found => (found.1, 0)

def feedsItself (name : String) : Shell Bool := do
  match ← inputPlace? name, ← handleOf 1 with
  | some (site, place), some (_, .file out ..) =>
    return site = out && place < (← contentAt site).length
  | _, _ => return false

def cat (args : List String) : Shell Unit :=
  withOptions catOptions args fun r => do
    let any (cs : List Char) : Bool := cs.any r.has
    let o : Show :=
      { numbers := r.has 'n'
        numbersNonEmpty := r.has 'b'
        squeezes := r.has 's'
        marksEnds := any ['A', 'e', 'E']
        marksTabs := any ['A', 't', 'T']
        marksOthers := any ['A', 'e', 't', 'v'] }
    let isPlain := r.given.all fun g => g.1 = 'u'
    if (← handleOf 1).isNone then
      fail "standard output: Bad file descriptor"
      return
    let mut shown : Shown := {}
    for name in inputNames r.operands do
      if ← feedsItself name then fail (shownPath name ++ ": input file is output file")
      else match ← inputOf name with
        | .error refusal => fail (shownRefusal name refusal)
        | .ok text =>
          if isPlain then print text
          else
            let (after, texts) := o.lines shown (linesOf text)
            shown := after
            print ("".intercalate texts)

/-! ### Saying and waiting -/

def echoLetters : Bool → Bool → List String → Bool × Bool × List String
  | isOpen, escapes, [] => (isOpen, escapes, [])
  | isOpen, escapes, arg :: args =>
    match arg.toList with
    | '-' :: c :: letters =>
      if (c :: letters).all (· ∈ ['n', 'e', 'E']) then
        let last := (c :: letters).reverse.find? (· ≠ 'n')
        echoLetters (isOpen || 'n' ∈ c :: letters) ((last.map (· == 'e')).getD escapes) args
      else (isOpen, escapes, arg :: args)
    | _ => (isOpen, escapes, arg :: args)

def echo (args : List String) : Shell Unit := do
  let (isOpen, escapes, args) := echoLetters false false args
  let text := " ".intercalate args
  let (out, ended) := if escapes then unescaped text else (text, false)
  print (out ++ (if isOpen || ended then "" else "\n"))
  setStatus 0

def timeSpan? (arg : String) : Option Nat :=
  match takeReal arg.toList with
  | some { value := .finite false x, rest, .. } =>
    let (num, den) := x.toRatio
    let seconds := match rest with
      | [] | ['s'] => some 1
      | ['m'] => some 60
      | ['h'] => some 3600
      | ['d'] => some 86400
      | _ => none
    seconds.map fun s => num * s * 1000000 / den
  | _ => none

def sleep (args : List String) : Shell Unit :=
  withOptions {} args fun r => do
    let bad := r.operands.filter fun a => (timeSpan? a).isNone
    match r.operands, bad.getLast? with
    | [], _ => misused "missing operand" 1
    | _, some last =>
      for arg in bad.dropLast do tell ("invalid time interval " ++ quotedText arg)
      misused ("invalid time interval " ++ quotedText last) 1
    | operands, none =>
      let span := (operands.filterMap timeSpan?).foldl (· + ·) 0
      advanceTo ((← get).clock + span)

/-! ### Builtins as programs -/

def environment (p : Process) : List (String × String) :=
  let vars := p.vars.entries.filterMap fun (name, v) =>
    if v.exported then v.value.map fun value => (name, value) else none
  vars.mergeSort fun a b => nameOrder a.1 ≤ nameOrder b.1

def asProgram (self : Level) (name : String) (args : List String) : Shell Unit := do
  modify fun s => { s with name := s.program, command := none }
  let flow ← caught (runBuiltin self name args)
  match flow with
  | some .fault => pure ()
  | flow => rethrow flow

end Backend.Script.Utility
