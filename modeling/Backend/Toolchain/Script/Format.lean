import Backend.Toolchain.Script.Number

/-! Escapes in printed text, and formats with fields for arguments. -/

namespace Backend.Script

def octalByte (digits : List Char) : Char := Char.ofNat (valueOf 8 digits % 256)

def simpleEscapes : List (Char × Char) :=
  [('a', '\x07'), ('b', '\x08'), ('e', '\x1b'), ('f', '\x0c'), ('n', '\n'), ('r', '\r'),
   ('t', '\t'), ('v', '\x0b'), ('\\', '\\')]

def readEscape (cs : List Char) : Option (Char × List Char) :=
  match cs with
  | [] => none
  | c :: rest =>
    if isOctal c then
      let digits := (cs.take 3).takeWhile isOctal
      some (octalByte digits, cs.drop digits.length)
    else (simpleEscapes.lookup c).map fun d => (d, rest)

def unescape : Nat → List Char → List Char → List Char × Bool
  | _, done, [] => (done.reverse, false)
  | 0, done, cs => (done.reverse ++ cs, false)
  | n + 1, done, c :: rest =>
    if c ≠ '\\' then unescape n (c :: done) rest
    else match rest with
      | 'c' :: _ => (done.reverse, true)
      | rest =>
        let digits := match rest with
          | '0' :: d :: more => if isOctal d then d :: more else rest
          | rest => rest
        match readEscape digits with
        | some (d, rest) => unescape n (d :: done) rest
        | none => unescape n ('\\' :: done) rest

def unescaped (s : String) : String × Bool :=
  let (cs, ended) := unescape s.length [] s.toList
  (String.ofList cs, ended)

def echoed (args : List String) : String :=
  let (args, isOpen) := match args with
    | "-n" :: args => (args, true)
    | args => (args, false)
  let (out, ended) := unescaped (" ".intercalate args)
  out ++ (if isOpen || ended then "" else "\n")

/-! ### Fields -/

structure Field where
  flags : List Char := []
  width : Nat := 0
  precision : Option Nat := none

namespace Field

def has (f : Field) (flag : Char) : Bool := flag ∈ f.flags

def pad (f : Field) (s : String) : String :=
  let fill := String.ofList (List.replicate (f.width - s.length) ' ')
  if f.has '-' then s ++ fill else fill ++ s

def padNumber (f : Field) (canFill : Bool) (sign digits : String) : String :=
  if f.has '0' && !f.has '-' && canFill then
    sign ++ padZeros (f.width - sign.length) digits
  else f.pad (sign ++ digits)

def sign (f : Field) (negative : Bool) : String :=
  if negative then "-" else if f.has '+' then "+" else if f.has ' ' then " " else ""

def digits (f : Field) (n : Nat) (text : String) : String :=
  match f.precision with
  | some 0 => if n = 0 then "" else text
  | some p => padZeros p text
  | none => text

def signed (f : Field) (n : Int) : String :=
  f.padNumber f.precision.isNone (f.sign (n < 0)) (f.digits n.natAbs (toString n.natAbs))

def unsigned (f : Field) (kind : Char) (n : Nat) : String :=
  match kind with
  | 'o' =>
    let digits := f.digits n (digitsIn 8 n)
    let digits := if f.has '#' && digits.toList.head? ≠ some '0' then "0" ++ digits else digits
    f.padNumber f.precision.isNone "" digits
  | 'u' => f.padNumber f.precision.isNone "" (f.digits n (toString n))
  | kind =>
    let lead := if f.has '#' && n ≠ 0 then "0x" else ""
    let text := f.padNumber f.precision.isNone lead (f.digits n (digitsIn 16 n))
    if kind = 'X' then text.toUpper else text

def finiteText (f : Field) (kind : Char) (x : Binary64) : String :=
  let style : RealStyle := { precision := f.precision.getD 6, keepsPoint := f.has '#' }
  match kind.toLower with
  | 'f' => fixedText style x
  | 'e' => scientificText style x
  | 'g' => generalText style x
  | _ => hexText f.precision (f.has '#') x

def real (f : Field) (kind : Char) (r : Real) : String :=
  let text := match r with
    | .finite negative x =>
      let body := f.finiteText kind x
      if kind.toLower = 'a' then
        f.padNumber true (f.sign negative ++ "0x") (String.ofList (body.toList.drop 2))
      else f.padNumber true (f.sign negative) body
    | .infinite negative => f.padNumber false (f.sign negative) "inf"
    | .nan negative => f.padNumber false (f.sign negative) "nan"
  if kind.isUpper then text.toUpper else text

def string (f : Field) (s : String) : String :=
  f.pad (match f.precision with
    | some p => String.ofList (s.toList.take p)
    | none => s)

end Field

/-! ### Formats -/

structure Printed where
  out : String := ""
  args : List String
  warnings : List String := []
  ended : Bool := false

inductive FormatFault where
  | missingCharacter
  | invalid (directive : String)

def FormatFault.message : FormatFault → String
  | .missingCharacter => "missing format character"
  | .invalid directive => directive ++ ": invalid directive"

abbrev Format := EStateM FormatFault Printed

namespace Format

def put (text : String) : Format Unit := modify fun p => { p with out := p.out ++ text }

def nextArg : Format (Option String) := do
  let p ← get
  set { p with args := p.args.drop 1 }
  return p.args.head?

def complain (arg message : String) : Format Unit :=
  modify fun p => { p with warnings := (arg ++ ": " ++ message) :: p.warnings }

def check (arg : String) (rest : List Char) (outOfRange : Bool) : Format Unit := do
  if !rest.isEmpty then
    if rest.length = arg.length then complain arg "expected numeric value"
    else complain arg "not completely converted"
  else if outOfRange then complain arg "Numerical result out of range"

def quotedCode? (arg : String) : Option Nat :=
  match arg.toList with
  | c :: rest => if c = '"' || c = '\x27' then some ((rest.head?.map Char.toNat).getD 0) else none
  | [] => none

def integerArg : Format Int := do
  match ← nextArg with
  | none => return 0
  | some arg =>
    match quotedCode? arg with
    | some code => return code
    | none =>
      match takeInteger true arg.toList with
      | some (n, rest) =>
        check arg rest (!isInRange n)
        return clamp n
      | none =>
        check arg arg.toList false
        return 0

def naturalArg : Format Nat := do
  match ← nextArg with
  | none => return 0
  | some arg =>
    match quotedCode? arg with
    | some code => return code
    | none =>
      match takeInteger true arg.toList with
      | some (n, rest) =>
        let isTooLarge := 18446744073709551615 < n.natAbs
        check arg rest isTooLarge
        return if isTooLarge then 18446744073709551615 else (n % 18446744073709551616).toNat
      | none =>
        check arg arg.toList false
        return 0

def realArg : Format Real := do
  match ← nextArg with
  | none => return .finite false ⟨0⟩
  | some arg =>
    match quotedCode? arg with
    | some code => return .finite false (Binary64.ofNat code)
    | none =>
      match takeReal arg.toList with
      | some r =>
        check arg r.rest r.outOfRange
        return r.value
      | none =>
        check arg arg.toList false
        return .finite false ⟨0⟩

def isFlag (c : Char) : Bool := c ∈ ['#', '-', '+', ' ', '0']

def readSize (cs : List Char) : Format (Int × List Char) := do
  match cs with
  | '*' :: rest => return ((← integerArg).bmod 4294967296, rest)
  | cs => return (valueOf 10 (cs.takeWhile Char.isDigit), cs.dropWhile Char.isDigit)

def withWidth (f : Field) (width : Int) : Field :=
  { f with
    flags := if width < 0 then '-' :: f.flags else f.flags
    width := width.natAbs }

def putField (f : Field) (kind : Char) (written : String) : Format Unit := do
  match kind with
  | 'b' =>
    let (text, ended) := unescaped ((← nextArg).getD "")
    put (f.string text)
    if ended then modify fun p => { p with ended }
  | 'c' =>
    let c := ((← nextArg).bind fun arg => arg.toList.head?).getD '\x00'
    put (f.pad (String.singleton c))
  | 's' => put (f.string ((← nextArg).getD ""))
  | 'd' | 'i' => put (f.signed (← integerArg))
  | 'o' | 'u' | 'x' | 'X' => put (f.unsigned kind (← naturalArg))
  | kind =>
    if kind ∈ ['a', 'A', 'e', 'E', 'f', 'F', 'g', 'G'] then put (f.real kind (← realArg))
    else throw (.invalid written)

def readField (cs : List Char) : Format (List Char) := do
  let flags := cs.takeWhile isFlag
  let (width, afterWidth) ← readSize (cs.dropWhile isFlag)
  let (precision, rest) ← match afterWidth with
    | '.' :: rest => do
      let (p, rest) ← readSize rest
      pure (if p < 0 then none else some p.toNat, rest)
    | rest => pure (none, rest)
  match rest with
  | [] => throw .missingCharacter
  | kind :: rest =>
    let written := String.ofList ('%' :: cs.take (cs.length - rest.length))
    putField (withWidth { flags, precision } width) kind written
    return rest

def once : Nat → List Char → Format Unit
  | 0, _ | _, [] => pure ()
  | n + 1, '\\' :: rest => do
    match readEscape rest with
    | some (c, rest) =>
      put (String.singleton c)
      once n rest
    | none =>
      put "\\"
      once n rest
  | n + 1, '%' :: '%' :: rest => do
    put "%"
    once n rest
  | n + 1, '%' :: rest => do
    let rest ← readField rest
    unless (← get).ended do once n rest
  | n + 1, c :: rest => do
    put (String.singleton c)
    once n rest

def rounds (format : List Char) : Nat → Format Unit
  | 0 => pure ()
  | n + 1 => do
    let before := (← get).args.length
    once format.length format
    let p ← get
    unless p.ended || p.args.isEmpty || p.args.length = before do rounds format n

def print (format : String) (args : List String) : Printed × Option FormatFault :=
  match EStateM.run (rounds format.toList (args.length + 1)) { args } with
  | .ok _ p => (p, none)
  | .error fault p => (p, some fault)

end Format

end Backend.Script
