import Backend.Toolchain.Script.Reader.Token

/-!
The grammar of scripts. A script is read a line at a time, so the lines before a mistake still
run.
-/

namespace Backend.Script

def specialBuiltins : List String :=
  [".", ":", "break", "continue", "eval", "exec", "exit", "export", "local", "readonly", "return",
   "set", "shift", "times", "trap", "unset"]

namespace Reader

def expectOperator (self : Nested) (s : String) (e : Expected := {}) : Read Unit := do
  unless (← readToken self e).isOperator s do unexpected (some (.operator s))

def expectKeyword (self : Nested) (s : String) (e : Expected := {}) : Read Unit := do
  unless (← readToken self e).isKeyword s do unexpected (some (.keyword s))

/-! ### Redirections -/

def announce (delimiter : Word) (isLiteral dropsTabs : Bool) : Read Nat := do
  let r ← get
  let index := r.documents.size
  let a : Announced :=
    { index, delimiter := delimiter.literal.toList, isLiteral, dropsTabs }
  set { r with documents := r.documents.push [], announced := r.announced ++ [a] }
  return index

def readTarget (self : Nested) (number : Nat) (kind : RedirectKind) (dropsTabs : Bool) :
    Read Redirect := do
  match kind with
  | .document _ =>
    match ← readToken self { isDelimiter := true } with
    | .word w quoted =>
      return { number, kind := .document (← announce w quoted dropsTabs), target := w }
    | _ => unexpected none
  | kind =>
    match ← readToken self with
    | .word target _ => return { number, kind, target }
    | _ => unexpected none

def readRedirects (self : Nested) : Nat → List Redirect → Read (List Redirect)
  | 0, done => return done.reverse
  | n + 1, done => do
    match ← readToken self .command with
    | .redirect number kind dropsTabs =>
      let r ← readTarget self number kind dropsTabs
      readRedirects self n (r :: done)
    | _ =>
      putBack
      return done.reverse

/-! ### Compound commands -/

def nothing : Command := .simple 0 [] [] []

def readList (self : Nested) : Read Command := return (← self.list true).getD nothing

def readIf (self : Nested) : Nat → Read Command
  | 0 => unexpected none
  | n + 1 => do
    let test ← readList self
    expectKeyword self "then"
    let body ← readList self
    match ← readToken self with
    | .keyword "elif" => return .ifThen test body (some (← readIf self n))
    | .keyword "else" => return .ifThen test body (some (← readList self))
    | _ =>
      putBack
      return .ifThen test body none

def readWords (self : Nested) : Nat → List Word → Read (List Word)
  | 0, done => return done.reverse
  | n + 1, done => do
    match ← readToken self with
    | .word w _ => readWords self n (w :: done)
    | _ => return done.reverse

def allArgs : Word := [.param "@" .value false [] true]

def readFor (self : Nested) (line : Nat) : Read Command := do
  let name ← match ← readToken self with
    | .word w false =>
      match w.plain? with
      | some s => if isName s then pure s else fail "Bad for loop variable"
      | none => fail "Bad for loop variable"
    | _ => fail "Bad for loop variable"
  let words ← match ← readToken self .laterCommand with
    | .keyword "in" =>
      let words ← readWords self (← get).bound []
      match (← get).last with
      | .newline | .operator ";" => pure words
      | _ => unexpected none
    | .operator ";" => pure [allArgs]
    | _ =>
      putBack
      pure [allArgs]
  expectKeyword self "do" .laterCommand
  let body ← readList self
  expectKeyword self "done"
  return .forEach line name words body

def readPatterns (self : Nested) : Nat → List Word → Read (List Word)
  | 0, done => return done.reverse
  | n + 1, done => do
    let w := (← get).lastWord
    match ← readToken self with
    | .operator "|" =>
      discard (readToken self)
      readPatterns self n (w :: done)
    | .operator ")" => return (w :: done).reverse
    | _ => unexpected (some (.operator ")"))

def readArms (self : Nested) : Nat → List Arm → Read (List Arm)
  | 0, done => return done.reverse
  | n + 1, done => do
    let e : Expected := { skipsBreaks := true, keyword := true }
    match ← readToken self e with
    | .keyword "esac" => return done.reverse
    | t =>
      if t.isOperator "(" then discard (readToken self)
      let patterns ← readPatterns self (← get).bound []
      let body ← self.list false
      match ← readToken self e with
      | .keyword "esac" => return ((patterns, body) :: done).reverse
      | .operator ";;" => readArms self n ((patterns, body) :: done)
      | _ => unexpected (some (.operator ";;"))

def readCase (self : Nested) (line : Nat) : Read Command := do
  let subject ← match ← readToken self with
    | .word w _ => pure w
    | _ => unexpected (some (.word [] false))
  expectKeyword self "in" .laterCommand
  return .choose line subject (← readArms self (← get).bound [])

/-! ### Simple commands -/

structure SimpleDraft where
  assigns : List Word := []
  words : List Word := []
  redirects : List Redirect := []

def SimpleDraft.functionName? (d : SimpleDraft) : Option Word :=
  match d.assigns, d.words, d.redirects with
  | [], [w], [] => some w
  | _, _, _ => none

def readFunction (self : Nested) (command : Expected → Read Command) (name : Word) :
    Read Command := do
  expectOperator self ")"
  match name.plain? with
  | some s =>
    if isName s && s ∉ specialBuiltins then return .define s (← command .laterCommand)
    else fail "Bad function name"
  | none => fail "Bad function name"

def readSimple (self : Nested) (command : Expected → Read Command) (line : Nat) :
    Nat → SimpleDraft → Read Command
  | 0, _ => unexpected none
  | n + 1, d => do
    let t ← readToken self { canBeAlias := d.words.isEmpty }
    match t with
    | .word w _ =>
      if d.words.isEmpty && w.assignment?.isSome then
        readSimple self command line n { d with assigns := w :: d.assigns }
      else readSimple self command line n { d with words := w :: d.words }
    | .redirect number kind dropsTabs =>
      let r ← readTarget self number kind dropsTabs
      readSimple self command line n { d with redirects := r :: d.redirects }
    | t =>
      match if t.isOperator "(" then d.functionName? else none with
      | some name => readFunction self command name
      | none =>
        putBack
        return .simple line d.assigns.reverse d.words.reverse d.redirects.reverse

/-! ### Commands -/

def readCompound (self : Nested) (line : Nat) : Token → Read (Option Command)
  | .keyword "if" => do
    let c ← readIf self (← get).bound
    expectKeyword self "fi"
    return some c
  | .keyword "while" => do readLoop true
  | .keyword "until" => do readLoop false
  | .keyword "for" => return some (← readFor self line)
  | .keyword "case" => return some (← readCase self line)
  | .operator "(" => do
    let body ← readList self
    expectOperator self ")"
    return some (.subshell line body)
  | .keyword "\x7b" => do
    let body ← readList self
    expectKeyword self "\x7d"
    return some body
  | _ => return none
where
  readLoop (onSuccess : Bool) : Read (Option Command) := do
    let test ← readList self
    expectKeyword self "do"
    let body ← readList self
    expectKeyword self "done"
    return some (.loop onSuccess test body)

def readCommand (self : Nested) : Nat → Expected → Read Command
  | 0, _ => unexpected none
  | n + 1, e => do
    let line := (← get).line
    let t ← readToken self e
    match ← readCompound self line t with
    | some c =>
      match ← readRedirects self (← get).bound [] with
      | [] => return c
      | redirects => return .redirected line c redirects
    | none =>
      match t with
      | .word .. | .redirect .. =>
        putBack
        readSimple self (readCommand self n) (← get).line (← get).bound {}
      | _ => unexpected none

def readStages (self : Nested) (e : Expected) : Nat → List Command → Read (List Command)
  | 0, done => return done.reverse
  | n + 1, done => do
    let c ← readCommand self (← get).bound e
    if (← readToken self).isOperator "|" then readStages self .laterCommand n (c :: done)
    else
      putBack
      return (c :: done).reverse

def readPipeline (self : Nested) (e : Expected) : Read Command := do
  let isNegated := (← readToken self e).isKeyword "!"
  unless isNegated do putBack
  let e : Expected := if isNegated then .command else {}
  let c ← match ← readStages self e (← get).bound [] with
    | [c] => pure c
    | stages => pure (.pipe stages)
  return if isNegated then .negated c else c

def readAndOr (self : Nested) : Nat → Command → Read Command
  | 0, first => return first
  | n + 1, first => do
    match ← readToken self with
    | .operator "&&" => readAndOr self n (.andThen first (← readPipeline self .laterCommand))
    | .operator "||" => readAndOr self n (.orElse first (← readPipeline self .laterCommand))
    | _ =>
      putBack
      return first

inductive ListKind where
  | line
  | required
  | optional
  deriving DecidableEq

def append (before : Option Command) (c : Command) : Command :=
  match before with
  | none => c
  | some b => .sequence b c

inductive Line where
  | finished
  | commands (c : Option Command)

def readCommands (self : Nested) (kind : ListKind) : Nat → Option Command → Read Line
  | 0, done => return .commands done
  | n + 1, done => do
    let acrossLines := kind ≠ .line
    match ← readToken self { Expected.command with skipsBreaks := acrossLines } with
    | .newline =>
      readDocuments self
      return .commands done
    | .ending =>
      readDocuments self
      putBack
      return if done.isNone && !acrossLines then .finished else .commands done
    | t =>
      putBack
      if t.endsList && (kind = .optional || (kind = .required && done.isSome)) then
        return .commands done
      else
        let c ← readAndOr self (← get).bound (← readPipeline self {})
        let line := (← get).line
        match ← readToken self with
        | .operator "&" => readCommands self kind n (some (append done (.background line c)))
        | .operator ";" => readCommands self kind n (some (append done c))
        | .newline =>
          putBack
          readCommands self kind n (some (append done c))
        | .ending =>
          readDocuments self
          putBack
          return .commands (some (append done c))
        | _ =>
          unless acrossLines do unexpected none
          putBack
          return .commands (some (append done c))

def closeParenthesis : Read Unit := do
  modify fun r => { r with isPutBack := false }
  unless (← get).last.isOperator ")" do unexpected (some (.operator ")"))

def nestedOf (list : ListKind → Read (Option Command)) : Nested where
  list isRequired := list (if isRequired then .required else .optional)
  parenthesized := do
    let c ← list .optional
    closeParenthesis
    return c

def readNested : Nat → ListKind → Read (Option Command)
  | 0, _ => unexpected none
  | depth + 1, kind => do
    match ← readCommands (nestedOf (readNested depth)) kind (← get).bound none with
    | .commands c => return c
    | .finished => return none

def quotedText (s : String) : Word :=
  let reader : Reader := { input := s.toList }
  let start : Draft := { current := { quoting := .double, isDouble := true } }
  let unending : Announced :=
    { index := 0, delimiter := ['\x00'], isLiteral := false, dropsTabs := false }
  let self := nestedOf (readNested reader.bound)
  match (readMarks self false (some unending) reader.bound start).run reader with
  | .ok d _ => .ofMarks d.marks.reverse
  | .error .. => [.text s true]

def readLine (r : Reader) : EStateM.Result Mistake Reader Line :=
  (readCommands (nestedOf (readNested r.bound)) .line r.bound none).run
    { r with isPutBack := false, announced := [] }

end Reader

end Backend.Script
