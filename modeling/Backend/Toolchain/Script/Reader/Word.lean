import Backend.Toolchain.Script.Reader.Source

/-!
Reading words: quotes, escapes and expansions. A word is first read as a row of marks, which are
then nested as the braces say.
-/

namespace Backend.Script

structure Nested where
  list : Bool → Read (Option Command)
  parenthesized : Read (Option Command)

inductive Mark where
  | char (c : Char) (quoted : Bool)
  | quote
  | opened (name : String) (op : ParamOp) (orEmpty quoted : Bool)
  | closed
  | openedArith (quoted : Bool)
  | closedArith
  | command (body : Option Command) (quoted : Bool)

namespace Word

def addChar (c : Char) (quoted : Bool) : Word → Word
  | .text t q :: rest =>
    if q = quoted then .text (t.push c) q :: rest
    else .text (String.singleton c) quoted :: .text t q :: rest
  | w => .text (String.singleton c) quoted :: w

inductive Opening where
  | param (name : String) (op : ParamOp) (orEmpty quoted : Bool) (before : Word)
  | arith (quoted : Bool) (before : Word)

def Opening.close (inner : Word) : Opening → Word
  | .param name op orEmpty quoted before => .param name op orEmpty inner quoted :: before
  | .arith quoted before => .arith inner quoted :: before

def assemble (openings : List Opening) (done : Word) : List Mark → Word
  | [] => (openings.foldl (fun inner o => o.close inner.reverse) done).reverse
  | .char c quoted :: rest => assemble openings (addChar c quoted done) rest
  | .quote :: .opened "@" .value false true :: .closed :: .quote :: rest =>
    assemble openings (.param "@" .value false [] true :: done) rest
  | .quote :: rest => assemble openings (.text "" true :: done) rest
  | .opened name op orEmpty quoted :: rest =>
    assemble (.param name op orEmpty quoted done :: openings) [] rest
  | .openedArith quoted :: rest => assemble (.arith quoted done :: openings) [] rest
  | .command body quoted :: rest => assemble openings (.command body quoted :: done) rest
  | .closed :: rest | .closedArith :: rest =>
    match openings with
    | o :: openings => assemble openings (o.close done.reverse) rest
    | [] => assemble [] done rest

def ofMarks (marks : List Mark) : Word := assemble [] [] marks

end Word

inductive Quoting where
  | bare
  | double
  | single
  | arith
  deriving DecidableEq

structure Context where
  quoting : Quoting := .bare
  isDouble : Bool := false
  braces : Nat := 0
  doubleBraces : Nat := 0
  innerQuote : Bool := false
  endsWithBrace : Bool := false
  parens : Nat := 0

structure Draft where
  current : Context := {}
  outer : List Context := []
  marks : List Mark := []
  hasQuotes : Bool := false

namespace Draft

def mark (d : Draft) (m : Mark) : Draft := { d with marks := m :: d.marks }

def isQuoted (d : Draft) : Bool := d.current.quoting ≠ .bare

def char (d : Draft) (c : Char) : Draft := d.mark (.char c d.isQuoted)

def literal (d : Draft) (c : Char) : Draft := d.mark (.char c true)

def enter (d : Draft) (c : Context) : Draft :=
  { d with current := c, outer := d.current :: d.outer }

def leave (d : Draft) : Draft :=
  match d.outer with
  | c :: outer => { d with current := c, outer }
  | [] => d

def quoteMark (d : Draft) (inDocument : Bool) : Draft :=
  if inDocument then d else d.mark .quote

def toggleInner (d : Draft) : Draft :=
  if 0 < d.current.braces then
    { d with current := { d.current with innerQuote := !d.current.innerQuote } }
  else d

def openQuote (d : Draft) (quoting : Quoting) (inDocument : Bool) : Draft :=
  let current := { d.current with quoting, isDouble := d.current.isDouble || quoting = .double }
  let d := { d with current }
  (if quoting = .double then d.toggleInner else d).quoteMark inDocument

def closeQuote (d : Draft) (inDocument : Bool) : Draft :=
  let wasDouble := d.current.quoting = .double
  let current :=
    if d.current.doubleBraces = 0 then { d.current with quoting := .bare, isDouble := false }
    else d.current
  let d := { d with current, hasQuotes := true }
  (if wasDouble then d.toggleInner else d).quoteMark inDocument

def brace (d : Draft) : Draft :=
  let c := d.current
  if !c.innerQuote && 0 < c.braces then
    let braces := c.braces - 1
    let d := { d with current := { c with braces } }
    let d :=
      if braces = 0 && c.endsWithBrace then d.leave
      else { d with current := { d.current with doubleBraces := c.doubleBraces - 1 } }
    d.mark .closed
  else d.char '\x7d'

def param (d : Draft) (name : String) (op : ParamOp) (orEmpty : Bool) : Draft :=
  let quoting := match op, d.current.quoting with
    | .cut _ _, _ => .bare
    | _, .arith => .double
    | _, q => q
  let marked := d.mark (.opened name op orEmpty d.current.isDouble)
  if op = .value && !orEmpty then marked.mark .closed
  else
    let entered :=
      if quoting ≠ d.current.quoting || d.current.innerQuote then
        marked.enter { quoting, isDouble := quoting ≠ .bare, endsWithBrace := true }
      else marked
    let c := entered.current
    { entered with
      current := { c with
        braces := c.braces + 1
        doubleBraces := if c.isDouble then c.doubleBraces + 1 else c.doubleBraces } }

end Draft

namespace Reader

/-! ### Parameters -/

def paramOp : Char → ParamOp
  | '\x7d' => .value
  | '-' => .fallback
  | '+' => .alternative
  | '=' => .assign
  | '?' => .require
  | _ => .unknown

def readOp (c : Option Char) : Read (ParamOp × Bool) := do
  match c with
  | none => return (.unknown, false)
  | some ':' =>
    match ← nextOnLine with
    | some c => return (paramOp c, true)
    | none => return (.unknown, true)
  | some c =>
    if c = '%' || c = '#' then return (.cut (c = '%') (← skip c), false)
    else return (paramOp c, false)

def readBraced : Read (String × ParamOp × Bool) := do
  match ← peekJoined with
  | none | some '\x7d' => return ("", .unknown, false)
  | some c =>
    if isNameStart c then
      let name ← takeName
      let (op, orEmpty) ← readOp (← nextOnLine)
      return (name, op, orEmpty)
    else if c.isDigit then
      let name ← takeWhile Char.isDigit (← get).bound []
      let (op, orEmpty) ← readOp (← nextOnLine)
      return (String.ofList name, op, orEmpty)
    else if c = '#' then
      advance 1
      match ← peekJoined with
      | none => return ("", .unknown, false)
      | some c =>
        if isNameChar c then
          let name ←
            if c.isDigit then pure (String.ofList (← takeWhile Char.isDigit (← get).bound []))
            else takeName
          return (name, if (← peekJoined) = some '\x7d' then .length else .unknown, false)
        else
          discard nextOnLine
          if c ≠ '\x7d' && (← peekJoined) = some '\x7d' then
            if isSpecialParam c then return (String.singleton c, .length, false)
            else return ("", .unknown, false)
          else
            let (op, orEmpty) ← readOp (some c)
            return ("#", op, orEmpty)
    else
      discard nextOnLine
      if isSpecialParam c then
        let (op, orEmpty) ← readOp (← nextOnLine)
        return (String.singleton c, op, orEmpty)
      else return ("", .unknown, false)

/-! ### Substituted commands -/

def apart (act : Read (Option Command)) : Read (Option Command) := do
  let announced := (← get).announced
  modify fun r => { r with announced := [] }
  let c ← act
  modify fun r => { r with announced, isPutBack := false }
  return c

def takeBackquoted (isDouble : Bool) : Nat → List Char → Read (List Char)
  | 0, _ => fail "EOF in backquote substitution"
  | n + 1, done => do
    match ← nextJoined with
    | none => fail "EOF in backquote substitution"
    | some '\x60' => return done.reverse
    | some '\\' =>
      match ← next with
      | none => fail "EOF in backquote substitution"
      | some c =>
        if c = '\\' || c = '\x60' || c = '$' || (isDouble && c = '"') then
          takeBackquoted isDouble n (c :: done)
        else takeBackquoted isDouble n (c :: '\\' :: done)
    | some c => takeBackquoted isDouble n (c :: done)

def readBackquoted (self : Nested) (isDouble : Bool) : Read (Option Command) := do
  let text ← takeBackquoted isDouble (← get).bound []
  let outside ← get
  set { outside with input := text, line := 1, substitutes := [] }
  let c ← apart (self.list false)
  modify fun r =>
    { r with input := outside.input, line := outside.line, substitutes := outside.substitutes }
  return c

/-! ### Words -/

def readDollar (self : Nested) (isDelimiter : Bool) (d : Draft) : Read Draft := do
  match ← peekJoined with
  | none => return d.char '$'
  | some c =>
    if isDelimiter then return d.char '$'
    else if c = '(' then
      advance 1
      if ← skip '(' then
        let marked := d.mark (.openedArith d.current.isDouble)
        return marked.enter { quoting := .arith, isDouble := true }
      else return d.mark (.command (← apart self.parenthesized) d.current.isDouble)
    else if c = '\x7b' then
      advance 1
      let (name, op, orEmpty) ← readBraced
      return d.param name op orEmpty
    else if isNameStart c then return d.param (← takeName) .value false
    else if isSpecialParam c then
      advance 1
      return d.param (String.singleton c) .value false
    else return d.char '$'

def isEscapable (d : Draft) (inDocument : Bool) (c : Char) : Bool :=
  c = '\\' || c = '\x60' || c = '$' ||
    (c = '"' && !(inDocument && d.current.braces = 0)) || (c = '\x7d' && 0 < d.current.braces)

def readEscape (inDocument : Bool) (d : Draft) : Read Draft := do
  match ← next with
  | none => return d.literal '\\'
  | some c =>
    let d := if d.current.isDouble && !isEscapable d inDocument c then d.literal '\\' else d
    return { d.literal c with hasQuotes := true }

def isOperatorChar (c : Char) : Bool := c ∈ ['<', '>', '(', ')', ';', '&', '|', ' ', '\t']

def passDelimiter (a : Announced) : Read Bool := do
  if a.dropsTabs then advance ((← ahead).takeWhile (· = '\t')).length
  let cs ← ahead
  if a.delimiter.isPrefixOf cs then
    match cs.drop a.delimiter.length with
    | [] =>
      advance a.delimiter.length
      modify fun r => { r with line := r.line + 1 }
      return true
    | '\n' :: _ =>
      advance (a.delimiter.length + 1)
      return true
    | _ => return false
  else return false

def readMarks (self : Nested) (isDelimiter : Bool) (document : Option Announced) :
    Nat → Draft → Read Draft
  | 0, d => return d
  | n + 1, d => do
    let inDocument := document.isSome
    let c := d.current
    let on (d : Draft) : Read Draft := do
      advance 1
      readMarks self isDelimiter document n d
    match ← if c.quoting = .single then peek else peekJoined with
    | none => return d
    | some '\n' =>
      if c.quoting = .bare && c.braces = 0 then return d
      else
        advance 1
        let d := d.char '\n'
        match document with
        | some a => if ← passDelimiter a then return d else readMarks self isDelimiter document n d
        | none => readMarks self isDelimiter document n d
    | some char =>
      match c.quoting, char with
      | .single, '\x27' =>
        if inDocument && c.braces = 0 then on (d.char char) else on (d.closeQuote inDocument)
      | .single, char => on (d.char char)
      | .double, '"' =>
        if inDocument && c.braces = 0 then on (d.char char) else on (d.closeQuote inDocument)
      | .bare, '"' => on (d.openQuote .double inDocument)
      | .bare, '\x27' => on (d.openQuote .single inDocument)
      | _, '\\' =>
        advance 1
        readMarks self isDelimiter document n (← readEscape inDocument d)
      | _, '$' =>
        advance 1
        readMarks self isDelimiter document n (← readDollar self isDelimiter d)
      | _, '\x60' =>
        if isDelimiter then on (d.char char)
        else
          advance 1
          let body ← readBackquoted self c.isDouble
          readMarks self isDelimiter document n (d.mark (.command body c.isDouble))
      | _, '\x7d' => on d.brace
      | .arith, '(' => on ({ d with current := { c with parens := c.parens + 1 } }.char char)
      | .arith, ')' =>
        if 0 < c.parens then
          on ({ d with current := { c with parens := c.parens - 1 } }.char char)
        else
          advance 1
          if ← skip ')' then
            readMarks self isDelimiter document n (d.leave.mark .closedArith)
          else readMarks self isDelimiter document n (d.char char)
      | .bare, char =>
        if isOperatorChar char && c.braces = 0 then return d else on (d.char char)
      | _, char => on (d.char char)

def checkEnd (inDocument : Bool) (d : Draft) : Read Unit := do
  if d.current.quoting = .arith then fail "Missing '))'"
  else if d.current.quoting ≠ .bare && !inDocument then fail "Unterminated quoted string"
  else if 0 < d.current.braces then fail "Missing '\x7d'"

def readWord (self : Nested) (isDelimiter : Bool) : Read (Word × Bool) := do
  let d ← readMarks self isDelimiter none (← get).bound {}
  checkEnd false d
  return (Word.ofMarks d.marks.reverse, d.hasQuotes)

def readDocument (self : Nested) (a : Announced) : Read Unit := do
  let word ←
    if ← passDelimiter a then pure []
    else
      let start : Context :=
        if a.isLiteral then { quoting := .single } else { quoting := .double, isDouble := true }
      let d ← readMarks self false (some a) (← get).bound { current := start }
      checkEnd true d
      pure (Word.ofMarks d.marks.reverse)
  modify fun r => { r with documents := r.documents.modify a.index fun _ => word }

def readDocuments (self : Nested) : Read Unit := do
  let announced := (← get).announced
  modify fun r => { r with announced := [] }
  announced.forM (readDocument self)

end Reader

end Backend.Script
