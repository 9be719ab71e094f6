import Backend.Toolchain.Script.Arithmetic
import Backend.Toolchain.Script.Pattern
import Backend.Toolchain.Script.Process

/-! What words stand for: parameters, substituted commands, expressions, and fields. -/

namespace Backend.Script

def Chunk.string : Chunk → String
  | .text s _ => s
  | .split pieces | .fields pieces => " ".intercalate pieces

def chunksText (l : List Chunk) : String := "".intercalate (l.map Chunk.string)

def marked (quoted : Bool) (s : String) : List Pattern.Marked :=
  s.toList.map fun c => (c, quoted)

def chunksPattern (l : List Chunk) : Pattern :=
  .ofMarked (l.flatMap fun
    | .text s quoted => marked quoted s
    | c => marked false c.string)

def dropLineEnds (s : String) : String :=
  String.ofList (s.toList.reverse.dropWhile (· = '\n')).reverse

/-! ### Home directories -/

def homeOf (s : State) (user : String) : Option String :=
  if user = "" then s.var? "HOME" else if user = "root" then some "/root" else none

def tildeAt (s : State) (inAssignment ended : Bool) (cs : List Char) :
    Option (String × List Char) :=
  match cs with
  | '~' :: rest => do
    let user := rest.takeWhile fun c => c ≠ '/' && !(inAssignment && c = ':')
    let after := rest.drop user.length
    if after.isEmpty && !ended then none
    else return (← homeOf s (String.ofList user), after)
  | _ => none

def tildesIn (s : State) (inAssignment ended : Bool) : Nat → Bool → List Char → Word
  | 0, _, cs => [.text (String.ofList cs) false]
  | n + 1, canStart, cs =>
    match if canStart then tildeAt s inAssignment ended cs else none with
    | some (home, rest) => .text home true :: tildesIn s inAssignment ended n false rest
    | none =>
      let head := cs.takeWhile fun c => !(inAssignment && c = ':')
      match cs.drop head.length with
      | colon :: rest =>
        .text (String.ofList (head ++ [colon])) false :: tildesIn s inAssignment ended n true rest
      | [] => if head.isEmpty then [] else [.text (String.ofList head) false]

def expandTildes (s : State) (inAssignment : Bool) (isFirst : Bool) : Word → Word
  | [] => []
  | .text t false :: rest =>
    (if '~' ∈ t.toList then
      tildesIn s inAssignment rest.isEmpty (t.length + 1) isFirst t.toList
    else [.text t false]) ++ expandTildes s inAssignment false rest
  | part :: rest => part :: expandTildes s inAssignment false rest

/-! ### Parameters -/

def capture (self : Level) (body : Option Command) : Shell String := do
  match body with
  | none =>
    modify fun s => { s with substituted := 0 }
    return ""
  | some c =>
    let n ← newBuffer false
    let handle ← newHandle (.buffer n)
    let outcome ← forked self do
      setDescriptor 1 (some handle)
      withTested false true (self.run c)
    noteOutcome outcome
    modify fun s => { s with substituted := outcome.status }
    let text ← bufferText n
    return dropLineEnds (String.ofList (text.toList.filter (· ≠ '\x00')))

def expanded (s : String) (quoted : Bool) : List Chunk :=
  if quoted then [.text s true] else [.split [s]]

def valueChunks (s : State) (inFields : Bool) (name : String) (value : Option String)
    (quoted : Bool) : List Chunk :=
  match name with
  | "@" =>
    if inFields && quoted then if s.args.isEmpty then [] else [.fields s.args]
    else if inFields then [.split s.args]
    else expanded (value.getD "") quoted
  | "*" => if inFields && !quoted then [.split s.args] else expanded (value.getD "") quoted
  | _ => expanded (value.getD "") quoted

def evalArith (self : Level) (expression : Word) : Shell String := do
  let text := chunksText (← self.expand false expression)
  let s ← get
  let vars : Arith.Variables :=
    { value := s.var?
      isReadOnly := fun name => (s.vars.find? name).any Variable.readOnly }
  match Arith.eval vars text with
  | .ok (n, assigned) =>
    for (name, value) in assigned.entries do setVar name (toString value)
    return toString n
  | .error (.wrong what) => fault ("arithmetic expression: " ++ what ++ ": \"" ++ text ++ "\"")
  | .error (.notNumber value) => fault ("Illegal number: " ++ value)
  | .error (.readOnly name) => fault (name ++ ": is read only")
  | .error .overflow => throw (.killed 8)

def expandInner (self : Level) (inFields quoted : Bool) (w : Word) : Shell (List Chunk) := do
  let chunks ← self.expand inFields w
  return if quoted then chunks
    else chunks.map fun
      | .text s false => .split [s]
      | c => c

def missing {α : Type} (name message : String) : Shell α := fault (name ++ ": " ++ message)

def cutHeads (p : Pattern) (longest : Bool) : List String → List String
  | [] => []
  | first :: rest =>
    if longest && p.fits first.toList then []
    else String.ofList (p.cutHead longest first.toList) :: rest

def cutFirstEnd (p : Pattern) (longest : Bool) : List String → List String
  | [] => []
  | first :: rest =>
    if (Pattern.suffixes first.toList).any p.fits then
      [String.ofList (p.cutEnd longest first.toList)]
    else first :: cutFirstEnd p longest rest

def cutLastEnd (p : Pattern) (longest : Bool) (values : List String) : List String :=
  let fitting := values.reverse.dropWhile fun v => !(Pattern.suffixes v.toList).any p.fits
  match fitting with
  | [] => values
  | v :: before => (String.ofList (p.cutEnd longest v.toList) :: before).reverse

def cutValue (s : State) (inFields : Bool) (name : String) (value : Option String) (quoted : Bool)
    (p : Pattern) (atEnd longest : Bool) : List Chunk :=
  let cut (values : List String) : List String :=
    if !atEnd then cutHeads p longest values
    else if longest then cutFirstEnd p longest values
    else cutLastEnd p longest values
  match valueChunks s inFields name value quoted with
  | [.fields values] => [.fields (cut values)]
  | [.split values] => [.split (cut values)]
  | chunks => expanded ("".intercalate (cut [chunksText chunks])) quoted

def expandParam (self : Level) (inFields : Bool) (name : String) (op : ParamOp) (orEmpty : Bool)
    (word : Word) (quoted : Bool) : Shell (List Chunk) := do
  let s ← get
  let value := s.param? name
  let present := if orEmpty then value.any (· ≠ "") else value.isSome
  let own := valueChunks s inFields name value quoted
  let checkSet : Shell Unit := do
    if value.isNone && s.hasOption 'u' then missing name "parameter not set"
  match op with
  | .value =>
    checkSet
    return own
  | .length =>
    checkSet
    return expanded (toString (value.getD "").length) quoted
  | .fallback => if present then return own else expandInner self inFields quoted word
  | .alternative => if present then expandInner self inFields quoted word else return []
  | .assign =>
    if present then return own
    else
      let text := chunksText (← self.expand false word)
      if isName name then
        setVar name text
        return expanded text quoted
      else missing name "bad variable name"
  | .require =>
    if present then return own
    else if word.isEmpty then
      missing name (if orEmpty then "parameter not set or null" else "parameter not set")
    else missing name (chunksText (← self.expand false word))
  | .cut atEnd longest =>
    checkSet
    let p := chunksPattern (← self.expand false word)
    return cutValue s inFields name value quoted p atEnd longest
  | .unknown => fault "Bad substitution"

def expandPart (self : Level) (inFields : Bool) : Part → Shell (List Chunk)
  | .text s quoted => return [.text s quoted]
  | .param name op orEmpty word quoted => expandParam self inFields name op orEmpty word quoted
  | .command body quoted => return expanded (← capture self body) quoted
  | .arith expression quoted => return expanded (← evalArith self expression) quoted

def expandWord (self : Level) (inFields : Bool) (w : Word) : Shell (List Chunk) := do
  let w := expandTildes (← get) false true w
  return (← w.mapM (expandPart self inFields)).flatten

/-! ### Fields -/

structure Splitting where
  done : List (List Pattern.Marked) := []
  current : List Pattern.Marked := []
  isOpen : Bool := false
  afterFields : Bool := false

namespace Splitting

def add (f : Splitting) (quoted : Bool) (s : String) : Splitting :=
  { f with
    current := (marked quoted s).reverse ++ f.current
    isOpen := f.isOpen || quoted || s ≠ "" }

def close (f : Splitting) : Splitting :=
  { f with done := f.current.reverse :: f.done, current := [], isOpen := false }

def passSeparators (separators : List Char) : Bool → List (Option Char) → List (Option Char)
  | _, [] => []
  | afterBlank, some c :: rest =>
    if c ∉ separators then some c :: rest
    else if isBlank c then passSeparators separators afterBlank rest
    else if afterBlank then passSeparators separators false rest
    else some c :: rest
  | afterBlank, none :: rest => passSeparators separators afterBlank rest

def split (separators : List Char) : Nat → Splitting → List (Option Char) → Splitting
  | 0, f, _ | _, f, [] => f
  | n + 1, f, c :: rest =>
    let isBlankHere := c.all isBlank
    match c with
    | some c =>
      if c ∉ separators then
        split separators n { f with current := (c, false) :: f.current, isOpen := true } rest
      else splitAt n isBlankHere rest f
    | none => splitAt n isBlankHere rest f
where
  splitAt (n : Nat) (isBlankHere : Bool) (rest : List (Option Char)) (f : Splitting) : Splitting :=
    let blankCounts := isBlankHere && !f.afterFields
    if blankCounts && !f.isOpen then split separators n f rest
    else split separators n f.close (passSeparators separators blankCounts rest)

def pieces : List String → List (Option Char)
  | [] => []
  | [s] => s.toList.map some
  | s :: rest => s.toList.map some ++ none :: pieces rest

def addFields (f : Splitting) : List String → Splitting
  | [] => f
  | [s] => { f with current := (marked true s).reverse ++ f.current, isOpen := f.isOpen || s ≠ "" }
  | s :: rest =>
    addFields { f with current := (marked true s).reverse ++ f.current }.close rest

def addChunk (separators : List Char) (f : Splitting) : Chunk → Splitting
  | .text s quoted => f.add quoted s
  | .split values =>
    let cs := pieces values
    { split separators cs.length f cs with afterFields := false }
  | .fields values => { f.addFields values with afterFields := true }

def finish (f : Splitting) : List (List Pattern.Marked) :=
  (if f.isOpen || f.afterFields then f.close else f).done.reverse

end Splitting

/-! ### File names -/

structure PathPart where
  slashes : String
  name : List Pattern.Marked

def pathParts : Nat → List Pattern.Marked → List PathPart
  | 0, _ | _, [] => []
  | n + 1, cs =>
    let slashes := cs.takeWhile fun c => c.1 = '/'
    let rest := cs.drop slashes.length
    let name := rest.takeWhile fun c => c.1 ≠ '/'
    { slashes := String.ofList (slashes.map Prod.fst), name } :: pathParts n (rest.drop name.length)

def isMeta : Pattern.Marked → Bool
  | (c, quoted) => !quoted && (c = '*' || c = '?' || c = '[')

def plainText (cs : List Pattern.Marked) : String := String.ofList (cs.map Prod.fst)

def namesFitting (t : Tree) (site : Site) (name : List Pattern.Marked) : List String :=
  let p := Pattern.ofMarked name
  let wantsDot := (name.head?.map Prod.fst) = some '.'
  ("." :: ".." :: t.children site).filter fun n =>
    (wantsDot || n.toList.head? ≠ some '.') && p.fits n.toList

def pathsFrom (t : Tree) (done : String) (site : Site) : List PathPart → List String
  | [] => [done]
  | part :: rest =>
    let done := done ++ part.slashes
    if part.name.isEmpty then
      match t.enter site with
      | .ok () => [done]
      | .error _ => []
    else
      let names :=
        if part.name.any isMeta then namesFitting t site part.name else [plainText part.name]
      names.flatMap fun n =>
        match t.walkStep site n with
        | .ok next => pathsFrom t (done ++ n) next rest
        | .error _ => []

def pathsOf (t : Tree) (field : List Pattern.Marked) : List String :=
  if field.any isMeta then
    let start := match field with
      | ('/', _) :: _ => []
      | _ => t.home
    let paths := pathsFrom t "" start (pathParts (field.length + 1) field)
    if paths.isEmpty then [plainText field] else paths.mergeSort fun a b => a ≤ b
  else [plainText field]

def fieldsOf (self : Level) (w : Word) : Shell (List String) := do
  let chunks ← self.expand true w
  let s ← get
  let fields := (chunks.foldl (Splitting.addChunk s.separators) {}).finish
  if s.hasOption 'f' then return fields.map plainText
  else
    let t ← view
    return fields.flatMap (pathsOf t)

def fields (self : Level) (words : List Word) : Shell (List String) :=
  return (← words.mapM (fieldsOf self)).flatten

def wholeText (self : Level) (w : Word) : Shell String := return chunksText (← self.expand false w)

def valueText (self : Level) (w : Word) : Shell String := do
  let w := expandTildes (← get) true true w
  return chunksText (← self.expand false (w.map fun
    | .text s false => .text s true
    | part => part))

end Backend.Script
