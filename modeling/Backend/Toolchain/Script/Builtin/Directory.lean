import Backend.Toolchain.Script.Builtin.Options

/-! The working directory, and the rights that new files do not get. -/

namespace Backend.Script

def normalParts (start : Site) (parts : List String) : Site :=
  parts.foldl (fun done part =>
    if part = "." then done else if part = ".." then done.dropLast else done ++ [part]) start

def enterDirectory (path : String) : Shell Bool := do
  let s ← get
  let p := Path.ofString path
  let site := normalParts (if p.isAbsolute then [] else s.directory) p.parts
  match s.tree.enter site with
  | .error _ => return false
  | .ok () =>
    set { s with directory := site }
    setVar "OLDPWD" (sitePath s.directory)
    setVar "PWD" (sitePath site)
    return true

def startsSomewhere (path : String) : Bool :=
  match (path.splitOn "/").head? with
  | some first => first = "" || first = "." || first = ".."
  | none => false

def findDirectory (path : String) : Shell (String × Bool) := do
  let s ← get
  let t ← view
  let places := match s.var? "CDPATH" with
    | some list => list.splitOn ":"
    | none => []
  let found := places.findSome? fun place =>
    let full := if place = "" then path else place ++ "/" ++ path
    match t.find full with
    | .ok .directory => some (full, !place.isEmpty)
    | _ => none
  return found.getD (path, false)

def changeDirectory (args : List String) : Shell Unit := do
  let (_, args) ← options "LP" args
  let s ← get
  let (dest, isBack) := match args.head? with
    | none => ((s.var? "HOME").getD "", false)
    | some "-" => ((s.var? "OLDPWD").getD "", true)
    | some dest => (dest, false)
  let (path, isTold) ←
    if dest = "" then pure (".", false)
    else if startsSomewhere dest then pure (dest, false)
    else findDirectory dest
  if ← enterDirectory path then
    if isBack || isTold then print (sitePath (← get).directory ++ "\n")
    setStatus 0
  else fault ("can't cd to " ++ dest)

def printDirectory (args : List String) : Shell Unit := do
  discard (options "LP" args)
  print (sitePath (← get).directory ++ "\n")
  setStatus 0

/-! ### Rights -/

def rightsText (mask shift : Nat) : String :=
  let denied := mask / shift % 8
  (if denied / 4 % 2 = 0 then "r" else "") ++ (if denied / 2 % 2 = 0 then "w" else "") ++
    (if denied % 2 = 0 then "x" else "")

def rightsValue (c : Char) : Option Nat :=
  match c with
  | 'r' => some 4
  | 'w' => some 2
  | 'x' => some 1
  | _ => none

def applyClause (mask : Nat) (clause : List Char) : Option Nat := do
  let who := clause.takeWhile fun c => c ∈ ['u', 'g', 'o', 'a']
  let shifts := (if who.isEmpty then ['a'] else who).flatMap fun c =>
    match c with
    | 'u' => [64]
    | 'g' => [8]
    | 'o' => [1]
    | _ => [64, 8, 1]
  match clause.drop who.length with
  | op :: rights =>
    let given ← rights.mapM rightsValue
    let value := given.foldl (fun a b => if a / b % 2 = 0 then a + b else a) 0
    if op = '=' || op = '+' || op = '-' then
      some (shifts.foldl (fun mask shift =>
        let old := mask / shift % 8
        let new :=
          if op = '=' then 7 - value
          else (List.range 3).foldl (fun n i =>
            let bit := twoPow i
            let isGiven := value / bit % 2 = 1
            let isDenied := old / bit % 2 = 1
            let denied := if isGiven then op = '-' else isDenied
            if denied then n + bit else n) 0
        mask - old * shift + new * shift) mask)
    else none
  | [] => none

def setMask (args : List String) : Shell Unit := do
  let (given, args) ← options "S" args
  let mask := (← get).mask
  match args.head? with
  | none =>
    if given.isEmpty then print (padZeros 4 (digitsIn 8 mask) ++ "\n")
    else
      print ("u=" ++ rightsText mask 64 ++ ",g=" ++ rightsText mask 8 ++ ",o=" ++
        rightsText mask 1 ++ "\n")
  | some arg =>
    if arg.toList.head?.any Char.isDigit then
      if arg.toList.all isOctal then
        modify fun s => { s with mask := valueOf 8 arg.toList % 512 }
      else fault ("Illegal number: " ++ arg)
    else
      let clauses := (arg.splitOn ",").map String.toList
      match clauses.foldlM applyClause mask with
      | some mask => modify fun s => { s with mask }
      | none => fault ("Illegal mode: " ++ arg)
  setStatus 0

end Backend.Script
