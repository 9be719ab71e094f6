import Backend.Toolchain.Script.Expansion

/-! Redirections. -/

namespace Backend.Script

/-- What a redirection leads to, once its words are expanded. Documents are expanded later. -/
inductive Target where
  | path (text : String)
  | document (content : Word)
  | descriptor (n : Nat)
  | closed

def descriptorOf (text : String) : Shell Target := do
  match text.toList with
  | ['-'] => return .closed
  | [c] => if c.isDigit then return .descriptor (c.toNat - '0'.toNat) else misread
  | _ => misread
where
  misread : Shell Target := do
    modify fun s => { s with line := s.readLine }
    fault "Syntax error: Bad fd number"

def targetOf (self : Level) (r : Redirect) : Shell (Nat × RedirectKind × Target) := do
  match r.kind with
  | .document index =>
    return (r.number, r.kind, .document (((← get).documents[index]?).getD []))
  | .duplicateIn | .duplicateOut =>
    return (r.number, r.kind, ← descriptorOf (← wholeText self r.target))
  | _ => return (r.number, r.kind, .path (← wholeText self r.target))

def openReason (creates : Bool) : Refusal → String
  | .notFound | .notDirectory => if creates then "Directory nonexistent" else "No such file"
  | refusal => reasonText refusal

def refuse (message : String) : Shell Bool := do
  complain message
  setStatus 2
  return false

def openFor (number : Nat) (path : String) (access : Access) : Shell Bool := do
  let creates := match access with
    | .write .. => true
    | _ => false
  match ← openPath path access with
  | .ok i =>
    setDescriptor number (some i)
    return true
  | .error refusal =>
    refuse ((if creates then "cannot create " else "cannot open ") ++ path ++ ": " ++
      openReason creates refusal)

def documentText? (self : Level) (content : Word) : Shell (Option String) :=
  tryCatch (do return some (← wholeText self content)) fun
    | .fault => return none
    | flow => throw flow

def redirect (self : Level) (number : Nat) (kind : RedirectKind) (target : Target) :
    Shell Bool := do
  match target with
  | .document content =>
    match ← documentText? self content with
    | some text =>
      setDescriptor number (some (← newHandle (.text text.toList)))
      return true
    | none => return false
  | .closed =>
    setDescriptor number none
    return true
  | .descriptor n =>
    match (← get).descriptors.lookup n with
    | some i =>
      setDescriptor number (some i)
      return true
    | none => refuse (toString n ++ ": Bad file descriptor")
  | .path path =>
    match kind with
    | .read => openFor number path .read
    | .readWrite => openFor number path .readWrite
    | .append => openFor number path (.write true false)
    | .overwrite => openFor number path (.write false false)
    | _ => openFor number path (.write false ((← get).hasOption 'C'))

def redirectAll (self : Level) : List (Nat × RedirectKind × Target) → Shell Bool
  | [] => return true
  | (number, kind, target) :: rest => do
    if ← redirect self number kind target then redirectAll self rest else return false

def applyRedirects (self : Level) (rs : List Redirect) : Shell Bool := do
  redirectAll self (← rs.mapM (targetOf self))

def restoreDescriptors (before : List (Nat × Nat)) (rs : List Redirect) : Shell Unit :=
  for r in rs do setDescriptor r.number (before.lookup r.number)

def withRedirects (self : Level) (rs : List Redirect) (act : Bool → Shell Unit) : Shell Unit := do
  if rs.isEmpty then act true
  else
    let before := (← get).descriptors
    ensuring (do act (← applyRedirects self rs)) (restoreDescriptors before rs)

end Backend.Script
