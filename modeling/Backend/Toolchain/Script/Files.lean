import Backend.Toolchain.Script.State

/-! Open files: what is read from them and written to them. -/

namespace Backend.Script

def reasonText : Refusal → String
  | .notFound => "No such file or directory"
  | .argumentTooLong => "Argument list too long"
  | .denied => "Permission denied"
  | .notDirectory => "Not a directory"
  | .isDirectory => "Is a directory"
  | .noSpace => "No space left on device"
  | .nameTooLong => "File name too long"
  | .notText | .nulInArgument => "Invalid argument"
  | .other reason => reason

def view : Shell Tree := do
  let s ← get
  return { s.tree with home := s.directory }

def putEntry (site : Site) (e : Entry) : Shell Unit :=
  modify fun s => { s with tree := s.tree.put site e }

/-! ### Handles -/

def newHandle (h : Handle) : Shell Nat := do
  let s ← get
  set { s with handles := s.handles.push h }
  return s.handles.size

def setHandle (i : Nat) (h : Handle) : Shell Unit :=
  modify fun s => { s with handles := s.handles.modify i fun _ => h }

def setDescriptor (number : Nat) (handle : Option Nat) : Shell Unit :=
  modify fun s =>
    let others := s.descriptors.filter fun e => e.1 ≠ number
    { s with descriptors := match handle with
        | some i => (number, i) :: others
        | none => others }

def handleOf (number : Nat) : Shell (Option (Nat × Handle)) := do
  let s ← get
  return do
    let i ← s.descriptors.lookup number
    let h ← s.handles[i]?
    return (i, h)

def newBuffer (isPipe : Bool) : Shell Nat := do
  let s ← get
  set { s with buffers := s.buffers.push { isPipe } }
  return s.buffers.size

def World.bufferText (w : World) (n : Nat) : String :=
  let written := ((w.buffers[n]?).map fun b => b.written.reverse).getD []
  "".intercalate ((written.mergeSort fun a b => a.time ≤ b.time).map Written.text)

def bufferText (n : Nat) : Shell String := return (← get).toWorld.bufferText n

/-! ### Writing -/

def overlay (content : String) (offset : Nat) (text : String) : String :=
  if offset = content.length then content ++ text
  else
    let cs := content.toList
    let gap := List.replicate (offset - cs.length) '\x00'
    String.ofList (cs.take offset ++ gap) ++ text ++ String.ofList (cs.drop (offset + text.length))

def contentAt (site : Site) : Shell String := do
  match (← get).tree.entry? site with
  | some (.file content _) => return content
  | _ => return ""

def putContent (site : Site) (content : String) : Shell Unit := do
  match (← get).tree.entry? site with
  | some (.file _ isExecutable) => putEntry site (.file content isExecutable)
  | _ => putEntry site (.file content)

def writeHandle (i : Nat) (text : String) : Handle → Shell (Option Refusal)
  | .text _ => return some (.other "Bad file descriptor")
  | .buffer n => do
    let s ← get
    if s.buffers[n]?.any fun b => b.isPipe && maxPipe < b.size then throw (.killed 13)
    let add (b : Buffer) : Buffer :=
      { b with
        written := { time := s.clock, job := s.job, text } :: b.written
        size := b.size + text.length }
    set { s with buffers := s.buffers.modify n add }
    return none
  | .device .full => return if text = "" then none else some .noSpace
  | .device _ => return none
  | .file site offset canRead canWrite appends => do
    if !canWrite then return some (.other "Bad file descriptor")
    let content ← contentAt site
    let offset := if appends then content.length else offset
    putContent site (overlay content offset text)
    setHandle i (.file site (offset + text.length) canRead canWrite appends)
    return none

def write (number : Nat) (text : String) : Shell (Option Refusal) := do
  match ← handleOf number with
  | some (i, h) => writeHandle i text h
  | none => return some (.other "Bad file descriptor")

def print (text : String) : Shell Unit := do
  match ← write 1 text with
  | some refusal => modify fun s => { s with unwritten := some refusal }
  | none => pure ()

def warn (text : String) : Shell Unit := discard (write 2 text)

/-! ### Reading -/

def readHandle (i : Nat) : Handle → Shell (Except Refusal String)
  | .text rest => do
    setHandle i (.text [])
    return .ok (String.ofList rest)
  | .buffer _ => return .error (.other "Bad file descriptor")
  | .device .full => return .ok ""
  | .device _ => return .ok ""
  | .file site offset canRead canWrite appends => do
    if !canRead then return .error (.other "Bad file descriptor")
    match (← get).tree.entry? site with
    | some .directory => return .error .isDirectory
    | _ =>
      let content ← contentAt site
      setHandle i (.file site (max offset content.length) canRead canWrite appends)
      return .ok (String.ofList (content.toList.drop offset))

def readAll (number : Nat) : Shell (Except Refusal String) := do
  match ← handleOf number with
  | some (i, h) => readHandle i h
  | none => return .error (.other "Bad file descriptor")

def unread (i : Nat) (rest : List Char) : Shell Unit := do
  match (← get).handles[i]? with
  | some (.text _) => setHandle i (.text rest)
  | some (.file site offset canRead canWrite appends) =>
    setHandle i (.file site (offset - rest.length) canRead canWrite appends)
  | _ => pure ()

/-! ### Opening -/

inductive Access where
  | read
  | write (appends mustBeNew : Bool)
  | readWrite

def descriptorPath? (path : String) : Option Nat :=
  match path with
  | "/dev/stdin" => some 0
  | "/dev/stdout" => some 1
  | "/dev/stderr" => some 2
  | path =>
    ["/dev/fd/", "/proc/self/fd/"].findSome? fun head =>
      if head.toList.isPrefixOf path.toList then
        let digits := path.toList.drop head.length
        if !digits.isEmpty && digits.all Char.isDigit then some (valueOf 10 digits) else none
      else none

def openEntry (site : Site) (access : Access) : Entry → Shell (Except Refusal Nat)
  | .directory => do
    match access with
    | .read => return .ok (← newHandle (.file site 0 true false false))
    | _ => return .error .isDirectory
  | .device d => return .ok (← newHandle (.device d))
  | .program _ => do
    match access with
    | .read => return .ok (← newHandle (.text []))
    | _ => return .error (.other "Text file busy")
  | .file .. => do
    match access with
    | .read => return .ok (← newHandle (.file site 0 true false false))
    | .readWrite => return .ok (← newHandle (.file site 0 true true false))
    | .write appends mustBeNew =>
      if mustBeNew then return .error (.other "File exists")
      unless appends do putContent site ""
      return .ok (← newHandle (.file site 0 false true appends))

def openPath (path : String) (access : Access) : Shell (Except Refusal Nat) := do
  match descriptorPath? path with
  | some n =>
    match ← handleOf n with
    | some (i, .text rest) => return .ok (← match access with
        | .read => pure i
        | _ => newHandle (.text rest))
    | some (i, _) => return .ok i
    | none => return .error .notFound
  | none =>
    let t ← view
    match access with
    | .read =>
      match t.locate path with
      | .ok (site, e) => openEntry site access e
      | .error refusal => return .error refusal
    | _ =>
      match t.target path with
      | .error refusal => return .error refusal
      | .ok site =>
        match t.entry? site with
        | some e => openEntry site access e
        | none =>
          putEntry site (.file "")
          openEntry site (match access with
            | .write appends _ => .write appends false
            | access => access) (.file "")

def readPath (path : String) : Shell (Except Refusal String) := do
  match ← openPath path .read with
  | .error refusal => return .error refusal
  | .ok i =>
    match (← get).handles[i]? with
    | some h => readHandle i h
    | none => return .error .notFound

/-! ### Messages -/

def complain (message : String) : Shell Unit := do
  let s ← get
  let command := match s.command with
    | some name => name ++ ": "
    | none => ""
  warn (s.name ++ ": " ++ toString s.line ++ ": " ++ command ++ message ++ "\n")

def fault {α : Type} (message : String) : Shell α := do
  complain message
  setStatus 2
  throw .fault

/-! ### Variables -/

def updateVar (name : String) (f : Variable → Variable) : Shell Unit := do
  let s ← get
  let v := (s.vars.find? name).getD {}
  if v.readOnly then fault (name ++ ": is read only")
  else
    let exports := 'a' ∈ s.options
    set { s with vars := s.vars.insert name (f { v with exported := v.exported || exports }) }

def setVar (name value : String) : Shell Unit := do
  updateVar name fun v => { v with value := some value }
  if name = "OPTIND" then
    match count? value with
    | some n => modify fun s => { s with optionIndex := max n 1, optionOffset := none }
    | none => fault ("Illegal number: " ++ value)

def unsetVar (name : String) : Shell Unit := do
  match (← get).vars.find? name with
  | none => pure ()
  | some v =>
    if v.readOnly then fault (name ++ ": is read only")
    else modify fun s => { s with vars := s.vars.erase name }

def saveVar (name : String) : Shell Unit :=
  modify fun s =>
    match s.saved with
    | frame :: rest =>
      let known := frame.any fun
        | .variable n _ => n = name
        | .options _ => false
      if known then s
      else { s with saved := (.variable name (s.vars.find? name) :: frame) :: rest }
    | [] => s

def restore (s : State) : Saved → State
  | .variable name (some v) => { s with vars := s.vars.insert name v }
  | .variable name none => { s with vars := s.vars.erase name }
  | .options before => { s with options := before }

def withSaved (act : Shell Unit) : Shell Unit := do
  modify fun s => { s with saved := [] :: s.saved }
  ensuring act do
    modify fun s =>
      match s.saved with
      | frame :: rest => { frame.foldl restore s with saved := rest }
      | [] => s

end Backend.Script
