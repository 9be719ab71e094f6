import Backend.Host.Tree
import Backend.Toolchain.Script.Launch

/-!
A host in memory: a tree of files, the output so far, and the programs that are always there.
-/

namespace Backend

structure Disk where
  tree : Tree := .standard Script.programNames
  stdout : String := ""
  stderr : String := ""

namespace Disk

def ofFiles (files : List (String × String)) : Disk :=
  { tree := files.foldl (fun t (name, content) => t.addFile name content)
      (.standard Script.programNames) }

def read (d : Disk) (path : String) : Except Refusal String := do
  match ← d.tree.find path with
  | .directory => .error .isDirectory
  | .file content _ => return content
  | .device _ => return ""
  | .program _ => .error .notText

def write (d : Disk) (path content : String) : Except Refusal Disk := do
  let site ← d.tree.target path
  match d.tree.entry? site with
  | some .directory => .error .isDirectory
  | some (.program _) => .error .denied
  | some (.device .null) | some (.device .stdin) => return d
  | some (.device .full) => .error .noSpace
  | some (.device .stdout) => return { d with stdout := d.stdout ++ content }
  | some (.device .stderr) => return { d with stderr := d.stderr ++ content }
  | some (.file ..) | none => return { d with tree := d.tree.put site (.file content) }

/-- The program that a name stands for. A name with a slash is a path; any other is looked up
among the programs that are always there. -/
def program (d : Disk) (name : String) : Except Refusal String :=
  if '/' ∈ name.toList then do
    match ← d.tree.find name with
    | .program p => return p
    | _ => .error .denied
  else if maxNameBytes < name.utf8ByteSize then .error .nameTooLong
  else if name = "." || name = ".." then .error .denied
  else if name ∈ Script.programNames then .ok name
  else .error .notFound

/-- The file that holds the source while a program works on it. -/
def scratchFile : String := "/tmp/tessera_module.ll"

def hasNul (i : Invocation) : Bool := (i.command :: i.args).any fun a => '\x00' ∈ a.toList

/-- Starts a program. It gets the source in a file and can change the others. -/
def start (d : Disk) (i : Invocation) : Except Refusal (ToolResult × Disk) := do
  if hasNul i then .error .nulInArgument
  else
    let p ← d.program i.command
    if i.args.any fun a => maxArgumentBytes < a.utf8ByteSize then .error .argumentTooLong
    else
      let tree := d.tree.put ["tmp", "tessera_module.ll"] (.file i.source)
      let (result, tree) := Script.launch tree i.command p (scratchFile :: i.args)
      return (result, { d with tree := tree.erase ["tmp", "tessera_module.ll"] })

def host (cc : Option String) : Host (StateM Disk) where
  read path := return (← get).read path
  write path content := do
    match (← get).write path content with
    | .ok d =>
      set d
      return .ok ()
    | .error refusal => return .error refusal
  start i := do
    match (← get).start i with
    | .ok (result, d) =>
      set d
      return .ok result
    | .error refusal => return .error refusal
  print text := modify fun d => { d with stdout := d.stdout ++ text }
  warn text := modify fun d => { d with stderr := d.stderr ++ text }
  cc

end Disk

end Backend
