import Backend.Host.Basic
import Backend.Host.Path
import Backend.Table

/-!
A tree of directories with a working directory in it, and how paths are walked there.
-/

namespace Backend

/-- Files that are not kept. -/
inductive Device where
  /-- Swallows what is written and holds nothing. -/
  | null
  /-- Has no room. -/
  | full
  | stdin
  | stdout
  | stderr
  deriving DecidableEq

inductive Entry where
  | directory
  | file (content : String) (isExecutable : Bool := false)
  | device (d : Device)
  /-- A program that is always there, by its name. -/
  | program (name : String)
  deriving DecidableEq

def Entry.isDirectory : Entry → Bool
  | .directory => true
  | _ => false

abbrev Site := List String

def Site.key (p : Site) : String := "/".intercalate p

structure Tree where
  entries : Table Entry
  /-- The working directory. -/
  home : Site

namespace Tree

def entry? (t : Tree) (p : Site) : Option Entry := t.entries.find? p.key

def put (t : Tree) (p : Site) (e : Entry) : Tree :=
  { t with entries := t.entries.insert p.key e }

def erase (t : Tree) (p : Site) : Tree :=
  { t with entries := t.entries.erase p.key }

def mapText (f : String → String) (t : Tree) : Tree :=
  { entries := ⟨t.entries.entries.map fun (key, e) =>
      (f key, match e with
        | .file content isExecutable => .file (f content) isExecutable
        | e => e)⟩
    home := t.home.map f }

/-- Puts a file below the working directory, with the directories that lead to it. -/
def addFile (t : Tree) (name content : String) : Tree :=
  let site := t.home ++ (Path.ofString name).parts
  let entries := (List.range site.length).foldl
    (fun es n => es.insertNew (Site.key (site.take n)) .directory) t.entries
  { t with entries := entries.insert site.key (.file content) }

/-! ### Walking -/

def enter (t : Tree) (p : Site) : Except Refusal Unit :=
  match t.entry? p with
  | some .directory => .ok ()
  | some _ => .error .notDirectory
  | none => .error .notFound

/-- Goes one part on. Only a directory can be left, also by a part that stays or goes up. -/
def walkStep (t : Tree) (p : Site) (part : String) : Except Refusal Site := do
  t.enter p
  if part = "." then return p
  else if part = ".." then return p.dropLast
  else if maxNameBytes < part.utf8ByteSize then .error .nameTooLong
  else match t.entry? (p ++ [part]) with
    | some _ => return p ++ [part]
    | none => .error .notFound

def walk (t : Tree) (start : Site) (parts : List String) : Except Refusal Site :=
  parts.foldlM t.walkStep start

def origin (t : Tree) (p : Path) : Site := if p.isAbsolute then [] else t.home

def readPath (path : String) : Except Refusal Path :=
  if path = "" then .error .notFound
  else if maxPathBytes < path.utf8ByteSize then .error .nameTooLong
  else .ok (Path.ofString path)

def locate (t : Tree) (path : String) : Except Refusal (Site × Entry) := do
  let p ← readPath path
  let site ← t.walk (t.origin p) p.parts
  match t.entry? site with
  | none => .error .notFound
  | some e => if p.endsWithSlash && !e.isDirectory then .error .notDirectory else return (site, e)

def find (t : Tree) (path : String) : Except Refusal Entry := do return (← t.locate path).2

/-- The site of a file to write. The directory has to be there, the file need not. -/
def target (t : Tree) (path : String) : Except Refusal Site := do
  let p ← readPath path
  match p.parts.getLast? with
  | none => .error .isDirectory
  | some name =>
    let parent ← t.walk (t.origin p) p.parts.dropLast
    t.enter parent
    if name = "." || name = ".." || p.endsWithSlash then .error .isDirectory
    else if maxNameBytes < name.utf8ByteSize then .error .nameTooLong
    else return parent ++ [name]

def children (t : Tree) (p : Site) : List String :=
  let below := if p.isEmpty then [] else (p.key ++ "/").toList
  t.entries.keys.filterMap fun key =>
    let cs := key.toList
    if below.isPrefixOf cs then
      let rest := cs.drop below.length
      if rest.isEmpty || '/' ∈ rest then none else some (String.ofList rest)
    else none

/-- What is at a site and below it, by the ways that lead there from it. -/
def within (t : Tree) (p : Site) : List (Site × Entry) :=
  let below := (if p.isEmpty then "" else p.key ++ "/").toList
  t.entries.entries.filterMap fun (key, e) =>
    if key = p.key then some ([], e)
    else if below.isPrefixOf key.toList then
      some ((String.ofList (key.toList.drop below.length)).splitOn "/", e)
    else none

def eraseAll (t : Tree) (p : Site) : Tree :=
  (t.within p).foldl (fun t (way, _) => t.erase (p ++ way)) t

def copyAll (t : Tree) (source target : Site) : Tree :=
  (t.within source).foldl (fun t (way, e) => t.put (target ++ way) e) t

/-! ### The tree at the start -/

def directories : List Site :=
  [[], ["bin"], ["boot"], ["dev"], ["etc"], ["home"], ["lib"], ["media"], ["mnt"], ["opt"],
   ["proc"], ["root"], ["run"], ["sbin"], ["srv"], ["sys"], ["tmp"], ["usr"], ["usr", "bin"],
   ["usr", "lib"], ["usr", "local"], ["usr", "local", "bin"], ["usr", "sbin"], ["usr", "share"],
   ["var"], ["var", "tmp"], ["tmp", "work"]]

def devices : List (Site × Device) :=
  [(["dev", "null"], .null), (["dev", "full"], .full), (["dev", "stdin"], .stdin),
   (["dev", "stdout"], .stdout), (["dev", "stderr"], .stderr)]

def systemFiles : List (Site × String) :=
  [(["etc", "passwd"], "root:x:0:0:root:/root:/bin/sh\n"), (["etc", "group"], "root:x:0:\n"),
   (["etc", "hosts"], "127.0.0.1\tlocalhost\n"), (["etc", "hostname"], "localhost\n")]

/-- The tree before any file is written, with programs of the given names. -/
def standard (programs : List String) : Tree where
  entries :=
    .ofList (directories.map (fun p => (p.key, .directory)) ++
      devices.map (fun (p, d) => (p.key, .device d)) ++
      systemFiles.map (fun (p, content) => (p.key, .file content)) ++
      programs.flatMap fun name =>
        [(Site.key ["bin", name], .program name), (Site.key ["usr", "bin", name], .program name)])
  home := ["tmp", "work"]

end Tree

end Backend
