import Backend.Diagnostic.Render
import Backend.Generate
import Backend.Source.Decode
import Backend.Text.Lines

/-! Compiling a module to IR text, and the errors of a whole compilation. -/

namespace Backend

structure CompileOptions where
  targetTriple : Option String := none
  debugInfo : Bool := false

structure Compilation where
  ir : String
  /-- In order of first mention. -/
  instances : List InstanceRecord
  warnings : List String

def Module.hasMain (m : Module) : Bool :=
  m.decls.any fun
    | .function f => f.name = "main"
    | _ => false

def compileWarnings (m : Module) (debugInfo : Bool) : List String :=
  (if debugInfo then ["debug metadata requested but no collector is installed"] else []) ++
    (if m.hasMain then [] else [s!"module '{m.name}' has no 'main' function"])

/-- Compiles a module under its own name, without a collector of debug information. -/
def Module.compile (m : Module) (options : CompileOptions) : Except Halt Compilation := do
  let session ← m.generate (.ofOptions
    { moduleName := m.name
      targetTriple := options.targetTriple
      debugInfo := options.debugInfo })
  return {
    ir := session.text
    instances := session.instances.values
    warnings := compileWarnings m options.debugInfo }

inductive CompileError where
  | generation (halt : Halt)
  | io (reason : String)
  | json (error : Json.ReadError)
  | toolchain (command status stderr : String)

def Halt.message : Halt → String
  | .failed e => e.message
  | .overflow => "a size or a count is out of range"
  | .exhausted => "the generation does not come to an end"

namespace CompileError

def message : CompileError → String
  | .generation h => "Code generation error: " ++ h.message
  | .io reason => "IO error: " ++ reason
  | .json e => "Invalid module JSON: " ++ e.message
  | .toolchain command status stderr => s!"'{command}' exited with {status}:\n" ++ stderr

def diagnostic : CompileError → Diagnostic
  | .generation (.failed e) => e.diagnostic
  | .generation h => .error h.message
  | .io reason => .error ("IO error: " ++ reason)
  | .json e =>
    (Diagnostic.error ("invalid module JSON: " ++ e.message)).withNote
      "the input has to be one JSON value that describes a module"
  | .toolchain command status stderr =>
    ((textLines stderr).filter fun line => !isBlank line).foldl Diagnostic.withNote
      (.error s!"'{command}' exited with {status}")

/-- The report of an error, with the input file where no other is named. -/
def report (e : CompileError) (file : Option String) : Report :=
  match file with
  | some path => Report.add {} (e.diagnostic.withFile path)
  | none => Report.add {} e.diagnostic

end CompileError

def loadModule (text : String) : Except CompileError Module :=
  (Module.parse text).mapError .json

def compileText (text : String) (options : CompileOptions) : Except CompileError Compilation := do
  let m ← loadModule text
  (m.compile options).mapError .generation

end Backend
