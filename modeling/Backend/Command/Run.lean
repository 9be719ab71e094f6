import Backend.Command.Arguments
import Backend.Compile
import Backend.Host.Basic

/-! Running commands on any host that has files, output streams and commands to start. -/

namespace Backend

def defaultCompiler : String := "clang"

namespace Host

variable {m : Type → Type} [Monad m]

def build (host : Host m) (ir cc output : String) (target : Option String) :
    m (Except CompileError Unit) := do
  let triple := match target with
    | some t => ["--target=" ++ t]
    | none => []
  match ← host.start { command := cc, source := ir, args := ["-o", output] ++ triple } with
  | .error refusal => return .error (.io refusal.reason)
  | .ok result =>
    if result.status.isSuccess then return .ok ()
    else return .error (.toolchain cc result.status.text result.stderr)

def compileFile (host : Host m) (input : String) (options : CompileOptions) :
    m (Except CompileError Compilation) := do
  match ← host.read input with
  | .error refusal => return .error (.io refusal.reason)
  | .ok text => return compileText text options

def report (host : Host m) (e : CompileError) (input : String) : m Unit :=
  host.warn (Emitter.plain.renderReport (e.report (some input)))

def statusOf : CompileError → Nat
  | .generation .overflow | .generation .exhausted => 101
  | _ => 1

/-- Compiles and goes on with the result, or reports why there is none. -/
def withCompiled (host : Host m) (input : String) (options : CompileOptions)
    (next : Compilation → m Nat) : m Nat := do
  match ← host.compileFile input options with
  | .error e =>
    host.report e input
    return statusOf e
  | .ok c =>
    c.warnings.forM fun w => host.warn ("warning: " ++ w ++ "\n")
    next c

def runCompile (host : Host m) (input output : String) (options : CompileOptions) : m Nat := do
  host.print ("📦 编译 " ++ input ++ " ...\n")
  host.withCompiled input options fun c => do
    match ← host.write output c.ir with
    | .error refusal =>
      host.warn ("Error: failed to write " ++ output ++ "\n\nCaused by:\n    " ++ refusal.reason ++
        "\n")
      return 1
    | .ok _ =>
      host.print s!"✅ 成功生成 {output} ({c.instances.length} 个单态化实例)\n"
      return 0

def runCheck (host : Host m) (input : String) : m Nat := do
  host.print ("🔍 检查 " ++ input ++ " ...\n")
  match ← host.compileFile input {} with
  | .ok _ =>
    host.print "✅ 无错误\n"
    return 0
  | .error e =>
    host.warn "❌ 发现错误:\n"
    host.report e input
    return statusOf e

def runBuild (host : Host m) (input output : String) (cc : Option String) : m Nat := do
  host.print ("🔨 构建 " ++ input ++ " ...\n")
  host.withCompiled input {} fun c => do
    let cc := (cc.or host.cc).getD defaultCompiler
    host.print ("  ⚙️  调用 " ++ cc ++ " ...\n")
    match ← host.build c.ir cc output none with
    | .error e =>
      host.report e input
      host.warn ("Error: failed to build " ++ output ++ "\n")
      return 1
    | .ok _ =>
      host.print ("✅ 成功生成可执行文件: " ++ output ++ "\n")
      return 0

def runCommand (host : Host m) : Command → m Nat
  | .compile input output debugInfo target =>
    host.runCompile input output { targetTriple := target, debugInfo }
  | .check input => host.runCheck input
  | .build input output cc => host.runBuild input output cc

def run (host : Host m) (args : List String) : m Nat :=
  match Request.ofArgs args with
  | .run c => host.runCommand c
  | .print text => do
    host.print text
    return 0
  | .misuse => do
    host.warn "error: unexpected arguments\n\nFor more information, try '--help'.\n"
    return 2

end Host

end Backend
