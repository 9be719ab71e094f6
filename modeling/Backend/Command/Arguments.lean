/-!
The command line: three commands with their options. Options may stand anywhere among the
arguments, short ones may be joined, and `--` ends them.
-/

namespace Backend

inductive Command where
  | compile (input output : String) (debugInfo : Bool) (target : Option String)
  | check (input : String)
  | build (input output : String) (cc : Option String)

/-- What a command line asks for. -/
inductive Request where
  | run (c : Command)
  | print (text : String)
  /-- It does not fit the commands. -/
  | misuse

/-- An option with a value. -/
structure OptionSpec where
  short : Option Char := none
  long : String
  /-- A path is never empty. -/
  isPath : Bool := false

structure CommandSpec where
  name : String
  options : List OptionSpec := []
  flags : List String := []

namespace CommandSpec

def output : OptionSpec := { short := some 'o', long := "output", isPath := true }

def compile : CommandSpec where
  name := "compile"
  options := [output, { long := "target" }]
  flags := ["debug-info"]

def check : CommandSpec where
  name := "check"

def build : CommandSpec where
  name := "build"
  options := [output, { long := "cc" }]

def all : List CommandSpec := [compile, check, build]

def short? (s : CommandSpec) (c : Char) : Option OptionSpec :=
  s.options.find? fun o => o.short = some c

def long? (s : CommandSpec) (name : String) : Option OptionSpec :=
  s.options.find? fun o => o.long = name

end CommandSpec

/-- What has been read so far. -/
structure Parsed where
  values : List (String × String) := []
  flags : List String := []
  inputs : List String := []

/-- Reading ends early with a wish for help or with a misuse. -/
inductive Stop where
  | help
  | misuse

namespace Parsed

def value? (p : Parsed) (name : String) : Option String := p.values.lookup name

def setValue (p : Parsed) (o : OptionSpec) (value : String) : Except Stop Parsed :=
  if (p.value? o.long).isSome || (o.isPath && value.isEmpty) then .error .misuse
  else .ok { p with values := (o.long, value) :: p.values }

def setFlag (p : Parsed) (name : String) : Except Stop Parsed :=
  if name ∈ p.flags then .error .misuse else .ok { p with flags := name :: p.flags }

def setInput (p : Parsed) (value : String) : Except Stop Parsed :=
  if p.inputs.isEmpty && !value.isEmpty then .ok { p with inputs := [value] }
  else .error .misuse

end Parsed

/-- What a group of short options leads to. -/
inductive Cluster where
  | done
  | value (o : OptionSpec) (text : String)
  /-- The value is the next argument. -/
  | awaiting (o : OptionSpec)

def dropEquals : List Char → List Char
  | '=' :: rest => rest
  | cs => cs

def readCluster (spec : CommandSpec) : List Char → Except Stop Cluster
  | [] => .ok .done
  | 'v' :: rest => readCluster spec rest
  | 'h' :: _ => .error .help
  | c :: rest =>
    match spec.short? c, rest with
    | none, _ => .error .misuse
    | some o, [] => .ok (.awaiting o)
    | some o, rest => .ok (.value o (String.ofList (dropEquals rest)))

/-- What a long option leads to; `value` is what stands behind an equals sign. -/
def readLong (spec : CommandSpec) (p : Parsed) (name : String) (value : Option String) :
    Except Stop (Parsed × Option OptionSpec) :=
  match spec.long? name, value with
  | some o, some v => do return (← p.setValue o v, none)
  | some o, none => .ok (p, some o)
  | none, some _ => .error .misuse
  | none, none =>
    if name = "verbose" then .ok (p, none)
    else if name = "help" then .error .help
    else if name ∈ spec.flags then do return (← p.setFlag name, none)
    else .error .misuse

def splitEquals (s : List Char) : String × Option String :=
  let name := String.ofList (s.takeWhile (· ≠ '='))
  match s.dropWhile (· ≠ '=') with
  | _ :: rest => (name, some (String.ofList rest))
  | [] => (name, none)

/-- An argument that is taken for an option. A lone hyphen is a value. -/
def looksLikeOption (arg : String) : Bool := arg.toList.head? = some '-' && arg ≠ "-"

/-- Reads the arguments of a command; `awaiting` is an option whose value comes next. -/
def readArguments (spec : CommandSpec) :
    Option OptionSpec → Parsed → List String → Except Stop Parsed
  | some _, _, [] => .error .misuse
  | some o, p, arg :: rest =>
    if looksLikeOption arg then .error .misuse
    else do readArguments spec none (← p.setValue o arg) rest
  | none, p, [] => .ok p
  | none, p, arg :: rest =>
    if !looksLikeOption arg then do readArguments spec none (← p.setInput arg) rest
    else match arg.toList with
      | ['-', '-'] => rest.foldlM Parsed.setInput p
      | '-' :: '-' :: name => do
        let (name, value) := splitEquals name
        let (p, awaiting) ← readLong spec p name value
        readArguments spec awaiting p rest
      | _ :: letters => do
        match ← readCluster spec letters with
        | .done => readArguments spec none p rest
        | .value o text => readArguments spec none (← p.setValue o text) rest
        | .awaiting o => readArguments spec (some o) p rest
      | [] => .error .misuse

namespace Parsed

def command? (p : Parsed) (spec : CommandSpec) : Option Command := do
  let input ← p.inputs.head?
  match spec.name with
  | "compile" =>
    some (.compile input ((p.value? "output").getD "a.ll") ("debug-info" ∈ p.flags)
      (p.value? "target"))
  | "check" => some (.check input)
  | "build" => some (.build input ((p.value? "output").getD "a.out") (p.value? "cc"))
  | _ => none

end Parsed

/-! ### Help -/

def generalHelp : String :=
  "Tessera 后端 - 把类型检查后的模块降级为 LLVM IR\n\n" ++
  "Usage: tessera [OPTIONS] <COMMAND>\n\n" ++
  "Commands:\n" ++
  "  compile  编译模块 JSON 为 LLVM IR\n" ++
  "  check    只检查能否生成代码\n" ++
  "  build    编译并生成可执行文件\n" ++
  "  help     Print this message or the help of the given subcommand(s)\n\n" ++
  "Options:\n" ++
  "  -v, --verbose...  日志详细程度 (-v: debug, -vv: trace)\n" ++
  "  -h, --help        Print help\n" ++
  "  -V, --version     Print version\n"

def compileHelp : String :=
  "编译模块 JSON 为 LLVM IR\n\n" ++
  "Usage: tessera compile [OPTIONS] <INPUT>\n\n" ++
  "Arguments:\n  <INPUT>  输入文件\n\n" ++
  "Options:\n" ++
  "  -o, --output <OUTPUT>  输出文件 (默认: a.ll) [default: a.ll]\n" ++
  "  -v, --verbose...       日志详细程度 (-v: debug, -vv: trace)\n" ++
  "      --debug-info       调用调试元数据接口\n" ++
  "      --target <TARGET>  目标三元组\n" ++
  "  -h, --help             Print help\n"

def checkHelp : String :=
  "只检查能否生成代码\n\n" ++
  "Usage: tessera check [OPTIONS] <INPUT>\n\n" ++
  "Arguments:\n  <INPUT>  输入文件\n\n" ++
  "Options:\n" ++
  "  -v, --verbose...  日志详细程度 (-v: debug, -vv: trace)\n" ++
  "  -h, --help        Print help\n"

def buildHelp : String :=
  "编译并生成可执行文件\n\n" ++
  "Usage: tessera build [OPTIONS] <INPUT>\n\n" ++
  "Arguments:\n  <INPUT>  输入文件\n\n" ++
  "Options:\n" ++
  "  -o, --output <OUTPUT>  输出文件 (默认: a.out) [default: a.out]\n" ++
  "  -v, --verbose...       日志详细程度 (-v: debug, -vv: trace)\n" ++
  "      --cc <CC>          下游编译器 (默认: $TESSERA_CC 或 clang)\n" ++
  "  -h, --help             Print help\n"

def helpHelp : String :=
  "Print this message or the help of the given subcommand(s)\n\n" ++
  "Usage: tessera help [COMMAND]...\n\n" ++
  "Arguments:\n  [COMMAND]...  Print help for the subcommand(s)\n"

def CommandSpec.help (s : CommandSpec) : String :=
  match s.name with
  | "compile" => compileHelp
  | "check" => checkHelp
  | _ => buildHelp

def versionText : String := "tessera 0.1.0\n"

/-! ### The whole line -/

def readCommand (spec : CommandSpec) (args : List String) : Request :=
  match readArguments spec none {} args with
  | .error .help => .print spec.help
  | .error .misuse => .misuse
  | .ok p =>
    match p.command? spec with
    | some c => .run c
    | none => .misuse

/-- Short options before the command. -/
inductive Lead where
  | goOn
  | stop (r : Request)

def readLead : List Char → Lead
  | [] => .goOn
  | 'v' :: rest => readLead rest
  | 'h' :: _ => .stop (.print generalHelp)
  | 'V' :: _ => .stop (.print versionText)
  | _ => .stop .misuse

/-- Help by the names that follow `help`. No command has commands of its own, so there is at most
one name. -/
def helpFor : List String → Request
  | [] => .print generalHelp
  | [name] =>
    match CommandSpec.all.find? fun s => s.name = name with
    | some s => .print s.help
    | none => if name = "help" then .print helpHelp else .misuse
  | _ => .misuse

def Request.ofArgs : List String → Request
  | [] => .misuse
  | "--verbose" :: rest => ofArgs rest
  | "--help" :: _ => .print generalHelp
  | "--version" :: _ => .print versionText
  | "help" :: rest => helpFor rest
  | arg :: rest =>
    match CommandSpec.all.find? fun s => s.name = arg with
    | some s => readCommand s rest
    | none =>
      match arg.toList with
      | '-' :: c :: letters =>
        match readLead (c :: letters) with
        | .goOn => ofArgs rest
        | .stop r => r
      | _ => .misuse

end Backend
