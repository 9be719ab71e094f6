import Backend.Command.Run

/-! The command line program. How other programs are started is up to the machine. -/

namespace Backend

def ioRefusal (e : IO.Error) : Refusal :=
  match e with
  | .noFileOrDirectory .. => .notFound
  | e => .other (toString e)

def machine (start : Invocation → IO (Except Refusal ToolResult)) (cc : Option String) : Host IO where
  read path := return (← (IO.FS.readFile path).toBaseIO).mapError ioRefusal
  write path content := return (← (IO.FS.writeFile path content).toBaseIO).mapError ioRefusal
  start
  print := IO.print
  warn := IO.eprint
  cc

def runMain (start : Invocation → IO (Except Refusal ToolResult)) (args : List String) :
    IO UInt32 := do
  let cc ← IO.getEnv "TESSERA_CC"
  let status ← Host.run (machine start cc) args
  return status.toUInt32

end Backend
