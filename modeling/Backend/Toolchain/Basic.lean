/-! Commands that the build step starts, and how they end. -/

namespace Backend

/-- How a command is started: its name, the text of the file that it is given first, and the
arguments after that. -/
structure Invocation where
  command : String
  source : String
  args : List String

inductive ExitStatus where
  | code (n : Nat)
  | signal (n : Nat)
  deriving DecidableEq

def signalNames : List (Nat × String) :=
  [(1, "HUP"), (2, "INT"), (3, "QUIT"), (4, "ILL"), (5, "TRAP"), (6, "ABRT"), (7, "BUS"),
   (8, "FPE"), (9, "KILL"), (10, "USR1"), (11, "SEGV"), (12, "USR2"), (13, "PIPE"),
   (14, "ALRM"), (15, "TERM"), (16, "STKFLT"), (17, "CHLD"), (18, "CONT"), (19, "STOP"),
   (20, "TSTP"), (21, "TTIN"), (22, "TTOU"), (23, "URG"), (24, "XCPU"), (25, "XFSZ"),
   (26, "VTALRM"), (27, "PROF"), (28, "WINCH"), (29, "IO"), (30, "PWR"), (31, "SYS")]

namespace ExitStatus

def isSuccess (s : ExitStatus) : Bool := s = .code 0

def text : ExitStatus → String
  | .code n => s!"exit status: {n}"
  | .signal n =>
    match signalNames.lookup n with
    | some name => s!"signal: {n} (SIG{name})"
    | none => s!"signal: {n}"

end ExitStatus

structure ToolResult where
  status : ExitStatus
  stderr : String := ""

end Backend
