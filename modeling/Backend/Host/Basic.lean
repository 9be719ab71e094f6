import Backend.Toolchain.Basic

/-! What a run needs of its surroundings, and why they may refuse. -/

namespace Backend

/-- Why the host does not do what it is asked for. -/
inductive Refusal where
  | notFound
  | argumentTooLong
  | denied
  | notDirectory
  | isDirectory
  | noSpace
  | nameTooLong
  /-- The file does not hold text. -/
  | notText
  /-- A command line cannot hold the character that ends its arguments. -/
  | nulInArgument
  | other (reason : String)
  deriving DecidableEq

def Refusal.reason : Refusal → String
  | .notFound => "No such file or directory (os error 2)"
  | .argumentTooLong => "Argument list too long (os error 7)"
  | .denied => "Permission denied (os error 13)"
  | .notDirectory => "Not a directory (os error 20)"
  | .isDirectory => "Is a directory (os error 21)"
  | .noSpace => "No space left on device (os error 28)"
  | .nameTooLong => "File name too long (os error 36)"
  | .notText => "stream did not contain valid UTF-8"
  | .nulInArgument => "nul byte found in provided data"
  | .other reason => reason

structure Host (m : Type → Type) where
  read : String → m (Except Refusal String)
  write : String → String → m (Except Refusal Unit)
  start : Invocation → m (Except Refusal ToolResult)
  print : String → m Unit
  warn : String → m Unit
  /-- The downstream compiler that the surroundings ask for. -/
  cc : Option String := none

end Backend
