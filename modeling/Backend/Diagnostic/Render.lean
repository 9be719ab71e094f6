import Backend.Diagnostic.Basic

/-!
The text of diagnostics, plain or coloured. A coloured text stands between the escape sequence of its
style and a reset.
-/

namespace Backend

/-- A style, as the codes of a terminal escape sequence. -/
inductive Style where
  | noteHead | warningHead | errorHead | gutter | help | bold
  deriving DecidableEq

def Style.codes : Style → String
  | .noteHead => "1;90"
  | .warningHead => "1;33"
  | .errorHead => "1;31"
  | .gutter => "1;34"
  | .help => "32"
  | .bold => "1"

/-! ### Terminal escapes -/

def resetSequence : List Char := ['\x1b', '[', '0', 'm']

def Style.sequence (s : Style) : List Char := '\x1b' :: '[' :: (s.codes.toList ++ ['m'])

/-- A reset inside a styled text would end the style, so the style is taken up again after it. -/
def resumeAfterReset (style : List Char) : List Char → List Char
  | '\x1b' :: '[' :: '0' :: 'm' :: rest =>
    resetSequence ++ style ++ resumeAfterReset style rest
  | c :: rest => c :: resumeAfterReset style rest
  | [] => []

def Style.paint (s : Style) (text : String) : String :=
  .ofList (s.sequence ++ resumeAfterReset s.sequence text.toList ++ resetSequence)

def Severity.paint : Severity → String → String
  | .note => Style.noteHead.paint
  | .warning => Style.warningHead.paint
  | .error => Style.errorHead.paint

/-! ### Layout -/

def Diagnostic.header (d : Diagnostic) : String :=
  match d.code with
  | some code => d.severity.name ++ "[" ++ code ++ "]"
  | none => d.severity.name

structure Emitter where
  colours : Bool

namespace Emitter

def plain : Emitter := ⟨false⟩

def gutter (e : Emitter) (mark : String) : String :=
  if e.colours then Style.gutter.paint mark else mark

def headLine (e : Emitter) (d : Diagnostic) : String :=
  if e.colours then d.severity.paint d.header ++ ": " ++ Style.bold.paint d.message ++ "\n"
  else d.header ++ ": " ++ d.message ++ "\n"

def locationLine (e : Emitter) (l : Location) : String :=
  "  " ++ e.gutter "-->" ++ " " ++ l.display ++ "\n"

def noteLine (e : Emitter) (note : String) : String :=
  "  " ++ e.gutter "=" ++ " note: " ++ note ++ "\n"

def helpLine (e : Emitter) (help : String) : String :=
  let line := "help: " ++ help
  "  " ++ e.gutter "=" ++ " " ++ (if e.colours then Style.help.paint line else line) ++ "\n"

def render (e : Emitter) (d : Diagnostic) : String :=
  e.headLine d ++
    (match d.location with
      | some l => e.locationLine l
      | none => "") ++
    String.join (d.notes.map e.noteLine) ++ String.join (d.help.map e.helpLine)

/-- The label of the summary. -/
def label (e : Emitter) (r : Report) : String :=
  let label := if r.hasErrors then "error" else "warning"
  if e.colours then
    if r.hasErrors then Style.errorHead.paint label else Style.warningHead.paint label
  else label

/-- The diagnostics with an empty line between two of them, then the summary. -/
def renderReport (e : Emitter) (r : Report) : String :=
  "\n".intercalate (r.diagnostics.map e.render) ++
    match r.summary? with
    | some summary => "\n" ++ e.label r ++ ": " ++ summary ++ "\n"
    | none => ""

end Emitter

end Backend
