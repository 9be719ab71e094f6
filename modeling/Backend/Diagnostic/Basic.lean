import Backend.Source.Location

/-! Messages to the user, and reports: messages in the order in which they were made. -/

namespace Backend

inductive Severity where
  | note | warning | error
  deriving DecidableEq

def Severity.name : Severity → String
  | .note => "note"
  | .warning => "warning"
  | .error => "error"

structure Diagnostic where
  severity : Severity
  message : String
  code : Option String := none
  location : Option Location := none
  notes : List String := []
  help : List String := []

namespace Diagnostic

def error (message : String) : Diagnostic := { severity := .error, message }

def warning (message : String) : Diagnostic := { severity := .warning, message }

def note (message : String) : Diagnostic := { severity := .note, message }

def withCode (d : Diagnostic) (code : String) : Diagnostic := { d with code := some code }

def placedAt (d : Diagnostic) (l : Location) : Diagnostic :=
  if l.isUnknown then d else { d with location := some l }

def withFile (d : Diagnostic) (path : String) : Diagnostic :=
  let l := d.location.getD {}
  { d with location := some (if l.file.isEmpty then { l with file := path } else l) }

def withNote (d : Diagnostic) (text : String) : Diagnostic := { d with notes := d.notes ++ [text] }

def withHelp (d : Diagnostic) (text : String) : Diagnostic := { d with help := d.help ++ [text] }

def isError (d : Diagnostic) : Bool := d.severity = .error

end Diagnostic

/-- Diagnostics in the order in which they were made. Errors and warnings are counted on the way. -/
structure Report where
  diagnostics : List Diagnostic := []
  errors : Nat := 0
  warnings : Nat := 0

namespace Report

def count (r : Report) : Severity → Report
  | .error => { r with errors := r.errors + 1 }
  | .warning => { r with warnings := r.warnings + 1 }
  | .note => r

def add (r : Report) (d : Diagnostic) : Report :=
  { r.count d.severity with diagnostics := r.diagnostics ++ [d] }

def warn (r : Report) (message : String) : Report := r.add (.warning message)

def isEmpty (r : Report) : Bool := r.diagnostics.isEmpty

def hasErrors (r : Report) : Bool := 0 < r.errors

def firstError? (r : Report) : Option Diagnostic := r.diagnostics.find? Diagnostic.isError

def counted (n : Nat) (noun : String) : String := if n = 1 then s!"1 {noun}" else s!"{n} {noun}s"

/-- The closing line of a report; there is none without errors and warnings. -/
def summary? (r : Report) : Option String :=
  let failed := "could not generate IR due to " ++ counted r.errors "error"
  match r.errors, r.warnings with
  | 0, 0 => none
  | 0, w => some ("generated " ++ counted w "warning")
  | _, 0 => some failed
  | _, w => some (failed ++ "; " ++ counted w "warning" ++ " emitted")

end Report

end Backend
