import Backend.Toolchain.Basic
import Backend.Toolchain.Script.Number

/-! Signals by number and by name. -/

namespace Backend.Script

def signalCount : Nat := 65

def signalName (n : Nat) : String :=
  if n = 0 then "EXIT"
  else if n = 16 || n = 32 || n = 33 then toString n
  else if n = 34 then "RTMIN"
  else if n = 64 then "RTMAX"
  else if n < 50 then (signalNames.lookup n).getD ("RTMIN+" ++ toString (n - 34))
  else "RTMAX-" ++ toString (64 - n)

def signalNumber? (least : Nat) (name : String) : Option Nat :=
  if name ≠ "" && name.toList.all Char.isDigit then
    let n := valueOf 10 name.toList
    if n < signalCount then some n else none
  else (List.range signalCount).find? fun n => least ≤ n && signalName n = name.toUpper

def signalNotes : List (Nat × String) :=
  [(1, "Hangup"), (3, "Quit"), (4, "Illegal instruction"), (5, "Trace/breakpoint trap"),
   (6, "Aborted"), (7, "Bus error"), (8, "Floating point exception"), (9, "Killed"),
   (10, "User defined signal 1"), (11, "Segmentation fault"), (12, "User defined signal 2"),
   (14, "Alarm clock"), (15, "Terminated"), (16, "Stack fault"), (24, "CPU time limit exceeded"),
   (25, "File size limit exceeded"), (26, "Virtual timer expired"), (27, "Profiling timer expired"),
   (29, "I/O possible"), (30, "Power failure"), (31, "Bad system call")]

def signalNote? (n : Nat) : Option String :=
  if 34 ≤ n then some ("Real-time signal " ++ toString (n - 34)) else signalNotes.lookup n

def childSignal : Nat := 17

def harmlessSignals : List Nat := [0, childSignal, 18, 23, 28]

def unstoppableSignals : List Nat := [9, 19]

end Backend.Script
