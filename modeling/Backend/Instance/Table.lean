import Backend.Source.Type
import Backend.Table

/-!
The record of generated instances, one for each name, in order of first mention. A record moves
forward only: requested, in progress, complete.
-/

namespace Backend

inductive InstanceState where
  | requested | inProgress | complete
  deriving DecidableEq

structure InstanceRecord where
  base : String
  args : List TypeRef
  name : String
  state : InstanceState

/-- The answer to beginning an instance: it is new, or there is one in some state. -/
inductive Claim where
  | fresh
  | existing (state : InstanceState)
  deriving DecidableEq

abbrev InstanceTable := Table InstanceRecord

namespace InstanceTable

def request (t : InstanceTable) (base : String) (args : List TypeRef) (name : String) :
    Bool × InstanceTable :=
  if t.contains name then (false, t)
  else (true, t.insert name { base, args, name, state := .requested })

/-- Starts an instance. Only a new or a requested one is fresh. -/
def begin (t : InstanceTable) (base : String) (args : List TypeRef) (name : String) :
    Claim × InstanceTable :=
  match t.find? name with
  | none => (.fresh, t.insert name { base, args, name, state := .inProgress })
  | some r =>
    if r.state = .requested then (.fresh, t.insert name { r with state := .inProgress })
    else (.existing r.state, t)

def complete (t : InstanceTable) (name : String) : InstanceTable :=
  match t.find? name with
  | none => t
  | some r => t.insert name { r with state := .complete }

def state? (t : InstanceTable) (name : String) : Option InstanceState :=
  (t.find? name).map InstanceRecord.state

def instancesOf (t : InstanceTable) (base : String) : List String :=
  (t.values.filter fun r => r.base = base).map InstanceRecord.name

end InstanceTable

end Backend
