import Backend.Substitution

/-! Function bodies that wait to be generated, first in first out. -/

namespace Backend

/-- The body of a lambda that has been lifted to a function of its own. -/
structure LiftedLambda where
  params : List Field
  captures : List Field
  body : List Stmt
  returnType : TypeRef
  /-- Name of the record that holds the captured values. -/
  envType : String
  location : Location := {}

/-- Where a pending body comes from. -/
inductive BodySource where
  | function (template : String)
  | method (owner method : String)
  | lambda (body : LiftedLambda)

structure Pending where
  symbol : String
  source : BodySource
  substitution : Substitution

abbrev PendingQueue := List Pending

namespace PendingQueue

def push (q : PendingQueue) (p : Pending) : PendingQueue := q ++ [p]

def pop? : PendingQueue → Option (Pending × PendingQueue)
  | [] => none
  | p :: rest => some (p, rest)

def symbols (q : PendingQueue) : List String := q.map Pending.symbol

def holds (q : PendingQueue) (symbol : String) : Bool := q.symbols.contains symbol

end PendingQueue

end Backend
