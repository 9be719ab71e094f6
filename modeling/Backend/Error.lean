import Backend.Diagnostic.Basic

/-!
Why generation fails. An error is a cause, with the place of the innermost statement or
declaration whose place is known.
-/

namespace Backend

inductive Cause where
  | genericArity (decl : String) (expected got : Nat)
  | unresolvedType (name context : String)
  | resolutionDepth (name : String) (depth : Nat)
  | notAddressable (what : String)
  | missingMethod (owner method : String)
  | unknownField (owner field : String)
  | unknownVariant (owner variant : String)
  | undefinedVariable (name : String)
  | undefinedFunction (name : String)
  | outsideLoop (keyword : String)
  | template (name : String)
  | unsupported (what : String)
  deriving DecidableEq

namespace Cause

def message : Cause → String
  | .genericArity decl expected got =>
    s!"generic argument mismatch for '{decl}': expected {expected}, got {got}"
  | .unresolvedType name context => s!"unresolved type '{name}' ({context})"
  | .resolutionDepth name depth =>
    s!"type resolution exceeded depth {depth} while resolving '{name}'"
  | .notAddressable what => s!"expression is not addressable: {what}"
  | .missingMethod owner method => s!"method '{method}' not found on '{owner}' or its ancestors"
  | .unknownField owner field => s!"struct '{owner}' has no field '{field}'"
  | .unknownVariant owner variant => s!"enum '{owner}' has no variant '{variant}'"
  | .undefinedVariable name => s!"undefined variable: {name}"
  | .undefinedFunction name => s!"function not found: {name}"
  | .outsideLoop keyword => s!"'{keyword}' outside of a loop"
  | .template name => s!"generic template '{name}' cannot be laid out without type arguments"
  | .unsupported what => s!"unsupported: {what}"

def code : Cause → String
  | .genericArity .. => "E0101"
  | .unresolvedType .. => "E0102"
  | .resolutionDepth .. => "E0103"
  | .notAddressable .. => "E0104"
  | .missingMethod .. => "E0105"
  | .unknownField .. | .unknownVariant .. => "E0106"
  | .undefinedVariable .. | .undefinedFunction .. => "E0107"
  | .outsideLoop .. => "E0108"
  | .template .. => "E0109"
  | .unsupported .. => "E0199"

end Cause

structure GenError where
  cause : Cause
  location : Option Location := none
  deriving DecidableEq

namespace GenError

/-- Records a place, unless it is unknown or there is one already. -/
def placedAt (e : GenError) (l : Location) : GenError :=
  if e.location.isSome || l.isUnknown then e else { e with location := some l }

def message (e : GenError) : String :=
  match e.location with
  | some l => l.display ++ ": " ++ e.cause.message
  | none => e.cause.message

def diagnostic (e : GenError) : Diagnostic :=
  let base := (Diagnostic.error e.cause.message).withCode e.cause.code
  let placed := match e.location with
    | some l => base.placedAt l
    | none => base
  match e.cause with
  | .resolutionDepth .. => placed.withNote "this usually means a type alias refers to itself"
  | .genericArity _ expected _ =>
    placed.withHelp s!"provide exactly {expected} type argument(s)"
  | _ => placed

end GenError

end Backend
