import Backend.Main
import Backend.Host.Disk
import Backend.Proofs.Blocks.Function
import Backend.Proofs.Encoding.Canonical
import Backend.Source.Encode
import Backend.Proofs.Monomorphization
import Backend.Proofs.Retyping.Spelling
import Backend.Proofs.Resolution.Follows
import Backend.Proofs.Flow.Branch
import Backend.Proofs.Flow.Expr
import Backend.Proofs.Flow.Function
import Backend.Proofs.Flow.Merge
import Backend.Proofs.Layout.Define
import Backend.Proofs.Layout.Described
import Backend.Proofs.Layout.Payload
import Backend.Proofs.Session.Course
import Backend.Proofs.Resolution.Lays
import Backend.Proofs.Resolution.Requests
import Backend.Proofs.Layout.Order
import Backend.Proofs.Resolution.Settled
import Backend.Proofs.Session.Over
import Backend.Proofs.Layout.Inherit
import Backend.Proofs.Session.Upheld
import Backend.Proofs.Dispatch
import Backend.Proofs.Json.Grammar
import Backend.Proofs.Json.Compact
import Backend.Proofs.Json.Variation
import Backend.Proofs.Source.Format
import Backend.Proofs.Source.RoundTrip
import Backend.Proofs.Session.Marks
import Backend.Proofs.Resolution.Again
import Backend.Proofs.Lowering.Conversions
import Backend.Proofs.Emission.Literal
import Backend.Proofs.Encoding.Expansion
import Backend.Proofs.Encoding.Names
import Backend.Proofs.Resolution.Arity
import Backend.Proofs.Strings
import Backend.Proofs.Emission.Scope
import Backend.Proofs.Emission.Environment
import Backend.Proofs.InstanceHistory
import Backend.Proofs.Colours
import Backend.Proofs.Resolution.Eager
import Backend.Proofs.Substitution.Compose
import Backend.Proofs.Substitution.Local
