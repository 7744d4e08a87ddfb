import SmallLisp.Text.Blank
import SmallLisp.Text.Digit
import SmallLisp.Text.Quoted
import SmallLisp.Number.Shortest
import SmallLisp.Number.Basic
import SmallLisp.Number.Whole
import SmallLisp.Number.Real
import SmallLisp.Datum.Reader
import SmallLisp.Store
import SmallLisp.Builtin.Standard
import SmallLisp.Interpreter
import SmallLisp.Session
import SmallLisp.Settings
import SmallLisp.CommandLine
import SmallLisp.Main
import SmallLisp.Proofs.Footprint
import SmallLisp.Proofs.Grammar
import SmallLisp.Proofs.RoundTrip
import SmallLisp.Proofs.Scope
import SmallLisp.Proofs.WellFormed
import SmallLisp.Proofs.Composition
import SmallLisp.Proofs.Shape
import SmallLisp.Proofs.Twins
import SmallLisp.Proofs.Locality
import SmallLisp.Proofs.Faults
import SmallLisp.Proofs.Sessions
import SmallLisp.Proofs.Growth
import SmallLisp.Proofs.Renaming.Values
import SmallLisp.Proofs.Renaming.Operations
import SmallLisp.Proofs.Mirror
import SmallLisp.Proofs.Output
import SmallLisp.Proofs.Unused
import SmallLisp.Proofs.Transparency
import SmallLisp.Proofs.Limits
import SmallLisp.Proofs.NormalForm
import SmallLisp.Proofs.Sequencing
import SmallLisp.Proofs.Nesting
import SmallLisp.Proofs.Balance
import SmallLisp.Proofs.DirectCalls
import SmallLisp.Proofs.Traces
import SmallLisp.Proofs.Interruptions
import SmallLisp.Proofs.Replay
import SmallLisp.Proofs.Scanner
import SmallLisp.Proofs.History
import SmallLisp.Proofs.ClosureCalls
import SmallLisp.Proofs.Equality
import SmallLisp.Proofs.Comparisons
import SmallLisp.Proofs.Standard
import SmallLisp.Proofs.Number.Whole
import SmallLisp.Proofs.IntegerFunctions
import SmallLisp.Proofs.Atoms
import SmallLisp.Proofs.Streams
