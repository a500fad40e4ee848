import Brace.Scope.Family
import Brace.Session
import Brace.Typing.Session
import Brace.Proofs.Typing.Phases
import Brace.Proofs.Safety.Created
import Brace.Proofs.Safety.Methods
import Brace.Proofs.Safety.Resolved
import Brace.Proofs.Safety.Types
import Brace.Proofs.Safety.Calls
import Brace.Proofs.Safety.Endings
import Brace.Proofs.Safety.Failures
import Brace.Proofs.Safety.Rendering
import Brace.Proofs.Scope.Frozen
import Brace.Proofs.Nesting.Functions
import Brace.Proofs.Nesting.Limit
import Brace.Proofs.Nesting.Jobs
import Brace.Proofs.Nesting.Runs
import Brace.Proofs.Nesting.Ends
import Brace.Proofs.Classes.Table
import Brace.Proofs.Classes.Super
import Brace.Proofs.Reports.Adds
import Brace.Proofs.Reports.Pieces
import Brace.Proofs.Reports.Mistakes
import Brace.Proofs.Reports.Expr
import Brace.Proofs.Reports.Program
import Brace.Proofs.Classes.Changes
import Brace.Proofs.Classes.Jobs
import Brace.Proofs.Classes.Runs
import Brace.Proofs.Casts.Redundant
import Brace.Proofs.Reports.Kept
import Brace.Proofs.Run.Transcript
import Brace.Proofs.Run.Caller
import Brace.Proofs.Classes.Fields
import Brace.Proofs.Scope.Chain
import Brace.Proofs.Scope.Owner
import Brace.Proofs.Scope.Blocks
import Brace.Proofs.Scope.Refusals
import Brace.Proofs.Run.Unchanged
import Brace.Proofs.Template.Escapes
import Brace.Proofs.Template.Filling
import Brace.Proofs.Run.Scanning
import Brace.Proofs.Value.Division
import Brace.Proofs.Run.Compound
import Brace.Proofs.Run.Blame
import Brace.Proofs.Loops.Desugar
import Brace.Proofs.Classes.Order
import Brace.Proofs.Typing.Annotated
import Brace.Proofs.Run.Arrays
