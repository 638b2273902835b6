import Laye.Main
import Laye.Proofs.Meaning.Preservation
import Laye.Proofs.Lowering.Lowerable
import Laye.Proofs.Typing.Settled
import Laye.Proofs.Diagnostics.Verdicts
import Laye.Proofs.Typing.Void
import Laye.Proofs.Lowering.Calls
import Laye.Proofs.Elaboration.DeadCode
import Laye.Proofs.Scope.Levels
import Laye.Proofs.Bounds.Unit
import Laye.Proofs.Interchange.RoundTrip
import Laye.Proofs.Typing.Literals
import Laye.Proofs.Typing.Recursion
import Laye.Proofs.Lowering.Places
import Laye.Proofs.Typing.Unification
import Laye.Proofs.Elaboration.Variants
import Laye.Proofs.Typing.Resolution
import Laye.Proofs.Interchange.Reports
import Laye.Proofs.Interchange.Spans
import Laye.Proofs.Typing.Numbering
