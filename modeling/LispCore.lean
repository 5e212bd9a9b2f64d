import LispCore.Encoding
import LispCore.Encoding.Name
import LispCore.Host
import LispCore.Namespace
import LispCore.Session
import LispCore.Proofs.Content
import LispCore.Proofs.Position
import LispCore.Proofs.Verdict
import LispCore.Proofs.EqualityLaws
import LispCore.Proofs.Call
import LispCore.Proofs.Nearest
import LispCore.Proofs.Ordering
import LispCore.Proofs.DecimalValue
import LispCore.Proofs.DigitCount
import LispCore.Proofs.Shortest
import LispCore.Proofs.NumberText
import LispCore.Proofs.Tokens
import LispCore.Proofs.Reading
import LispCore.Proofs.RoundTrip
import LispCore.Proofs.DepthGuard
import LispCore.Proofs.GreaterLimit
import LispCore.Proofs.Acceptance
import LispCore.Proofs.ReadBack
import LispCore.Proofs.ErrorClass
import LispCore.Proofs.Guarded
import LispCore.Proofs.GuardedEntries
import LispCore.Proofs.Confinement
import LispCore.Proofs.Replacement
import LispCore.Proofs.SelfComparison
import LispCore.Proofs.Widening
import LispCore.Proofs.EqualText
import LispCore.Proofs.Interchange
import LispCore.Proofs.BoundFunctions
import LispCore.Proofs.Installation
import LispCore.Proofs.Conversion
import LispCore.Proofs.TotalPreorder
import LispCore.Proofs.FewestDigits
import LispCore.Proofs.SignificantDigits
import LispCore.Proofs.ShortestText
import LispCore.Proofs.FirstFlaw
import LispCore.Proofs.Modes
import LispCore.Proofs.FirstValue
import LispCore.Proofs.DepthShift
import LispCore.Proofs.OneLine
import LispCore.Proofs.FileText
import LispCore.Proofs.IntegerLiteral
import LispCore.Proofs.ArityGate
