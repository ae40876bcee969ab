import Saturation.Keeping
import Saturation.Main
import Saturation.Proofs.Calls
import Saturation.Proofs.Decision
import Saturation.Proofs.Driving
import Saturation.Proofs.Equivariance
import Saturation.Proofs.GivenClauses
import Saturation.Proofs.History
import Saturation.Proofs.Levels
import Saturation.Proofs.LineGrammar
import Saturation.Proofs.Normalization
import Saturation.Proofs.Progress
import Saturation.Proofs.Redundancy
import Saturation.Proofs.RoundEffect
import Saturation.Proofs.Rule
import Saturation.Proofs.TotalOrder
import Saturation.Proofs.Canonical
import Saturation.Proofs.Enumeration
import Saturation.Proofs.Names
