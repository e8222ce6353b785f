import TwoPhaseStore.Cell.Trial
import TwoPhaseStore.Proofs.Abort
import TwoPhaseStore.Proofs.Acquisition
import TwoPhaseStore.Proofs.Atomicity
import TwoPhaseStore.Proofs.Copy
import TwoPhaseStore.Proofs.InFlight
import TwoPhaseStore.Proofs.Order
import TwoPhaseStore.Proofs.Residue
import TwoPhaseStore.Proofs.Resubmission
import TwoPhaseStore.Proofs.Shape
import TwoPhaseStore.Proofs.Snapshot
import TwoPhaseStore.Proofs.Torn
import TwoPhaseStore.Proofs.Trial
import TwoPhaseStore.Proofs.Account
import TwoPhaseStore.Proofs.Placeholders
import TwoPhaseStore.Proofs.Config
