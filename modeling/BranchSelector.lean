import BranchSelector.Baseline.Recorded
import BranchSelector.Baseline.Static
import BranchSelector.Main
import BranchSelector.Proofs.Replay.Calls
import BranchSelector.Proofs.Replay.Charge
import BranchSelector.Proofs.Replay.Completion
import BranchSelector.Proofs.Replay.Lockstep
import BranchSelector.Proofs.Replay.Twins
import BranchSelector.Proofs.Selector.Squash
import BranchSelector.Proofs.Selector.Trust
import BranchSelector.Proofs.Selector.Routing
import BranchSelector.Proofs.Selector.Remembrance
import BranchSelector.Proofs.Replay.Front
import BranchSelector.Proofs.Selector.Muted
import BranchSelector.Proofs.Selector.Ledger
import BranchSelector.Proofs.Window.Contents
import BranchSelector.Proofs.Replay.Lookback
import BranchSelector.Proofs.Selector.Epoch
import BranchSelector.Proofs.Selector.Renewal
import BranchSelector.Proofs.Trace.RoundTrip
import BranchSelector.Proofs.Threshold.Homogeneous
import BranchSelector.Proofs.Correlator.Convergence
import BranchSelector.Proofs.Correlator.Discipline
import BranchSelector.Proofs.Window.BlockSizes
import BranchSelector.Proofs.Correlator.Monotone
import BranchSelector.Proofs.Selector.Words
import BranchSelector.Proofs.Replay.Staleness
import BranchSelector.Proofs.Replay.Occupancy
import BranchSelector.Proofs.Replay.Delay
import BranchSelector.Proofs.Window.Nesting
import BranchSelector.Proofs.Filter.Bits
import BranchSelector.Proofs.Baseline.Counters
import BranchSelector.Proofs.Window.Direction
import BranchSelector.Proofs.Selector.Path
import BranchSelector.Proofs.Tag.Parity
import BranchSelector.Proofs.Filter.Mixing
import BranchSelector.Proofs.Branch.Packing
