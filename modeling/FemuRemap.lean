import FemuRemap.Proofs.Aligned
import FemuRemap.Proofs.Refinement
import FemuRemap.Proofs.Spare
import FemuRemap.Proofs.Relocation
import FemuRemap.Proofs.NvramBudget
import FemuRemap.Proofs.Exhaustion
import FemuRemap.Proofs.Rounds
import FemuRemap.Proofs.Trigger
import FemuRemap.Proofs.Statistics
import FemuRemap.Proofs.NvramTotals
import FemuRemap.Proofs.Accounting
import FemuRemap.Proofs.Admission
import FemuRemap.Proofs.HeapCopy
import FemuRemap.Proofs.Moves
import FemuRemap.Proofs.Occupancy
import FemuRemap.Proofs.Timing
import FemuRemap.Proofs.Completion
import FemuRemap.Proofs.CutLoops
import FemuRemap.Proofs.Discard
import FemuRemap.Proofs.VictimHeap
import FemuRemap.Proofs.Grants
import FemuRemap.Proofs.Stripes
import FemuRemap.Proofs.Planes
import FemuRemap.Proofs.SectorStates
import FemuRemap.Proofs.Draw
import FemuRemap.Proofs.Addresses
import FemuRemap.Proofs.AddressFormat
import FemuRemap.Proofs.Latency
import FemuRemap.Proofs.Charges
import FemuRemap.Proofs.ListHeap
import FemuRemap.Proofs.Dedup
import FemuRemap.Proofs.Polls
import FemuRemap.Proofs.Delivery
import FemuRemap.Proofs.Data
import FemuRemap.Proofs.Survival
