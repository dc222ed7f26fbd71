import TapeMachine.CommandLine.Console
import TapeMachine.Main
import TapeMachine.Proofs.Acceptance
import TapeMachine.Proofs.Faithfulness
import TapeMachine.Proofs.Depth
import TapeMachine.Proofs.Types
import TapeMachine.Proofs.Tiling
import TapeMachine.Proofs.Blocks
import TapeMachine.Proofs.Schedule
import TapeMachine.Proofs.Causes
import TapeMachine.Proofs.Enclosing
import TapeMachine.Proofs.Nesting
import TapeMachine.Proofs.Activations
import TapeMachine.Proofs.Frames
import TapeMachine.Proofs.Chain
import TapeMachine.Proofs.Finality
import TapeMachine.Proofs.Growth
import TapeMachine.Proofs.Inclusion
import TapeMachine.Proofs.Unfolding
import TapeMachine.Proofs.Resolution
import TapeMachine.Proofs.Mirror
import TapeMachine.Proofs.Modules
import TapeMachine.Proofs.Lockstep
import TapeMachine.Proofs.Laziness
import TapeMachine.Proofs.Contracts
import TapeMachine.Proofs.Gradual
import TapeMachine.Proofs.Vacancy
import TapeMachine.Proofs.Pinpointing
import TapeMachine.Proofs.Coalescing
import TapeMachine.Proofs.Descent
import TapeMachine.Proofs.Outline
import TapeMachine.Proofs.Cycles
import TapeMachine.Proofs.Partition
import TapeMachine.Proofs.Quoting
import TapeMachine.Proofs.Locality
import TapeMachine.Proofs.NormalForm
import TapeMachine.Proofs.Numerals
import TapeMachine.Proofs.Rounding
import TapeMachine.Proofs.Congruence
import TapeMachine.Proofs.Likeness
import TapeMachine.Proofs.Interchange
import TapeMachine.Proofs.Deeds
import TapeMachine.Proofs.Ownership
import TapeMachine.Proofs.Tidiness
import TapeMachine.Proofs.Steadiness
import TapeMachine.Proofs.Records
import TapeMachine.Proofs.Pointers
import TapeMachine.Proofs.Storing
import TapeMachine.Proofs.Remainder
import TapeMachine.Proofs.Copying
import TapeMachine.Proofs.Merging
import TapeMachine.Proofs.Settling
import TapeMachine.Proofs.Excerpts
import TapeMachine.Proofs.Escaping
import TapeMachine.Proofs.Wording
import TapeMachine.Proofs.Listings
