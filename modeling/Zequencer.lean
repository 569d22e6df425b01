import Zequencer.Pipeline.Evidence
import Zequencer.Pipeline.Recovery
import Zequencer.Pipeline.Status
import Zequencer.Pipeline.Wakeups
import Zequencer.Prover.Ranges
import Zequencer.Prover.Flushes
import Zequencer.Prover.Handles
import Zequencer.Prover.Soundness
import Zequencer.Attester.Builds
import Zequencer.Pipeline.Liveness
import Zequencer.Pipeline.Receipts
import Zequencer.Pipeline.Wire
import Zequencer.Main.Refusals
import Zequencer.Projection.Guarantee
import Zequencer.Projection.Answers
import Zequencer.Projection.Commute
import Zequencer.Projection.Terminal
import Zequencer.Sequencer.Nonces
import Zequencer.Sequencer.Optimal
import Zequencer.Sequencer.Window
import Zequencer.Admission.Arrival
import Zequencer.Admission.Identity
import Zequencer.Source.Attest
import Zequencer.Source.Prove
import Zequencer.Log.Publishing
import Zequencer.Log.Reading
import Zequencer.Log.Refinement
import Zequencer.Log.Threads
import Zequencer.Lib.Doorbell
import Zequencer.Lib.Machine
import Zequencer.Pipeline.Responses
