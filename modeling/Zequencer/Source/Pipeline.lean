/-
# The pipeline

What `main` starts on one log: the sequencer, the attester and the prover as tasks of their
own, and the gate behind the server.  The projector and the server's reads append nothing; the
projector stands beside the others in the node as a whole.
-/
import Zequencer.Source.Admission
import Zequencer.Source.MockEnclave
import Zequencer.Source.MockProver
import Zequencer.Source.Projection

namespace Zequencer

abbrev PipelineState := SequencerTask × Admission × AttesterTask × ProverTask

abbrev PipelineEvent := SequencerEvent ⊕ GateEvent ⊕ AttesterEvent ⊕ ProverEvent

/-- All stages that write the log, each started, stopped and scheduled on its own. -/
def pipeline [Keccak256] (g : GuaranteeConfig) (cfg : BatchConfig) :
    Stage Entry PipelineState PipelineEvent :=
  (sequencer g).par ((gate g).par (attester.par (prover cfg)))

/-- An event of the pipeline over the mock enclave and the mock backend: whatever it says of
an answer, the answer is theirs. -/
def mockEvent [Keccak256] (enclave : MockEnclave) (backend : MockProver) (s : PipelineState) :
    PipelineEvent → PipelineEvent
  | .inr (.inr (.inl e)) => .inr (.inr (.inl (enclave.event s.2.2.1 e)))
  | .inr (.inr (.inr e)) => .inr (.inr (.inr (backend.event s.2.2.2 e)))
  | e => e

/-- The pipeline over the mock enclave and the mock backend. -/
def mockPipeline [Keccak256] (g : GuaranteeConfig) (cfg : BatchConfig) (enclave : MockEnclave)
    (backend : MockProver) : Stage Entry PipelineState PipelineEvent :=
  (pipeline g cfg).driven (mockEvent enclave backend)

/-- The pipeline with the projector beside it; both share the guarantee. -/
def node [Keccak256] (g : GuaranteeConfig) (cfg : BatchConfig) :
    Stage Entry (PipelineState × Projections × ProjectorTask) (PipelineEvent ⊕ ProjectorEvent) :=
  (pipeline g cfg).par (projector g)

/-- The node over the mock enclave and the mock backend. -/
def mockNode [Keccak256] (g : GuaranteeConfig) (cfg : BatchConfig) (enclave : MockEnclave)
    (backend : MockProver) :
    Stage Entry (PipelineState × Projections × ProjectorTask) (PipelineEvent ⊕ ProjectorEvent) :=
  (mockPipeline g cfg enclave backend).par (projector g)

end Zequencer
