/-
# Receipts

What the API promises and reports about an intent.
-/
import Zequencer.Source.Sequencer

namespace Zequencer

/-- Where an intent sits in the pipeline. -/
inductive Lifecycle where
  /-- In the log, not yet closed into a slot. -/
  | received
  /-- Has a committed position in a slot's ordering. -/
  | sequenced
  /-- The slot's commitment carries an attestation. -/
  | preconfirmed
  /-- The inclusion guarantee was not met, so the intent was never sequenced. -/
  | expired
  | finalProven
  | failed (reason : String)
deriving DecidableEq

/-- The answer to `getStatus`. -/
structure StatusResponse where
  intentId : IntentId
  lifecycle : Lifecycle
  slot : Option ℕ
deriving DecidableEq

/-- Rank within a slot's ordering, not a log offset. -/
structure SequencePosition where
  slot : ℕ
  index : UInt32
  slotCommitment : Commitment
deriving DecidableEq

/-- How the promise to an intent stands. -/
inductive GuaranteeState where
  /-- Window still open, not yet committed. -/
  | pending
  /-- The window elapsed and the next slot close has not yet adjudicated it. -/
  | overdue
  | met (slot : ℕ) (committedAtMs : UInt64)
  /-- The window elapsed without inclusion; the intent was dropped. -/
  | missed (deadlineMs expiredAtMs : UInt64)
deriving DecidableEq

/-- The contract: committed into a slot closing no later than `deadlineMs`. -/
structure InclusionGuarantee where
  receivedAtMs : UInt64
  maxSlots : UInt32
  deadlineMs : UInt64
  /-- The client's own expiry, echoed back. -/
  intentDeadlineMs : UInt64
  state : GuaranteeState
deriving DecidableEq

/-- The evidence that a slot was attested, as a receipt shows it. -/
structure PreconfRef where
  slot : ℕ
  commitment : Commitment
  quote : String
  signature : Signature
deriving DecidableEq

/-- The evidence that a range of slots was proven, as a receipt shows it. -/
structure ProofRef where
  fromSlot : ℕ
  toSlot : ℕ
  backend : String
  vkeyHash : String
  proof : String
deriving DecidableEq

/-- The answer to `getReceipt`. -/
structure Receipt where
  intentId : IntentId
  lifecycle : Lifecycle
  /-- Where the intent was admitted to the log. -/
  logPosition : ℕ
  /-- `none` until the intent's slot closes. -/
  sequence : Option SequencePosition
  guarantee : InclusionGuarantee
  /-- Retained after proving. -/
  preconf : Option PreconfRef
  proof : Option ProofRef
deriving DecidableEq

/-- `hex::encode`: two lower-case digits for each byte. -/
def hexEncode (bytes : List UInt8) : String :=
  String.ofList (bytes.flatMap fun b => [Nat.digitChar (b.toNat / 16), Nat.digitChar (b.toNat % 16)])

end Zequencer
