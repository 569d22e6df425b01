/-
# Quotes, their verifier, and the mock enclave

The layout of a mock quote, shared by producer and verifier, what a holder checks of a
preconfirmation, and the enclave that answers the attester.  At these seams a slot number
is the `u64` it is written as.
-/
import Zequencer.Source.Attest

namespace Zequencer

/-- An enclave build identity. -/
structure Measurement where
  bytes : Bytes 32
deriving DecidableEq

/-- The build the mock enclave claims to be running. -/
def MOCK_MEASUREMENT : Measurement := ⟨Vector.replicate 32 0x5e⟩

/-! ### The quote -/

def QUOTE_MAGIC : List UInt8 := utf8Bytes "MOCKQUOTE"

def QUOTE_VERSION : UInt8 := 1

def QUOTE_LEN : ℕ := 9 + 1 + 8 + 32 + 32

/-- Magic, version, slot, commitment, measurement. -/
def encodeQuote (slot : UInt64) (commitment : Commitment) (measurement : Measurement) :
    List UInt8 :=
  QUOTE_MAGIC
    ++ [QUOTE_VERSION]
    ++ leBytes 8 slot.toNat
    ++ commitment.bytes.toList
    ++ measurement.bytes.toList

/-- Why a pre-confirmation was not accepted. -/
inductive VerifyError where
  | malformedQuote
  | slotMismatch (claimed quoted : UInt64)
  | commitmentMismatch
  | contentsMismatch
  | untrustedMeasurement (measurement : Measurement)
  | badSignature
deriving DecidableEq

def decodeQuote (bytes : List UInt8) :
    Except VerifyError (UInt64 × Commitment × Measurement) :=
  if bytes.length ≠ QUOTE_LEN ∨ bytes.take QUOTE_MAGIC.length ≠ QUOTE_MAGIC ∨
      bytes[QUOTE_MAGIC.length]? ≠ some QUOTE_VERSION then
    .error .malformedQuote
  else
    let body := bytes.drop (QUOTE_MAGIC.length + 1)
    -- fixed-width fields: the length is checked
    .ok (UInt64.ofNat (leValue (body.take 8)), ⟨Bytes.ofList 32 ((body.drop 8).take 32)⟩,
      ⟨Bytes.ofList 32 ((body.drop 40).take 32)⟩)

/-! ### The verifier -/

/-- A preconfirmation as it reaches its holder. -/
structure PreconfClaim where
  slot : UInt64
  commitment : Commitment
  quote : List UInt8
  signature : Signature
deriving DecidableEq

/-- The holder's trust root: which builds it will believe, and how it checks what they
sign. -/
structure Verifier where
  trusts : Measurement → Bool
  signatureIsValid : Commitment → Signature → Bool

/-- Pins one build and accepts the mock enclave's signature scheme. -/
structure MockVerifier where
  pinned : Measurement
deriving DecidableEq

/-- Pin a build. -/
def MockVerifier.pinning (measurement : Measurement) : MockVerifier := ⟨measurement⟩

def MockVerifier.verifier [Keccak256] (v : MockVerifier) : Verifier where
  trusts measurement := measurement = v.pinned
  signatureIsValid commitment signature :=
    signature = Signature.mockOver commitment.bytes.toList

/-- Check a preconfirmation without asking the sequencer anything.  The contents come
first. -/
def verifyPreconf [Keccak256] (verifier : Verifier) (claim : PreconfClaim)
    (intents : List IntentId) : Except VerifyError Unit :=
  if commit claim.slot.toNat intents ≠ claim.commitment then .error .contentsMismatch
  else match decodeQuote claim.quote with
    | .error e => .error e
    | .ok (slot, commitment, measurement) =>
      if slot ≠ claim.slot then .error (.slotMismatch claim.slot slot)
      else if commitment ≠ claim.commitment then .error .commitmentMismatch
      else if ¬ verifier.trusts measurement then .error (.untrustedMeasurement measurement)
      else if ¬ verifier.signatureIsValid commitment claim.signature then .error .badSignature
      else .ok ()

/-! ### The mock enclave -/

/-- An enclave that fails on some slots. -/
structure MockEnclave where
  /-- Slots that should fail. -/
  failSlots : Finset UInt64
  /-- The build identity this mock claims in its quotes. -/
  measurement : Measurement
deriving DecidableEq

def MockEnclave.attest [Keccak256] (m : MockEnclave) (slot : UInt64) (intents : List IntentId)
    (commitment : Commitment) : Except EnclaveError Quote :=
  if slot ∈ m.failSlots then
    .error (.unavailable ("mock failure on slot " ++ toString slot.toNat))
  else if commit slot.toNat intents ≠ commitment then
    .error (.quote "commitment mismatch inside enclave")
  else .ok ⟨encodeQuote slot commitment m.measurement,
    Signature.mockOver commitment.bytes.toList⟩

/-- What the mock enclave answers on a committed slot. -/
def MockEnclave.answer [Keccak256] (m : MockEnclave) (c : SlotCommitted) :
    Except EnclaveError Quote :=
  m.attest (UInt64.ofNat c.slot) c.intents c.commitment

/-- An event of the attester over the mock enclave: the answer is the enclave's. -/
def MockEnclave.event [Keccak256] (m : MockEnclave) : AttesterTask → AttesterEvent → AttesterEvent
  | .draining _ ((_, .slotCommitted c) :: _), .process _ => .process (m.answer c)
  | _, e => e

end Zequencer
