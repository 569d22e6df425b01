/-
# The mock backend

How a batch of slots becomes a statement, how the statement is discharged into proof bytes,
and how those are checked again.
-/
import Zequencer.Source.Prove

namespace Zequencer

/-- Why a proof was not accepted. -/
inductive VerifyFailure where
  | wrongBackend (want got : Backend)
  | wrongVerifyingKey
  | wrongStatement
  | malformed
  | invalid
deriving DecidableEq

/-- A backend that fails on some ranges, both ends included. -/
structure MockProver where
  failRanges : List (ℕ × ℕ)
deriving DecidableEq

/-- The mock's verifying key. -/
def MOCK_VKEY_HASH : Bytes 32 := Vector.replicate 32 0xAA

namespace MockProver

/-- The batch's commitments in order. -/
def statement (slots : List CommittedSlot) : List UInt8 :=
  slots.flatMap fun s => s.commitment.bytes.toList

/-- The digest of everything fed to one hasher, commitment by commitment. -/
def chain [Keccak256] (slots : List CommittedSlot) : List UInt8 :=
  (Keccak256.digest (slots.flatMap fun s => s.commitment.bytes.toList)).toList

/-- `none` where the batch is empty and its first slot is unwrapped. -/
def prove [Keccak256] (m : MockProver) (slots : List CommittedSlot) :
    Option (Except ProveFailure ProofHandle) :=
  match slots.head?, slots.getLast? with
  | some first, some last =>
    if m.failRanges.any fun r => first.slot ≤ r.2 ∧ last.slot ≥ r.1 then
      some (.error (.backend
        ("mock failure on " ++ toString first.slot ++ "..=" ++ toString last.slot)))
    else some (.ok ⟨.mock, chain slots, statement slots, MOCK_VKEY_HASH⟩)
  | _, _ => none

/-- Re-runs the chain. -/
def verify [Keccak256] (handle : ProofHandle) (slots : List CommittedSlot) :
    Except VerifyFailure Unit :=
  if handle.backend ≠ .mock then .error (.wrongBackend .mock handle.backend)
  else if handle.vkeyHash ≠ MOCK_VKEY_HASH then .error .wrongVerifyingKey
  else if handle.publicInputs ≠ statement slots then .error .wrongStatement
  else if handle.proof ≠ chain slots then .error .invalid
  else .ok ()

/-- An event of the prover over the mock backend: the answer is the backend's, and the task
is gone where the backend unwraps an empty batch. -/
def event [Keccak256] (m : MockProver) : ProverTask → ProverEvent → ProverEvent
  | .proving _ _ _ taken _, .proved _ =>
    match m.prove taken with
    | some answer => .proved answer
    | none => .crash
  | _, e => e

end MockProver

end Zequencer
