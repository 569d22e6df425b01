/-
# The attester

`Attester::run` as a stage of the log: read a batch, rule on each committed slot of it in
turn, and move the cursor past each entry once its ruling is appended.  The enclave is a
seam; whatever it answers comes with the event.

As for the sequencer, a failing read or append ends the task and is the event `crash`.
-/
import Zequencer.Lib.Stage
import Zequencer.Source.Sequencer

namespace Zequencer

/-- Why the enclave gave no quote. -/
inductive EnclaveError where
  | unavailable (text : String)
  | quote (text : String)
deriving DecidableEq

/-- The text of an enclave error, as it goes into the log. -/
def EnclaveError.message : EnclaveError → String
  | .unavailable text => "enclave unavailable: " ++ text
  | .quote text => "quote generation failed: " ++ text

/-- What the enclave answers: a quote, signed. -/
structure Quote where
  /-- Raw attestation report. -/
  quote : List UInt8
  sig : Signature
deriving DecidableEq

/-- The ruling on a committed slot, given the answer of the enclave.  The enclave is not
asked about a slot whose contents do not reproduce its commitment. -/
def ruling [Keccak256] (c : SlotCommitted) (answer : Except EnclaveError Quote) : Entry :=
  let recomputed := commit c.slot c.intents
  if recomputed ≠ c.commitment then .attestFailed ⟨c.slot, "commitment mismatch"⟩
  else match answer with
    | .ok q => .slotAttested ⟨c.slot, q.quote, q.sig⟩
    | .error e => .attestFailed ⟨c.slot, e.message⟩

/-! ### Recovery -/

/-- The slot an entry rules on. -/
def Entry.ruling? : Entry → Option ℕ
  | .slotAttested a => some a.slot
  | .attestFailed f => some f.slot
  | _ => none

/-- The loop of `recover_attester`: the newest attested or failed slot. -/
def attesterScan (log : Log) : Scanned := scanLog Entry.ruling? log

/-- The cursor `recover_attester` returns, from what the scan found and the head, which is
read after it where it is needed. -/
def recoverAttester (s : Scanned) (head : ℕ) : ℕ :=
  match s.doneThrough with
  | none => 0
  | some last => (s.slotPositions.lookup (last + 1)).getD head

/-! ### The task -/

/-- Where the task of the attester stands between two effects. -/
inductive AttesterTask where
  /-- Not running. -/
  | down
  /-- `recover_attester` has scanned the log and not returned yet. -/
  | recovering (scanned : Scanned)
  /-- Waiting for the doorbell. -/
  | waiting (cursor : ℕ)
  /-- In the loop over a batch, before the first of the entries left. -/
  | draining (cursor : ℕ) (batch : List (ℕ × Entry))
  /-- The ruling on the entry at `pos` is appended, and the cursor not advanced yet. -/
  | ruled (pos cursor : ℕ) (batch : List (ℕ × Entry))
deriving DecidableEq

/-- What may happen to the attester. -/
inductive AttesterEvent where
  /-- Start the task: subscribe, and scan the log. -/
  | scan
  /-- The end of `recover_attester`. -/
  | readHead
  /-- The doorbell: collect the first `n` entries past the cursor. -/
  | doorbell (n : ℕ)
  /-- The next entry of the batch, with the answer of the enclave. -/
  | process (answer : Except EnclaveError Quote)
  /-- Advance the cursor after an append. -/
  | advance
  | crash
deriving DecidableEq

/-- `Attester::run`, one event at a time. -/
def attesterStep [Keccak256] (log : Log) :
    AttesterTask → AttesterEvent → AttesterTask × Option Entry
  | .down, .scan => (.recovering (attesterScan log), none)
  | .recovering scanned, .readHead => (.waiting (recoverAttester scanned log.head), none)
  | .waiting cursor, .doorbell n => (.draining cursor ((log.readFrom cursor).take n), none)
  | .draining cursor batch, .process answer =>
    match batch with
    | [] => (.waiting cursor, none)
    | (pos, .slotCommitted c) :: batch => (.ruled pos cursor batch, some (ruling c answer))
    | (pos, _) :: batch => (.draining (pos + 1) batch, none)
  -- append, then advance
  | .ruled pos _ batch, .advance => (.draining (pos + 1) batch, none)
  | _, .crash => (.down, none)
  | task, _ => (task, none)

/-- The attester as a stage of the log. -/
def attester [Keccak256] : Stage Entry AttesterTask AttesterEvent where
  init := .down
  step := attesterStep

end Zequencer
