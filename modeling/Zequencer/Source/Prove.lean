/-
# The prover

`Prover::run` as a stage of the log: committed slots wait for their attestation, attested
slots are queued, and the queue is flushed when it is full, when a slot failed attestation,
and by a timer.  The backend is a seam; whatever it answers comes with the event.

The cursor moves past a whole batch when the batch is read, before its entries are
processed.  A failing read or append ends the task and is the event `crash`.
-/
import Zequencer.Lib.Stage
import Zequencer.Source.Sequencer

namespace Zequencer

/-- A slot as a backend sees it. -/
structure CommittedSlot where
  slot : ℕ
  intents : List IntentId
  commitment : Commitment
deriving DecidableEq

/-- The contents of a committed slot. -/
def SlotCommitted.contents (c : SlotCommitted) : CommittedSlot := ⟨c.slot, c.intents, c.commitment⟩

/-- The decimal digits of `frac` below `scale`, a power of ten, without trailing zeros. -/
def fractionDigits : ℕ → ℕ → List Char
  | 0, _ => []
  | width + 1, frac =>
    if frac = 0 then []
    else Nat.digitChar (frac / 10 ^ width) :: fractionDigits width (frac % 10 ^ width)

/-- A whole number, and a fraction of `width` digits where it is not zero. -/
def decimalText (whole frac width : ℕ) : String :=
  match fractionDigits width frac with
  | [] => toString whole
  | digits => toString whole ++ "." ++ String.ofList digits

/-- The debug text of a span of time, in the largest unit it fills. -/
def Duration.debugText (d : Duration) : String :=
  let nanos := d.nanos.val
  if 0 < d.secs.toNat then decimalText d.secs.toNat nanos 9 ++ "s"
  else if 1000000 ≤ nanos then decimalText (nanos / 1000000) (nanos % 1000000) 6 ++ "ms"
  else if 1000 ≤ nanos then decimalText (nanos / 1000) (nanos % 1000) 3 ++ "µs"
  else toString nanos ++ "ns"

/-- Why the backend gave no proof. -/
inductive ProveFailure where
  | backend (text : String)
  | timeout (after : Duration)
deriving DecidableEq

/-- The text of a backend failure, as it goes into the log. -/
def ProveFailure.message : ProveFailure → String
  | .backend text => "prover backend: " ++ text
  | .timeout after => "timed out after " ++ after.debugText

/-- Why the prover stopped. -/
inductive ProveError where
  | log (e : LogError)
  | slotGap (expected got : ℕ)
  | missingCommit (slot : ℕ)
deriving DecidableEq

/-- How slots are batched into proofs. -/
structure BatchConfig where
  /-- Slots per proof. -/
  batchSize : ℕ
  /-- Latency backstop when traffic is quiet. -/
  flushAfter : Duration
deriving DecidableEq

/-! ### Recovery -/

/-- The last slot of the range an outcome settles. -/
def Entry.settledTo? : Entry → Option ℕ
  | .slotsProven p => some p.toSlot
  | .proveFailed f => some f.toSlot
  | _ => none

/-- The loop of `recover_prover`: the newest settled slot. -/
def proverScan (log : Log) : Scanned := scanLog Entry.settledTo? log

/-- The first slot that no outcome reaches. -/
def Scanned.nextSlot (s : Scanned) : ℕ := s.doneThrough.elim 0 fun d => d + 1

/-- The cursor and the next slot `recover_prover` returns, from what the scan found and the
head, which is read after it where it is needed. -/
def recoverProver (s : Scanned) (head : ℕ) : ℕ × ℕ :=
  ((s.slotPositions.lookup s.nextSlot).getD head, s.nextSlot)

/-! ### The task -/

/-- The private data of the running task. -/
structure ProverVars where
  /-- Slots committed but not yet ruled on by the attester. -/
  awaiting : HashMap ℕ CommittedSlot
  /-- Attested slots queued for the next proof, in slot order. -/
  pending : List CommittedSlot
  cursor : ℕ
  nextSlot : ℕ
deriving DecidableEq

/-- Where `run` goes on after a flush. -/
inductive AfterFlush where
  /-- At `select!`: the timer arm. -/
  | select
  /-- At the size check: a failed attestation closed the batch. -/
  | atSizeCheck (batch : List Entry)
  /-- At the next entry: the size check closed the batch. -/
  | atNext (batch : List Entry)
deriving DecidableEq

/-- Where the task of the prover stands between two effects. -/
inductive ProverTask where
  /-- Not running. -/
  | down
  /-- `recover_prover` has scanned the log and not returned yet. -/
  | recovering (scanned : Scanned)
  /-- In `select!`. -/
  | waiting (v : ProverVars)
  /-- In the loop over a batch, before the first of the entries left. -/
  | draining (v : ProverVars) (batch : List Entry)
  /-- In `flush`: the backend is proving what was pending. -/
  | proving (v : ProverVars) (fromSlot toSlot : ℕ) (taken : List CommittedSlot)
      (k : AfterFlush)
  /-- `run` has returned an error. -/
  | stopped (e : ProveError)
  /-- `flush` has unwrapped the first slot of an empty batch. -/
  | panicked
  /-- `interval` has panicked, on a period of zero. -/
  | timerPanicked
deriving DecidableEq

/-- What may happen to the prover. -/
inductive ProverEvent where
  /-- Start the task: subscribe, and scan the log. -/
  | scan
  /-- The end of `recover_prover`. -/
  | readHead
  /-- The doorbell arm: collect the first `n` entries past the cursor. -/
  | doorbell (n : ℕ)
  /-- The next entry of the batch. -/
  | process
  /-- The timer arm. -/
  | tick
  /-- The backend answers. -/
  | proved (answer : Except ProveFailure ProofHandle)
  | crash
deriving DecidableEq

/-- The start of `flush`. -/
def flush (v : ProverVars) (k : AfterFlush) : ProverTask :=
  match v.pending.head?, v.pending.getLast? with
  | some first, some last =>
    .proving { v with pending := [] } first.slot last.slot v.pending k
  | _, _ => .panicked

/-- The entry that ends `flush`. -/
def outcome (fromSlot toSlot : ℕ) : Except ProveFailure ProofHandle → Entry
  | .ok proof => .slotsProven ⟨fromSlot, toSlot, proof⟩
  | .error e => .proveFailed ⟨fromSlot, toSlot, e.message⟩

/-- The end of the loop body: a full batch is flushed. -/
def sizeCheck (cfg : BatchConfig) (v : ProverVars) (batch : List Entry) : ProverTask :=
  if cfg.batchSize ≤ v.pending.length then flush v (.atNext batch) else .draining v batch

/-- Where the task goes on after a flush. -/
def AfterFlush.resume (cfg : BatchConfig) (v : ProverVars) : AfterFlush → ProverTask
  | .select => .waiting v
  | .atSizeCheck batch => sizeCheck cfg v batch
  | .atNext batch => .draining v batch

/-- The loop body, on one entry. -/
def processEntry (cfg : BatchConfig) (v : ProverVars) (entry : Entry) (batch : List Entry) :
    ProverTask :=
  match entry with
  | .slotCommitted c =>
    sizeCheck cfg { v with awaiting := v.awaiting.insert c.slot c.contents } batch
  -- the attestation is what releases a slot for proving
  | .slotAttested a =>
    if a.slot < v.nextSlot then .draining v batch
    else if a.slot ≠ v.nextSlot then .stopped (.slotGap v.nextSlot a.slot)
    else match v.awaiting.lookup a.slot with
      | none => .stopped (.missingCommit a.slot)
      | some s =>
        sizeCheck cfg
          { v with
            awaiting := v.awaiting.erase a.slot
            pending := v.pending ++ [s]
            nextSlot := v.nextSlot + 1 } batch
  -- a slot that failed attestation is never proven
  | .attestFailed f =>
    if f.slot < v.nextSlot then .draining v batch
    else if f.slot ≠ v.nextSlot then .stopped (.slotGap v.nextSlot f.slot)
    else
      let v := { v with awaiting := v.awaiting.erase f.slot, nextSlot := v.nextSlot + 1 }
      -- close the batch rather than span a slot it never proved
      if v.pending.isEmpty then sizeCheck cfg v batch else flush v (.atSizeCheck batch)
  | _ => sizeCheck cfg v batch

/-- `Prover::run`, one event at a time. -/
def proverStep (cfg : BatchConfig) (log : Log) :
    ProverTask → ProverEvent → ProverTask × Option Entry
  | .down, .scan => (.recovering (proverScan log), none)
  | .recovering scanned, .readHead =>
    let (cursor, nextSlot) := recoverProver scanned log.head
    (if cfg.flushAfter = .ZERO then .timerPanicked else .waiting ⟨∅, [], cursor, nextSlot⟩, none)
  | .waiting v, .doorbell n =>
    let read := (log.readFrom v.cursor).take n
    let cursor := (read.getLast?.map fun e => e.1 + 1).getD v.cursor
    (.draining { v with cursor := cursor } (read.map Prod.snd), none)
  | .draining v batch, .process =>
    match batch with
    | [] => (.waiting v, none)
    | entry :: batch => (processEntry cfg v entry batch, none)
  | .waiting v, .tick => (if v.pending.isEmpty then .waiting v else flush v .select, none)
  | .proving v fromSlot toSlot _ k, .proved answer =>
    (k.resume cfg v, some (outcome fromSlot toSlot answer))
  | _, .crash => (.down, none)
  | task, _ => (task, none)

/-- The prover as a stage of the log. -/
def prover (cfg : BatchConfig) : Stage Entry ProverTask ProverEvent where
  init := .down
  step := proverStep cfg

end Zequencer
