/-
# The read model

Rebuilt from the log, entry by entry: a row for each intent and a row for each slot, and
the answers to status and receipt requests.
-/
import Zequencer.Lib.HashMap
import Zequencer.Lib.Stage
import Zequencer.Source.Receipt

namespace Zequencer

/-- Lifecycle of a slot. -/
inductive SlotStage where
  | committed
  | preconfirmed
  | proven
  | failed (reason : String)
deriving DecidableEq

/-- The evidence of an attested slot. -/
structure Preconf where
  quote : List UInt8
  signature : Signature
deriving DecidableEq

/-- The evidence of a proven slot, with the range it was proven in. -/
structure ProvenRange where
  fromSlot : ℕ
  toSlot : ℕ
  handle : ProofHandle
deriving DecidableEq

/-- What the read model knows of a slot. -/
structure SlotRow where
  committedAtMs : UInt64
  commitment : Commitment
  stage : SlotStage
  /-- Evidence lives beside the stage, so proving a slot does not discard it. -/
  preconf : Option Preconf
  proof : Option ProvenRange
deriving DecidableEq

/-- What the read model knows of an intent. -/
structure IntentRow where
  position : ℕ
  receivedAtMs : UInt64
  /-- Client-declared expiry. -/
  deadlineMs : UInt64
  /-- `none` until its slot closes. -/
  slot : Option ℕ
  /-- Rank within that slot's ordering. -/
  indexInSlot : Option UInt32
  /-- The guarantee deadline that was missed, and when it was adjudicated. -/
  expired : Option (UInt64 × UInt64)
deriving DecidableEq

/-- The read model, folded from the log. -/
structure Projections where
  guarantee : GuaranteeConfig
  intents : HashMap IntentId IntentRow
  slots : HashMap ℕ SlotRow
  /-- How far the read model has consumed the log. -/
  cursor : ℕ
deriving DecidableEq

namespace SlotRow

/-- `SlotAttested`: only a committed slot is preconfirmed. -/
def attested (a : SlotAttested) (row : SlotRow) : SlotRow :=
  if row.stage = .committed then
    { row with stage := .preconfirmed, preconf := some ⟨a.quote, a.signature⟩ }
  else row

/-- `SlotsProven`: only a preconfirmed slot can be proven. -/
def proven (p : SlotsProven) (row : SlotRow) : SlotRow :=
  if row.stage = .preconfirmed then
    { row with stage := .proven, proof := some ⟨p.fromSlot, p.toSlot, p.proof⟩ }
  else row

/-- `AttestFailed` and `ProveFailed`. -/
def fail (reason : String) (row : SlotRow) : SlotRow := { row with stage := .failed reason }

end SlotRow

/-- The slots of `from..=to`. -/
def slotRange (fromSlot toSlot : ℕ) : List ℕ := List.range' fromSlot (toSlot + 1 - fromSlot)

namespace Projections

def new (g : GuaranteeConfig) : Projections := ⟨g, ∅, ∅, 0⟩

/-- Give each intent of a slot its place. -/
def place (slot : ℕ) (ids : List IntentId) (intents : HashMap IntentId IntentRow) :
    HashMap IntentId IntentRow :=
  ids.zipIdx.foldl (fun m e => m.modify e.1 fun row =>
    { row with slot := some slot, indexInSlot := some (UInt32.ofNat e.2) }) intents

def apply (p : Projections) (pos : ℕ) (entry : Entry) : Projections :=
  { (match entry with
    | .intentReceived r =>
      { p with intents :=
          p.intents.orInsert r.intentId ⟨pos, r.receivedAt, r.intent.deadlineMs, none, none, none⟩ }
    | .intentExpired x =>
      { p with intents := p.intents.modify x.intentId fun row =>
          { row with expired := some (x.guaranteeDeadlineMs, x.atMs) } }
    | .slotCommitted c =>
      { p with
        slots := p.slots.insert c.slot ⟨c.committedAtMs, c.commitment, .committed, none, none⟩
        intents := place c.slot c.intents p.intents }
    | .slotAttested a => { p with slots := p.slots.modify a.slot (SlotRow.attested a) }
    | .slotsProven s =>
      { p with slots := p.slots.modifyAll (slotRange s.fromSlot s.toSlot) (SlotRow.proven s) }
    | .attestFailed f => { p with slots := p.slots.modify f.slot (SlotRow.fail f.reason) }
    -- every slot in the batch failed, not just the last one
    | .proveFailed f =>
      { p with slots :=
          p.slots.modifyAll (slotRange f.fromSlot f.toSlot) (SlotRow.fail f.reason) } : Projections)
    with cursor := pos + 1 }

def lifecycle (p : Projections) (row : IntentRow) : Option Lifecycle :=
  if row.expired.isSome then some .expired
  else match row.slot with
    | none => some .received
    | some slot => (p.slots.lookup slot).map fun sr =>
      match sr.stage with
      | .committed => .sequenced
      | .preconfirmed => .preconfirmed
      | .proven => .finalProven
      | .failed reason => .failed reason

def statusOf (p : Projections) (intentId : IntentId) : Option StatusResponse := do
  let row ← p.intents.lookup intentId
  let lifecycle ← p.lifecycle row
  return ⟨intentId, lifecycle, row.slot⟩

/-- The row of the slot an intent is in. -/
def slotRow (p : Projections) (row : IntentRow) : Option SlotRow := row.slot.bind p.slots.lookup

/-- `sequence` of the receipt. -/
def sequence (p : Projections) (row : IntentRow) : Option SequencePosition :=
  match row.slot, row.indexInSlot, p.slotRow row with
  | some slot, some index, some sr => some ⟨slot, index, sr.commitment⟩
  | _, _, _ => none

/-- `state` of the guarantee on the receipt. -/
def guaranteeState (p : Projections) (row : IntentRow) (nowMs : UInt64) : GuaranteeState :=
  match row.expired, row.slot, p.slotRow row with
  | some (deadlineMs, expiredAtMs), _, _ => .missed deadlineMs expiredAtMs
  | none, some slot, some sr => .met slot sr.committedAtMs
  | _, _, _ => if p.guarantee.deadlineFor row.receivedAtMs < nowMs then .overdue else .pending

/-- `preconf` of the receipt. -/
def preconf (p : Projections) (row : IntentRow) : Option PreconfRef := do
  let sr ← p.slotRow row
  let pc ← sr.preconf
  let slot ← row.slot
  return ⟨slot, sr.commitment, hexEncode pc.quote, pc.signature⟩

/-- `proof` of the receipt. -/
def proof (p : Projections) (row : IntentRow) : Option ProofRef := do
  let sr ← p.slotRow row
  let pr ← sr.proof
  return ⟨pr.fromSlot, pr.toSlot, pr.handle.backend.asStr,
    hexEncode pr.handle.vkeyHash.toList, hexEncode pr.handle.proof⟩

def receiptOf (p : Projections) (intentId : IntentId) (nowMs : UInt64) : Option Receipt := do
  let row ← p.intents.lookup intentId
  let lifecycle ← p.lifecycle row
  return {
    intentId := intentId
    lifecycle := lifecycle
    logPosition := row.position
    sequence := p.sequence row
    guarantee := {
      receivedAtMs := row.receivedAtMs
      maxSlots := p.guarantee.maxSlots
      deadlineMs := p.guarantee.deadlineFor row.receivedAtMs
      intentDeadlineMs := row.deadlineMs
      state := p.guaranteeState row nowMs
    }
    preconf := p.preconf row
    proof := p.proof row
  }

/-- One round of `run_projector`: apply a batch, entry by entry. -/
def applyBatch (p : Projections) (batch : List (ℕ × Entry)) : Projections :=
  batch.foldl (fun p e => p.apply e.1 e.2) p

/-- The read model of a whole log. -/
def ofLog (g : GuaranteeConfig) (log : Log) : Projections := (new g).applyBatch (log.readFrom 0)

end Projections

/-! ### The task -/

/-- Where the task of the projector stands between two effects. -/
inductive ProjectorTask where
  /-- In `changed`. -/
  | waiting
  /-- The cursor is read. -/
  | reading (cursor : ℕ)
  /-- The tail of the log is read, and not applied yet. -/
  | holding (batch : List (ℕ × Entry))
deriving DecidableEq

/-- What may happen to the projector. -/
inductive ProjectorEvent where
  /-- The doorbell rings: read the cursor of the read model. -/
  | doorbell
  /-- Read the log from there, with the error of the log. -/
  | readTail (fault : Option LogError)
  /-- Apply the batch, under the write lock. -/
  | apply
  /-- The process starts again, with an empty read model. -/
  | restart
deriving DecidableEq

/-- `run_projector`, one event at a time.  It shares the read model with the server. -/
def projectorStep (g : GuaranteeConfig) (log : Log) :
    Projections × ProjectorTask → ProjectorEvent → Projections × ProjectorTask
  | (p, .waiting), .doorbell => (p, .reading p.cursor)
  | (p, .reading cursor), .readTail none => (p, .holding (log.readFrom cursor))
  -- `continue`
  | (p, .reading _), .readTail (some _) => (p, .waiting)
  | (p, .holding batch), .apply => (p.applyBatch batch, .waiting)
  | _, .restart => (Projections.new g, .waiting)
  | s, _ => s

/-- The projector as a stage of the log; it appends nothing. -/
def projector (g : GuaranteeConfig) :
    Stage Entry (Projections × ProjectorTask) ProjectorEvent where
  init := (Projections.new g, .waiting)
  step log s e := (projectorStep g log s e, none)

end Zequencer
