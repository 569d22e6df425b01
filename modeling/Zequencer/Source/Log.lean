/-
# The log

Entries, and the in-memory log as the list of entries appended so far.  A `Position` and a
slot number count entries of the log and are natural numbers here: neither can reach
`2 ^ 64` before the log has that many entries.  `Position::ZERO` is `0` and `next` is `+ 1`.
-/
import Zequencer.Lib.HashMap
import Zequencer.Source.Intent

namespace Zequencer

/-- An enclave's signature over a commitment. -/
structure Signature where
  bytes : Bytes 32
deriving DecidableEq

/-- Deterministic stand-in for a signature. -/
def Signature.mockOver [Keccak256] (bytes : List UInt8) : Signature :=
  ⟨Keccak256.digest (utf8Bytes "MOCKSIG" ++ bytes)⟩

/-- The digest of a slot's number and contents. -/
structure Commitment where
  bytes : Bytes 32
deriving DecidableEq

/-- Which proof system produced a handle. -/
inductive Backend where
  | mock
deriving DecidableEq

def Backend.asStr : Backend → String
  | .mock => "mock"

/-- A proof over a batch of slots, opaque to whoever stores it. -/
structure ProofHandle where
  backend : Backend
  /-- Backend-opaque proof bytes. -/
  proof : List UInt8
  /-- The statement the proof discharges. -/
  publicInputs : List UInt8
  /-- Pins the verifying key. -/
  vkeyHash : Bytes 32
deriving DecidableEq

/-- An intent was admitted. -/
structure IntentReceived where
  intentId : IntentId
  intent : Intent
  receivedAt : UInt64
deriving DecidableEq

/-- The sequencer could not close a slot within the promised window. -/
structure IntentExpired where
  intentId : IntentId
  guaranteeDeadlineMs : UInt64
  atMs : UInt64
deriving DecidableEq

/-- A slot closed over these intents, in this order. -/
structure SlotCommitted where
  slot : ℕ
  intents : List IntentId
  consumedUpTo : ℕ
  commitment : Commitment
  /-- When the slot closed. -/
  committedAtMs : UInt64
deriving DecidableEq

/-- The enclave vouched for a slot. -/
structure SlotAttested where
  slot : ℕ
  quote : List UInt8
  signature : Signature
deriving DecidableEq

/-- The enclave did not vouch for a slot. -/
structure AttestFailed where
  slot : ℕ
  reason : String
deriving DecidableEq

/-- A range of slots was proven, both ends included. -/
structure SlotsProven where
  fromSlot : ℕ
  toSlot : ℕ
  proof : ProofHandle
deriving DecidableEq

/-- A range of slots was not proven. -/
structure ProveFailed where
  fromSlot : ℕ
  toSlot : ℕ
  reason : String
deriving DecidableEq

/-- An entry of the log: everything the system ever decides. -/
inductive Entry where
  | intentReceived (r : IntentReceived)
  | intentExpired (x : IntentExpired)
  | slotCommitted (c : SlotCommitted)
  | slotAttested (a : SlotAttested)
  | attestFailed (f : AttestFailed)
  | slotsProven (p : SlotsProven)
  | proveFailed (f : ProveFailed)
deriving DecidableEq

/-- Why a log call failed. -/
inductive LogError where
  | io (text : String)
  | encode (text : String)
  | decode (pos : ℕ)
  | emptyBatch
deriving DecidableEq

/-- The entries appended so far, oldest first. -/
abbrev Log := List Entry

/-- Exclusive: the position the next append will occupy. -/
def Log.head (log : Log) : ℕ := log.length

/-- The entries from `cursor` on, each with its position. -/
def Log.readFrom (log : Log) (cursor : ℕ) : List (ℕ × Entry) :=
  let start := min cursor log.length
  (log.drop start).zipIdx.map fun e => (start + e.2, e.1)

/-! ### The recovery scan -/

/-- What the loops of `recover_attester` and `recover_prover` collect. -/
structure Scanned where
  /-- The newest slot done. -/
  doneThrough : Option ℕ
  /-- Where each slot is committed. -/
  slotPositions : HashMap ℕ ℕ
deriving DecidableEq

/-- One entry of the loops; they differ in the entries that count as done. -/
def Scanned.entry (done? : Entry → Option ℕ) (s : Scanned) (pos : ℕ) (entry : Entry) : Scanned :=
  match entry with
  | .slotCommitted c => { s with slotPositions := s.slotPositions.insert c.slot pos }
  | _ =>
    match done? entry with
    | some slot => { s with doneThrough := some (s.doneThrough.elim slot fun d => max d slot) }
    | none => s

/-- The loops, over everything read from the log. -/
def scanLog (done? : Entry → Option ℕ) (log : Log) : Scanned :=
  (log.readFrom 0).foldl (fun s e => s.entry done? e.1 e.2) ⟨none, ∅⟩

/-! ### What reading returns -/

lemma Log.readFrom_eq_nil {log : Log} {cursor : ℕ} (h : log.length ≤ cursor) :
    log.readFrom cursor = [] := by
  simp [Log.readFrom, min_eq_right h]

lemma Log.readFrom_eq_cons {log : Log} {cursor : ℕ} {e : Entry}
    (h : log[cursor]? = some e) :
    log.readFrom cursor = (cursor, e) :: log.readFrom (cursor + 1) := by
  obtain ⟨hlt, he⟩ := List.getElem?_eq_some_iff.mp h
  have hmin : min cursor log.length = cursor := min_eq_left hlt.le
  have hmin' : min (cursor + 1) log.length = cursor + 1 := min_eq_left hlt
  simp only [Log.readFrom, hmin, hmin', List.drop_eq_getElem_cons hlt, he, List.zipIdx_cons,
    List.map_cons, add_zero, zero_add]
  congr 1
  rw [List.zipIdx_succ, List.map_map]
  refine List.map_congr_left fun a _ => ?_
  simp only [Function.comp_apply, Prod.mk.injEq, and_true]
  omega

lemma Log.mem_readFrom {log : Log} {cursor p : ℕ} {e : Entry} :
    (p, e) ∈ log.readFrom cursor ↔ cursor ≤ p ∧ log[p]? = some e := by
  simp only [Log.readFrom, List.mem_map, Prod.exists, Prod.mk.injEq,
    List.mem_zipIdx_iff_getElem?, List.getElem?_drop]
  constructor
  · rintro ⟨a, i, hi, rfl, rfl⟩
    have hlt : min cursor log.length + i < log.length := (List.getElem?_eq_some_iff.mp hi).1
    exact ⟨by omega, hi⟩
  · rintro ⟨hle, hp⟩
    have hlt : p < log.length := (List.getElem?_eq_some_iff.mp hp).1
    refine ⟨e, p - cursor, ?_, ?_, rfl⟩
    · rw [min_eq_left (by omega)]
      simpa [Nat.add_sub_cancel' hle] using hp
    · omega

/-- What was read stays what is there, as the log grows. -/
lemma Log.readFrom_prefix_append {log : Log} {cursor : ℕ} (h : cursor ≤ log.length)
    (log' : Log) : log.readFrom cursor <+: (log ++ log').readFrom cursor := by
  have h' : cursor ≤ (log ++ log').length := h.trans (by simp)
  simp only [Log.readFrom, min_eq_left h, min_eq_left h', List.drop_append_of_le_length h,
    List.zipIdx_append, List.map_append]
  exact List.prefix_append _ _

/-- The first entry of a read, and the rest of it. -/
lemma Log.cons_prefix_readFrom {log : Log} {cursor pos : ℕ} {e : Entry}
    {batch : List (ℕ × Entry)} (h : (pos, e) :: batch <+: log.readFrom cursor) :
    pos = cursor ∧ log[cursor]? = some e ∧ batch <+: log.readFrom (cursor + 1) := by
  cases he : log[cursor]? with
  | none =>
    rw [Log.readFrom_eq_nil (by simpa using he)] at h
    simp at h
  | some e' =>
    rw [Log.readFrom_eq_cons he, List.cons_prefix_cons] at h
    obtain ⟨rfl, rfl⟩ := Prod.mk.inj h.1
    exact ⟨rfl, rfl, h.2⟩

@[simp] lemma Log.length_readFrom (log : Log) (cursor : ℕ) :
    (log.readFrom cursor).length = log.length - cursor := by
  simp only [Log.readFrom, List.length_map, List.length_zipIdx, List.length_drop]
  omega

end Zequencer
