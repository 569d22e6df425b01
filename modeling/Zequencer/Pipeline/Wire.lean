/-
# What a client reads out of the JSON

A client that reads an object key by key, and the last where a key comes twice, gets back every
status and every receipt, but for one field: a miss writes its deadline under the key of the
promised one.  In a run of the node the two are one deadline, and nothing is lost.
-/
import Zequencer.Pipeline.Reads
import Zequencer.Projection.Guarantee
import Zequencer.Projection.Hex
import Zequencer.Source.Wire

namespace Zequencer

/-! ### Reading -/

namespace Json

/-- The value of a key: the last one. -/
def get? (key : String) : Json → Option Json
  | .object fields => (fields.reverse.find? fun f => f.1 = key).map Prod.snd
  | _ => none

def string? : Json → Option String
  | .string s => some s
  | _ => none

def number? : Json → Option ℕ
  | .number n => some n
  | _ => none

/-- A number below a bound. -/
def below? (bound : ℕ) (j : Json) : Option ℕ := j.number?.filter (· < bound)

def u64? (j : Json) : Option UInt64 := (j.below? (2 ^ 64)).map UInt64.ofNat

def u32? (j : Json) : Option UInt32 := (j.below? (2 ^ 32)).map UInt32.ofNat

/-- The bytes of 64 digits. -/
def bytes? (j : Json) : Option (Bytes 32) := do
  let bytes ← hexDecode (utf8Bytes (← j.string?))
  if bytes.length = 32 then some (Bytes.ofList 32 bytes) else none

/-- A value that may be missing. -/
def option? {α : Type} (read : Json → Option α) : Json → Option (Option α)
  | .null => some none
  | j => (read j).map some

@[simp] lemma get?_object (key : String) (fields : List (String × Json)) :
    (object fields).get? key = (fields.reverse.find? fun f => f.1 = key).map Prod.snd := rfl

@[simp] lemma string?_string (s : String) : (string s).string? = some s := rfl

@[simp] lemma number?_number (n : ℕ) : (number n).number? = some n := rfl

@[simp] lemma u64?_number (n : UInt64) : (number n.toNat).u64? = some n := by
  simp [u64?, below?, n.toNat_lt]

@[simp] lemma u32?_number (n : UInt32) : (number n.toNat).u32? = some n := by
  simp [u32?, below?, n.toNat_lt]

@[simp] lemma bytes?_hex (b : Bytes 32) : (hex b.toList).bytes? = some b := by
  simp [bytes?, hex, hexDecode_hexEncode]

lemma option?_ofOption {α : Type} {toJson : α → Json} {read : Json → Option α}
    (h : ∀ a, read (toJson a) = some a) (hnull : read .null = none) (o : Option α) :
    (ofOption toJson o).option? read = some o := by
  cases o with
  | none => rfl
  | some a =>
    cases hj : toJson a with
    | null =>
      have hread := h a
      rw [hj, hnull] at hread
      simp at hread
    | _ =>
      have hread := h a
      rw [hj] at hread
      simp [ofOption, hj, option?, hread]

end Json

def Lifecycle.read (j : Json) : Option Lifecycle := do
  let status ← (← j.get? "status").string?
  if status = "received" then return .received
  else if status = "sequenced" then return .sequenced
  else if status = "preconfirmed" then return .preconfirmed
  else if status = "expired" then return .expired
  else if status = "final_proven" then return .finalProven
  else if status = "failed" then return .failed (← (← j.get? "reason").string?)
  else none

def StatusResponse.read (j : Json) : Option StatusResponse := do
  return {
    intentId := ⟨← (← j.get? "intent_id").bytes?⟩
    lifecycle := ← Lifecycle.read j
    slot := ← (← j.get? "slot").option? Json.number?
  }

def SequencePosition.read (j : Json) : Option SequencePosition := do
  return {
    slot := ← (← j.get? "slot").number?
    index := ← (← j.get? "index").u32?
    slotCommitment := ⟨← (← j.get? "slot_commitment").bytes?⟩
  }

def GuaranteeState.read (j : Json) : Option GuaranteeState := do
  let state ← (← j.get? "state").string?
  if state = "pending" then return .pending
  else if state = "overdue" then return .overdue
  else if state = "met" then
    return .met (← (← j.get? "slot").number?) (← (← j.get? "committed_at_ms").u64?)
  else if state = "missed" then
    return .missed (← (← j.get? "deadline_ms").u64?) (← (← j.get? "expired_at_ms").u64?)
  else none

def InclusionGuarantee.read (j : Json) : Option InclusionGuarantee := do
  return {
    receivedAtMs := ← (← j.get? "received_at_ms").u64?
    maxSlots := ← (← j.get? "max_slots").u32?
    deadlineMs := ← (← j.get? "deadline_ms").u64?
    intentDeadlineMs := ← (← j.get? "intent_deadline_ms").u64?
    state := ← GuaranteeState.read j
  }

def PreconfRef.read (j : Json) : Option PreconfRef := do
  return {
    slot := ← (← j.get? "slot").number?
    commitment := ⟨← (← j.get? "commitment").bytes?⟩
    quote := ← (← j.get? "quote").string?
    signature := ⟨← (← j.get? "signature").bytes?⟩
  }

def ProofRef.read (j : Json) : Option ProofRef := do
  return {
    fromSlot := ← (← j.get? "from_slot").number?
    toSlot := ← (← j.get? "to_slot").number?
    backend := ← (← j.get? "backend").string?
    vkeyHash := ← (← j.get? "vkey_hash").string?
    proof := ← (← j.get? "proof").string?
  }

def Receipt.read (j : Json) : Option Receipt := do
  return {
    intentId := ⟨← (← j.get? "intent_id").bytes?⟩
    lifecycle := ← Lifecycle.read j
    logPosition := ← (← j.get? "log_position").number?
    sequence := ← (← j.get? "sequence").option? SequencePosition.read
    guarantee := ← InclusionGuarantee.read (← j.get? "guarantee")
    preconf := ← (← j.get? "preconf").option? PreconfRef.read
    proof := ← (← j.get? "proof").option? ProofRef.read
  }

/-! ### What is written is read back -/

lemma StatusResponse.read_toJson (s : StatusResponse) : StatusResponse.read s.toJson = some s := by
  obtain ⟨id, lifecycle, slot⟩ := s
  have hslot : (Json.ofOption Json.number slot).option? Json.number? = some slot :=
    Json.option?_ofOption Json.number?_number rfl slot
  cases lifecycle <;>
    simp [StatusResponse.read, StatusResponse.toJson, Lifecycle.fields, Lifecycle.read, hslot]

lemma SequencePosition.read_toJson (s : SequencePosition) :
    SequencePosition.read s.toJson = some s := by
  simp [SequencePosition.read, SequencePosition.toJson]

lemma PreconfRef.read_toJson (p : PreconfRef) : PreconfRef.read p.toJson = some p := by
  simp [PreconfRef.read, PreconfRef.toJson]

lemma ProofRef.read_toJson (p : ProofRef) : ProofRef.read p.toJson = some p := by
  simp [ProofRef.read, ProofRef.toJson]

/-- What a client takes for the promise: the deadline of a miss stands in for the promised
one. -/
def InclusionGuarantee.shown (g : InclusionGuarantee) : InclusionGuarantee :=
  match g.state with
  | .missed deadlineMs _ => { g with deadlineMs := deadlineMs }
  | _ => g

lemma InclusionGuarantee.read_toJson (g : InclusionGuarantee) :
    InclusionGuarantee.read g.toJson = some g.shown := by
  obtain ⟨receivedAtMs, maxSlots, deadlineMs, intentDeadlineMs, state⟩ := g
  cases state <;>
    simp [InclusionGuarantee.read, InclusionGuarantee.toJson, GuaranteeState.fields,
      GuaranteeState.read, InclusionGuarantee.shown]

lemma Receipt.read_toJson (r : Receipt) :
    Receipt.read r.toJson = some { r with guarantee := r.guarantee.shown } := by
  obtain ⟨id, lifecycle, logPosition, sequence, guarantee, preconf, proof⟩ := r
  have hsequence := Json.option?_ofOption SequencePosition.read_toJson rfl sequence
  have hpreconf := Json.option?_ofOption PreconfRef.read_toJson rfl preconf
  have hproof := Json.option?_ofOption ProofRef.read_toJson rfl proof
  have hguarantee := guarantee.read_toJson
  cases lifecycle <;>
    simp [Receipt.read, Receipt.toJson, Lifecycle.fields, Lifecycle.read, hsequence, hpreconf,
      hproof, hguarantee]

/-- The miss is at the deadline that was promised. -/
def InclusionGuarantee.Agrees (g : InclusionGuarantee) : Prop :=
  ∀ deadlineMs expiredAtMs, g.state = .missed deadlineMs expiredAtMs → deadlineMs = g.deadlineMs

/-- A receipt is read back whole exactly if the two deadlines agree. -/
lemma Receipt.read_toJson_eq_iff (r : Receipt) :
    Receipt.read r.toJson = some r ↔ r.guarantee.Agrees := by
  rw [Receipt.read_toJson, Option.some.injEq]
  obtain ⟨id, lifecycle, logPosition, sequence, guarantee, preconf, proof⟩ := r
  obtain ⟨receivedAtMs, maxSlots, deadlineMs, intentDeadlineMs, state⟩ := guarantee
  cases state <;> simp [InclusionGuarantee.shown, InclusionGuarantee.Agrees]

/-! ### The node -/

section Node

variable [Keccak256] {g : GuaranteeConfig} {log : Log}

lemma missesAreLate_pipeline (g : GuaranteeConfig) (cfg : BatchConfig) (es : List PipelineEvent) :
    MissesAreLate g ((pipeline g cfg).run es).log := by
  refine (pipeline_upholds g cfg).along_left (C := fun _ _ _ => True)
    (J := fun log _ => MissesAreLate g log) (by simp [MissesAreLate]) ?_ ?_ es
    (Stage.along_onLeft_true es)
  · intro log task t e hinv h _
    exact (sequencerStep_move g log task e).missesAreLate hinv.tracks h
  · intro log task t d x hinv h hx
    exact h.append_of_none (hinv.disposes_nothing (e := .inr d) (by simp) hx).1

/-- A receipt off a prefix of such a log has one deadline. -/
lemma Projections.agrees_of_receiptOf {n : ℕ} (hlate : MissesAreLate g log)
    (hist : AdmissionHistory g log) {id : IntentId} {nowMs : UInt64} {r : Receipt}
    (h : (ofLog g (log.take n)).receiptOf id nowMs = some r) : r.guarantee.Agrees := by
  obtain ⟨row, l, hrow, -, rfl⟩ := receiptOf_eq_some h
  have hsourced := intentRow_sourced g (log.take n) id row hrow
  obtain ⟨r, hr, rfl, hat, -⟩ := hsourced.received
  have hsub : (log.take n).Sublist log := List.take_sublist n log
  intro deadline missedAt hstate
  have hexpired := hsourced.expired _ _ (guaranteeState_eq_missed hrow hstate)
  obtain ⟨r', hr', hid, hdeadline, -⟩ := hlate _ ((hsub.filterMap _).mem hexpired)
  obtain rfl := List.inj_on_of_nodup_map hist.ids hr' ((hsub.filterMap _).mem hr) hid
  simp only [receiptAt, guarantee_ofLog, ← hat]
  exact hdeadline

/-- **Receipts arrive whole.**  In every run of the node, whatever the interleaving, the failures,
the crashes and the lag of the read model: a client that reads the JSON of a status or a receipt
key by key, and the last value of a key that comes twice, has the answer. -/
theorem receipts_arrive_whole (g : GuaranteeConfig) (cfg : BatchConfig)
    (es : List (PipelineEvent ⊕ ProjectorEvent)) (path : String) (head : ℕ) (nowMs : UInt64) :
    let p := ((node g cfg).run es).state.2.1
    (∀ s, status p head path = .ok s → StatusResponse.read s.toJson = some s) ∧
      ∀ r, receipt p head nowMs path = .ok r → Receipt.read r.toJson = some r := by
  intro p
  refine ⟨fun s _ => s.read_toJson, fun r hr => ?_⟩
  obtain ⟨hinv, k, -, hp, -⟩ := (node_upholds g cfg).run es
  have hpeq : p = Projections.ofLog g (((node g cfg).run es).log.take k) := hp
  rw [hpeq] at hr
  obtain ⟨id, -, hreceipt⟩ := receipt_eq_ok hr
  have hlog : ((node g cfg).run es).log = _ := (Stage.run_par_of_silent projector_silent es).1
  have hlate := missesAreLate_pipeline g cfg (es.filterMap Sum.getLeft?)
  rw [← hlog] at hlate
  rw [Receipt.read_toJson_eq_iff]
  exact Projections.agrees_of_receiptOf hlate hinv.history hreceipt

end Node

end Zequencer
