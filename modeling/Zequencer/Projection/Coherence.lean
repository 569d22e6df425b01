/-
# Receipts are coherent

A receipt puts together an intent row, the slot row it points at, and the evidence beside
the stage of that slot.  Whatever the entries and their order, as long as no slot is
committed twice, the parts of a receipt agree with each other and with the log.
-/
import Zequencer.Projection.Lifecycle

namespace Zequencer

variable {g : GuaranteeConfig} {log : Log} {id : IntentId}

/-! ### The place of an intent -/

lemma getElem?_of_lastIndex {ids : List IntentId} {i : ℕ} (h : lastIndex ids id = some i) :
    ids[i]? = some id := by
  induction ids using List.reverseRecOn with
  | nil => simp [lastIndex] at h
  | append_singleton ids id' ih =>
    rw [lastIndex_concat] at h
    split_ifs at h with hid
    · obtain rfl := Option.some.inj h
      rw [List.getElem?_concat_length, hid]
    · have hi := ih h
      rw [List.getElem?_append_left (List.getElem?_eq_some_iff.mp hi).1, hi]

/-- The place of an intent, if it has one, is its place in a slot of the log. -/
def IntentRow.Placed (log : Log) (id : IntentId) (row : IntentRow) : Prop :=
  ∀ slot, row.slot = some slot → ∃ c ∈ log.commits, c.slot = slot ∧
    ∃ index, row.indexInSlot = some index ∧ c.intents[index.toNat]? = some id

lemma IntentRow.Placed.append {row : IntentRow} (h : row.Placed log id) (e : Entry) :
    row.Placed (log ++ [e]) id := by
  intro slot hslot
  obtain ⟨c, hc, hplace⟩ := h slot hslot
  exact ⟨c, Log.mem_commits_append_left hc _, hplace⟩

/-- Every intent of a slot of fewer than `2 ^ 32` intents is found where its row says. -/
lemma Projections.intentRow_placed (hsizes : ∀ c ∈ log.commits, c.intents.length < 2 ^ 32)
    (id : IntentId) : ∀ row ∈ (ofLog g log).intents.lookup id, row.Placed log id := by
  intro row hrow
  refine intentRow_induction
    (P := fun log row => (∀ c ∈ log.commits, c.intents.length < 2 ^ 32) → row.Placed log id)
    ?append ?admitted ?expired ?placed log row hrow hsizes
  case append =>
    exact fun log e row h hsizes =>
      (h fun c hc => hsizes c (Log.mem_commits_append_left hc _)).append e
  case admitted =>
    intro log r _ _ _ slot hslot
    simp [IntentRow.admitted] at hslot
  case expired =>
    exact fun log x row _ h hsizes =>
      (h fun c hc => hsizes c (Log.mem_commits_append_left hc _)).append (.intentExpired x)
  case placed =>
    intro log c i row hindex _ hsizes slot hslot
    have hget := getElem?_of_lastIndex hindex
    have hlt : i < 2 ^ 32 :=
      (List.getElem?_eq_some_iff.mp hget).1.trans (hsizes c (by simp))
    refine ⟨c, by simp, by simpa using hslot, UInt32.ofNat i, rfl, ?_⟩
    rw [UInt32.toNat_ofNat', Nat.mod_eq_of_lt hlt, hget]

/-! ### The evidence of a slot -/

/-- The evidence beside the stage of a slot goes with the stage, and comes from the log. -/
structure SlotRow.Evident (log : Log) (slot : ℕ) (sr : SlotRow) : Prop where
  committed : sr.stage = .committed → sr.preconf = none
  preconfirmed : sr.stage = .preconfirmed → sr.preconf ≠ none ∧ sr.proof = none
  proven : sr.stage = .proven → ∃ pr, sr.proof = some pr ∧ pr.fromSlot ≤ slot ∧ slot ≤ pr.toSlot
  /-- There is no proof without a preconfirmation. -/
  proof : sr.preconf = none → sr.proof = none
  attested : ∀ pc, sr.preconf = some pc → ∃ a, .slotAttested a ∈ log ∧ a.slot = slot ∧
    a.quote = pc.quote ∧ a.signature = pc.signature

namespace SlotRow.Evident

variable {slot : ℕ} {sr : SlotRow}

lemma append (h : sr.Evident log slot) (e : Entry) : sr.Evident (log ++ [e]) slot where
  committed := h.committed
  preconfirmed := h.preconfirmed
  proven := h.proven
  proof := h.proof
  attested := by
    intro pc hpc
    obtain ⟨a, ha, hrest⟩ := h.attested pc hpc
    exact ⟨a, List.mem_append_left _ ha, hrest⟩

lemma opened (c : SlotCommitted) : (SlotRow.opened c).Evident log slot where
  committed := fun _ => rfl
  preconfirmed := by simp [SlotRow.opened]
  proven := by simp [SlotRow.opened]
  proof := fun _ => rfl
  attested := by simp [SlotRow.opened]

lemma onAttested {a : SlotAttested} (h : sr.Evident log slot) (ha : .slotAttested a ∈ log)
    (hslot : a.slot = slot) : (sr.attested a).Evident log slot := by
  rw [SlotRow.attested]
  split_ifs with hstage
  · have hproof := h.proof (h.committed hstage)
    refine ⟨by simp, fun _ => ⟨by simp, hproof⟩, by simp, by simp, ?_⟩
    intro pc hpc
    obtain rfl : (⟨a.quote, a.signature⟩ : Preconf) = pc := Option.some.inj hpc
    exact ⟨a, ha, hslot, rfl, rfl⟩
  · exact h

lemma onProven {p : SlotsProven} (h : sr.Evident log slot)
    (hin : p.fromSlot ≤ slot ∧ slot ≤ p.toSlot) : (sr.proven p).Evident log slot := by
  rw [SlotRow.proven]
  split_ifs with hstage
  · have hpreconf := (h.preconfirmed hstage).1
    exact ⟨by simp, by simp, fun _ => ⟨_, rfl, hin⟩, fun hnone => absurd hnone hpreconf,
      h.attested⟩
  · exact h

lemma onFail (h : sr.Evident log slot) (reason : String) : (sr.fail reason).Evident log slot where
  committed := by simp [SlotRow.fail]
  preconfirmed := by simp [SlotRow.fail]
  proven := by simp [SlotRow.fail]
  proof := h.proof
  attested := h.attested

end SlotRow.Evident

lemma Projections.slotRow_evident (g : GuaranteeConfig) (log : Log) (slot : ℕ) :
    ∀ sr ∈ (ofLog g log).slots.lookup slot, sr.Evident log slot := by
  refine slotRow_induction (P := fun log sr => sr.Evident log slot)
    ?append ?opened ?attested ?proven ?fail log
  case append => exact fun log e sr h => h.append e
  case opened => exact fun log c _ => SlotRow.Evident.opened c
  case attested => exact fun log a sr hslot h => (h.append _).onAttested (by simp) hslot
  case proven => exact fun log p sr hin h => (h.append _).onProven hin
  case fail => exact fun log e reason sr h => (h.append e).onFail reason

/-! ### Receipts -/

/-- The parts of a receipt agree with each other and with the log. -/
structure Receipt.Coherent (log : Log) (r : Receipt) : Prop where
  expired : r.lifecycle = .expired ↔
    ∃ deadline missedAt, r.guarantee.state = .missed deadline missedAt
  received : r.lifecycle = .received ↔
    r.guarantee.state = .pending ∨ r.guarantee.state = .overdue
  met : (r.lifecycle = .sequenced ∨ r.lifecycle = .preconfirmed ∨ r.lifecycle = .finalProven ∨
      ∃ reason, r.lifecycle = .failed reason) ↔
    ∃ slot committedAt, r.guarantee.state = .met slot committedAt
  slot : ∀ slot committedAt, r.guarantee.state = .met slot committedAt →
    ∃ s, r.sequence = some s ∧ s.slot = slot
  sequence : ∀ s, r.sequence = some s → ∃ c ∈ log.commits, c.slot = s.slot ∧
    c.intents[s.index.toNat]? = some r.intentId ∧ c.commitment = s.slotCommitment
  preconfirmed : r.lifecycle = .preconfirmed → r.preconf ≠ none ∧ r.proof = none
  finalProven : r.lifecycle = .finalProven → r.preconf ≠ none ∧ ∃ s pr, r.sequence = some s ∧
    r.proof = some pr ∧ pr.fromSlot ≤ s.slot ∧ s.slot ≤ pr.toSlot
  proof : r.proof ≠ none → r.preconf ≠ none
  preconf : ∀ pc, r.preconf = some pc →
    (∃ s, r.sequence = some s ∧ s.slot = pc.slot ∧ s.slotCommitment = pc.commitment) ∧
      ∃ a, .slotAttested a ∈ log ∧ a.slot = pc.slot ∧ hexEncode a.quote = pc.quote ∧
        a.signature = pc.signature

namespace Projections

variable {row : IntentRow} {slot : ℕ} {sr : SlotRow}

lemma lifecycle_iff_state (hrow : (ofLog g log).intents.lookup id = some row) {l : Lifecycle}
    (hl : (ofLog g log).lifecycle row = some l) (nowMs : UInt64) :
    (l = .expired ↔
        ∃ deadline missedAt, (ofLog g log).guaranteeState row nowMs = .missed deadline missedAt) ∧
      (l = .received ↔ (ofLog g log).guaranteeState row nowMs = .pending ∨
        (ofLog g log).guaranteeState row nowMs = .overdue) ∧
      ((l = .sequenced ∨ l = .preconfirmed ∨ l = .finalProven ∨ ∃ reason, l = .failed reason) ↔
        ∃ slot committedAt, (ofLog g log).guaranteeState row nowMs = .met slot committedAt) := by
  rcases standing hrow nowMs with
    ⟨deadline, missedAt, -, hexpired, hstate⟩ | ⟨-, hreceived, hstate⟩ |
      ⟨slot, sr, -, -, hstage, hstate⟩
  · obtain rfl := Option.some.inj (hexpired.symm.trans hl)
    simp [hstate]
  · obtain rfl := Option.some.inj (hreceived.symm.trans hl)
    rcases hstate with hstate | hstate
    · simp [hstate]
    · simp [hstate]
  · obtain rfl := Option.some.inj (hstage.symm.trans hl)
    rw [hstate]
    cases sr.stage <;> simp [SlotStage.lifecycle]

/-- Unless it is a miss, the lifecycle of an intent in a slot is that of the stage. -/
lemma lifecycle_eq_stage {l : Lifecycle} (hl : (ofLog g log).lifecycle row = some l)
    (hslot : row.slot = some slot) (hsr : (ofLog g log).slots.lookup slot = some sr)
    (hne : l ≠ .expired) : l = sr.stage.lifecycle := by
  by_cases hexpired : row.expired = none
  · rw [lifecycle_of_slot hexpired hslot, hsr, Option.map_some] at hl
    exact (Option.some.inj hl).symm
  · rw [lifecycle_of_expired hexpired] at hl
    exact absurd (Option.some.inj hl).symm hne

lemma slotRow_of_slot (hslot : row.slot = some slot)
    (hsr : (ofLog g log).slots.lookup slot = some sr) : (ofLog g log).slotRow row = some sr := by
  rw [slotRow, hslot, Option.bind_some, hsr]

lemma preconf_of_slot (hslot : row.slot = some slot)
    (hsr : (ofLog g log).slots.lookup slot = some sr) :
    (ofLog g log).preconf row =
      sr.preconf.map fun pc => ⟨slot, sr.commitment, hexEncode pc.quote, pc.signature⟩ := by
  simp only [preconf, slotRow_of_slot hslot hsr, hslot, Option.bind_eq_bind, Option.bind_some]
  cases sr.preconf <;> rfl

lemma proof_of_slot (hslot : row.slot = some slot)
    (hsr : (ofLog g log).slots.lookup slot = some sr) :
    (ofLog g log).proof row = sr.proof.map fun pr => ⟨pr.fromSlot, pr.toSlot,
      pr.handle.backend.asStr, hexEncode pr.handle.vkeyHash.toList, hexEncode pr.handle.proof⟩ := by
  simp only [proof, slotRow_of_slot hslot hsr, Option.bind_eq_bind, Option.bind_some]
  cases sr.proof <;> rfl

lemma bare_of_waiting {p : Projections} (hslot : row.slot = none) :
    p.sequence row = none ∧ p.preconf row = none ∧ p.proof row = none := by
  simp [sequence, preconf, proof, slotRow, hslot]

/-- The receipt of an intent in no slot is coherent: no lifecycle of a slot is reported. -/
lemma coherent_of_waiting {l : Lifecycle} {nowMs : UInt64}
    (hrow : (ofLog g log).intents.lookup id = some row)
    (hl : (ofLog g log).lifecycle row = some l) (hslot : row.slot = none) :
    ((ofLog g log).receiptAt id row l nowMs).Coherent log := by
  unfold receiptAt
  obtain ⟨hexpired, hreceived, hmet⟩ := lifecycle_iff_state hrow hl nowMs
  obtain ⟨hsequence, hpreconf, hproof⟩ := bare_of_waiting (p := ofLog g log) hslot
  have hnotmet : ∀ slot committedAt,
      (ofLog g log).guaranteeState row nowMs ≠ .met slot committedAt := by
    intro slot committedAt hstate
    simp [(guaranteeState_eq_met hrow hstate).1] at hslot
  have hnot : ¬ (l = .sequenced ∨ l = .preconfirmed ∨ l = .finalProven ∨
      ∃ reason, l = .failed reason) := by
    rintro h
    obtain ⟨slot, committedAt, hstate⟩ := hmet.mp h
    exact hnotmet slot committedAt hstate
  refine ⟨hexpired, hreceived, hmet, fun slot at' hstate => absurd hstate (hnotmet slot at'),
    ?_, fun h => absurd (Or.inr (Or.inl h)) hnot, fun h => absurd (Or.inr (Or.inr (Or.inl h))) hnot,
    ?_, ?_⟩
  · simp [hsequence]
  · simp [hproof]
  · simp [hpreconf]

/-- The receipt of an intent in a slot is coherent: the row of the slot, the place of the
intent and the evidence all are of the one commit of the slot. -/
lemma coherent_of_placed {l : Lifecycle} {nowMs : UInt64}
    (hslots : (log.commits.map SlotCommitted.slot).Nodup)
    (hsizes : ∀ c ∈ log.commits, c.intents.length < 2 ^ 32)
    (hrow : (ofLog g log).intents.lookup id = some row)
    (hl : (ofLog g log).lifecycle row = some l) (hslot : row.slot = some slot) :
    ((ofLog g log).receiptAt id row l nowMs).Coherent log := by
  unfold receiptAt
  obtain ⟨hexpired, hreceived, hmet⟩ := lifecycle_iff_state hrow hl nowMs
  obtain ⟨sr, hsr⟩ := exists_slotRow hrow hslot
  have hevident := slotRow_evident g log slot sr hsr
  obtain ⟨c, hc, hcslot, index, hindex, hget⟩ := intentRow_placed hsizes id row hrow slot hslot
  obtain ⟨c', hc', hcslot', -, hcommitment⟩ := slotRow_sourced g log slot sr hsr
  obtain rfl : c = c' := List.inj_on_of_nodup_map hslots hc hc' (hcslot.trans hcslot'.symm)
  have hsequence : (ofLog g log).sequence row = some ⟨slot, index, sr.commitment⟩ := by
    simp [Projections.sequence, slotRow_of_slot hslot hsr, hslot, hindex]
  have hpreconf := preconf_of_slot hslot hsr
  have hproof := proof_of_slot hslot hsr
  have hstage : l ≠ .expired → l = sr.stage.lifecycle := lifecycle_eq_stage hl hslot hsr
  constructor
  case expired => exact hexpired
  case received => exact hreceived
  case met => exact hmet
  case slot =>
    intro slot' committedAt hstate
    have hslot' := (guaranteeState_eq_met hrow hstate).1
    exact ⟨_, hsequence, Option.some.inj (hslot.symm.trans hslot')⟩
  case sequence =>
    intro s hs
    obtain rfl := Option.some.inj (hsequence.symm.trans hs)
    exact ⟨c, hc, hcslot, hget, hcommitment⟩
  case preconfirmed =>
    rintro rfl
    have hat : sr.stage = .preconfirmed := SlotStage.lifecycle_injective (hstage (by simp)).symm
    obtain ⟨hsome, hnone⟩ := hevident.preconfirmed hat
    rw [hpreconf, hproof, hnone]
    simpa using hsome
  case finalProven =>
    rintro rfl
    have hat : sr.stage = .proven := SlotStage.lifecycle_injective (hstage (by simp)).symm
    obtain ⟨pr, hpr, hin⟩ := hevident.proven hat
    have hsome : sr.preconf ≠ none := fun hnone => by simp [hevident.proof hnone] at hpr
    refine ⟨?_, _, _, hsequence, by rw [hproof, hpr, Option.map_some], hin⟩
    rw [hpreconf]
    simpa using hsome
  case proof =>
    rw [hpreconf, hproof]
    simpa using mt hevident.proof
  case preconf =>
    intro pc hpc
    rw [hpreconf] at hpc
    obtain ⟨pc', hpc', rfl⟩ := Option.map_eq_some_iff.mp hpc
    obtain ⟨a, ha, haslot, hquote, hsignature⟩ := hevident.attested pc' hpc'
    exact ⟨⟨_, hsequence, rfl, rfl⟩, a, ha, haslot, by rw [hquote], hsignature⟩

end Projections

open Projections in
/-- **Receipts are coherent.**  For every sequence of entries that commits no slot twice and
no slot of `2 ^ 32` intents or more: status and receipt find exactly the intents received,
they report the same lifecycle, and the parts of the receipt agree with each other and with
the log. -/
theorem receipts_coherent (g : GuaranteeConfig) (log : Log)
    (hslots : (log.commits.map SlotCommitted.slot).Nodup)
    (hsizes : ∀ c ∈ log.commits, c.intents.length < 2 ^ 32) (id : IntentId) (nowMs : UInt64) :
    ((ofLog g log).statusOf id ≠ none ↔ ∃ r ∈ log.received, r.intentId = id) ∧
      ((ofLog g log).receiptOf id nowMs ≠ none ↔ ∃ r ∈ log.received, r.intentId = id) ∧
      ∀ r, (ofLog g log).receiptOf id nowMs = some r → r.intentId = id ∧
        ((ofLog g log).statusOf id).map StatusResponse.lifecycle = some r.lifecycle ∧
          r.Coherent log := by
  have hreported : (ofLog g log).reported id ≠ none ↔ ∃ r ∈ log.received, r.intentId = id :=
    reported_ne_none_iff
  refine ⟨(not_congr statusOf_eq_none_iff).trans hreported,
    (not_congr receiptOf_eq_none_iff).trans hreported, fun r hr => ?_⟩
  obtain ⟨row, l, hrow, hl, rfl⟩ := receiptOf_eq_some hr
  refine ⟨rfl, (reported_of_lookup hrow).trans hl, ?_⟩
  cases hslot : row.slot with
  | none => exact coherent_of_waiting hrow hl hslot
  | some slot => exact coherent_of_placed hslots hsizes hrow hl hslot

/-- One intent, from the log to its proof. -/
def provenLog : Log :=
  [.intentReceived ⟨⟨Bytes.ofNat 32 7⟩, dummy 0, testNow⟩,
    .slotCommitted ⟨4, [⟨Bytes.ofNat 32 7⟩], 1, ⟨Bytes.ofNat 32 8⟩, testNow⟩,
    .slotAttested ⟨4, [1], ⟨Bytes.ofNat 32 9⟩⟩,
    .slotsProven ⟨4, 4, ⟨.mock, [3], [4], Bytes.ofNat 32 5⟩⟩]

theorem receipts_coherent_provenLog :
    let receipt := (Projections.ofLog testGuarantee provenLog).receiptOf ⟨Bytes.ofNat 32 7⟩ testNow
    receipt.map Receipt.lifecycle = some .finalProven ∧ ∀ r ∈ receipt, r.Coherent provenLog := by
  refine ⟨by decide +kernel, fun r hr => ?_⟩
  exact ((receipts_coherent testGuarantee provenLog (by decide +kernel) (by decide +kernel) _
    testNow).2.2 r hr).2.2

end Zequencer
