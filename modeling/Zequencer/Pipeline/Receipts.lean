/-
# Receipts verify offline

What a client gets is a receipt, with the evidence as hex, and not the log.  Over the mock enclave
and the mock backend every part of it checks against the contents of the slots it names: the place
of the intent, the quote and its signature, and the proof bytes together with the statement that a
holder computes from the commitments of the range.
-/
import Zequencer.Pipeline.Evidence
import Zequencer.Pipeline.Reads
import Zequencer.Projection.Hex

namespace Zequencer

section Rows

variable {g : GuaranteeConfig} {log : Log} {id : IntentId} {slot : ℕ}

/-- The place of an intent is its place in a slot of the log, as far as 32 bits show it. -/
lemma Projections.intentRow_indexed {row : IntentRow}
    (hrow : (ofLog g log).intents.lookup id = some row) (hslot : row.slot = some slot) :
    ∃ c ∈ log.commits, c.slot = slot ∧ ∃ i, row.indexInSlot = some (UInt32.ofNat i) ∧
      c.intents[i]? = some id := by
  refine intentRow_induction (P := fun log row => ∀ slot, row.slot = some slot →
    ∃ c ∈ log.commits, c.slot = slot ∧ ∃ i, row.indexInSlot = some (UInt32.ofNat i) ∧
      c.intents[i]? = some id) ?append ?admitted ?expired ?placed log row hrow slot hslot
  case append =>
    intro log e row h slot hslot
    obtain ⟨c, hc, hrest⟩ := h slot hslot
    exact ⟨c, Log.mem_commits_append_left hc _, hrest⟩
  case admitted =>
    intro log r _ _ slot hslot
    simp [IntentRow.admitted] at hslot
  case expired =>
    intro log x row _ h slot hslot
    obtain ⟨c, hc, hrest⟩ := h slot hslot
    exact ⟨c, Log.mem_commits_append_left hc _, hrest⟩
  case placed =>
    intro log c i row hindex _ slot hslot
    exact ⟨c, by simp, by simpa using hslot, i, rfl, getElem?_of_lastIndex hindex⟩

lemma Projections.slotRow_proved {sr : SlotRow} (hsr : (ofLog g log).slots.lookup slot = some sr)
    {pr : ProvenRange} (hpr : sr.proof = some pr) :
    .slotsProven ⟨pr.fromSlot, pr.toSlot, pr.handle⟩ ∈ log ∧ pr.fromSlot ≤ slot ∧
      slot ≤ pr.toSlot := by
  refine slotRow_induction (P := fun log sr => ∀ pr, sr.proof = some pr →
    .slotsProven ⟨pr.fromSlot, pr.toSlot, pr.handle⟩ ∈ log ∧ pr.fromSlot ≤ slot ∧
      slot ≤ pr.toSlot) ?append ?opened ?attested ?proven ?fail log sr hsr pr hpr
  case append => exact fun log e sr h pr hpr => ⟨List.mem_append_left _ (h pr hpr).1, (h pr hpr).2⟩
  case opened =>
    intro log c _ pr hpr
    simp [SlotRow.opened] at hpr
  case attested =>
    intro log a sr _ h pr hpr
    have hsame : (sr.attested a).proof = sr.proof := by
      rw [SlotRow.attested]
      split_ifs <;> rfl
    rw [hsame] at hpr
    exact ⟨List.mem_append_left _ (h pr hpr).1, (h pr hpr).2⟩
  case proven =>
    intro log p sr hin h pr hpr
    rw [SlotRow.proven] at hpr
    split_ifs at hpr
    · obtain rfl := Option.some.inj hpr
      exact ⟨by simp, hin⟩
    · exact ⟨List.mem_append_left _ (h pr hpr).1, (h pr hpr).2⟩
  case fail => exact fun log e reason sr h pr hpr =>
    ⟨List.mem_append_left _ (h pr hpr).1, (h pr hpr).2⟩

end Rows

section Receipts

variable [Keccak256] {g : GuaranteeConfig} {cfg : BatchConfig} {enclave : MockEnclave}
  {backend : MockProver} {log : Log}

lemma mockNode_upholds (g : GuaranteeConfig) (cfg : BatchConfig) (enclave : MockEnclave)
    (backend : MockProver) :
    (mockNode g cfg enclave backend).Upholds (fun _ _ => False) PipelineWrites
      (fun log s => (PipelineInv g log s.1 ∧ EvidenceInv enclave backend log s.1) ∧
        ProjectorTracks g log s.2) := by
  have hall := (mockPipeline_upholds g cfg enclave backend).par (projector_upholds (g := g))
    (fun _ _ _ _ _ _ _ => trivial) (fun _ _ _ _ _ _ hx => hx)
  exact hall.mono (fun _ _ _ _ => False.elim) fun _ _ hx => hx.resolve_right not_false

/-- What a holder checks of a receipt, against the slots of the log. -/
structure Receipt.Verifies (enclave : MockEnclave) (log : Log) (r : Receipt) : Prop where
  /-- The intent is where the receipt says, under a commitment of what is in the slot. -/
  sequence : ∀ s, r.sequence = some s → ∃ c ∈ log.commits, c.slot = s.slot ∧
    c.commitment = s.slotCommitment ∧ commit c.slot c.intents = s.slotCommitment ∧
      ∃ i, s.index = UInt32.ofNat i ∧ c.intents[i]? = some r.intentId
  /-- The quote covers the slot the intent is in. -/
  preconf : ∀ pc, r.preconf = some pc → ∃ quote, hexDecode (utf8Bytes pc.quote) = some quote ∧
    ∃ c ∈ log.commits, c.slot = pc.slot ∧ r.intentId ∈ c.intents ∧
      verifyPreconf (MockVerifier.pinning enclave.measurement).verifier
        ⟨UInt64.ofNat pc.slot, pc.commitment, quote, pc.signature⟩ c.intents = .ok ()
  /-- The proof covers a range of slots with that of the intent in it. -/
  proof : ∀ pr, r.proof = some pr → pr.backend = Backend.mock.asStr ∧
    ∃ proof vkeyHash, hexDecode (utf8Bytes pr.proof) = some proof ∧
      hexDecode (utf8Bytes pr.vkeyHash) = some vkeyHash ∧
        (∃ s, r.sequence = some s ∧ pr.fromSlot ≤ s.slot ∧ s.slot ≤ pr.toSlot) ∧
          (log.slots pr.fromSlot pr.toSlot).map CommittedSlot.slot =
            List.range' pr.fromSlot (pr.toSlot + 1 - pr.fromSlot) ∧
          MockProver.verify ⟨.mock, proof, MockProver.statement (log.slots pr.fromSlot pr.toSlot),
            Bytes.ofList 32 vkeyHash⟩ (log.slots pr.fromSlot pr.toSlot) = .ok ()

/-- The evidence of the log reaches the receipt. -/
lemma Projections.verifies_of_receiptOf {n : ℕ} (hlog : Replayable g log)
    (hevidence : ∀ e ∈ log, Evidenced enclave backend log e) {id : IntentId} {nowMs : UInt64}
    {r : Receipt} (h : (ofLog g (log.take n)).receiptOf id nowMs = some r) :
    r.Verifies enclave log := by
  obtain ⟨row, l, hrow, hl, rfl⟩ := receiptOf_eq_some h
  have hnum : Log.Numbered log := hlog.slots_eq_range
  have hsub : ∀ e ∈ log.take n, e ∈ log := fun e he => List.mem_of_mem_take he
  have hcommits : ∀ c ∈ Log.commits (log.take n), c ∈ log.commits :=
    fun c hc => Log.mem_commits.mpr (hsub _ (Log.mem_commits.mp hc))
  -- the slot of the intent, its row and its commit
  have hplaced : ∀ slot sr, row.slot = some slot →
      (ofLog g (log.take n)).slots.lookup slot = some sr → ∃ c ∈ log.commits, c.slot = slot ∧
        c.commitment = sr.commitment ∧ id ∈ c.intents ∧
          ∃ i, row.indexInSlot = some (UInt32.ofNat i) ∧ c.intents[i]? = some id := by
    intro slot sr hslot hsr
    obtain ⟨c, hc, hcslot, i, hi, hget⟩ := intentRow_indexed hrow hslot
    obtain ⟨c', hc', hcslot', -, hcommitment⟩ := slotRow_sourced g _ slot sr hsr
    obtain rfl := hnum.eq_of_slot_eq (hcommits c hc) (hcommits c' hc') (hcslot.trans hcslot'.symm)
    exact ⟨c, hcommits c hc, hcslot, hcommitment, List.mem_of_getElem? hget, i, hi, hget⟩
  have hsequence : ∀ slot sr, row.slot = some slot →
      (ofLog g (log.take n)).slots.lookup slot = some sr →
        ∃ s, (ofLog g (log.take n)).sequence row = some s ∧ s.slot = slot := by
    intro slot sr hslot hsr
    obtain ⟨c, -, -, -, -, i, hi, -⟩ := hplaced slot sr hslot hsr
    exact ⟨⟨slot, UInt32.ofNat i, sr.commitment⟩,
      by simp only [Projections.sequence, slotRow_of_slot hslot hsr, hslot, hi], rfl⟩
  constructor
  case sequence =>
    intro s hs
    obtain ⟨index, sr, hslot, hindex, hsr, heq⟩ := sequence_eq_some hs
    obtain ⟨c, hc, hcslot, hcommitment, -, i, hi, hget⟩ := hplaced _ sr hslot hsr
    obtain ⟨pre, post, -, hlaw⟩ := hlog.law_of_mem hc
    have hs' : s.slotCommitment = c.commitment := by rw [heq, hcommitment]
    refine ⟨c, hc, hcslot, hs'.symm, by rw [hs', hlaw.commitment], i, ?_, hget⟩
    rw [heq]
    exact Option.some.inj (hindex.symm.trans hi)
  case preconf =>
    intro pc hpc
    obtain ⟨slot, sr, pc₀, hslot, hsr, hpc₀, rfl⟩ := preconf_eq_some hpc
    obtain ⟨c, hc, hcslot, hcommitment, hid, -⟩ := hplaced slot sr hslot hsr
    obtain ⟨a, ha, haslot, hquote, hsignature⟩ :=
      (slotRow_evident g _ slot sr hsr).attested pc₀ hpc₀
    obtain ⟨c', hc', hruling⟩ := (hevidence _ (hsub _ ha)).quote a rfl
    have hcslot' : c'.slot = slot := (commitment_of_ruling hruling).1.symm.trans haslot
    obtain rfl := hnum.eq_of_slot_eq hc hc' (hcslot.trans hcslot'.symm)
    have hverify := verifyPreconf_of_ruling hruling
    rw [SlotAttested.claim, hquote, hsignature, hcslot, hcommitment] at hverify
    exact ⟨pc₀.quote, hexDecode_hexEncode _, c, hc, hcslot, hid, hverify⟩
  case proof =>
    intro pr hpr
    obtain ⟨slot, sr, pr₀, hslot, hsr, hpr₀, rfl⟩ := proof_eq_some hpr
    obtain ⟨hmem, hfrom, hto⟩ := slotRow_proved hsr hpr₀
    obtain ⟨taken, hbatch, hcommitted, hprove⟩ := (hevidence _ (hsub _ hmem)).proof _ rfl
    have hlast := isBatch_slot_lt hbatch hnum hcommitted
    have htaken := hbatch.eq_slots hnum hcommitted hlast
    have hhandle : pr₀.handle = MockProver.handle taken := MockProver.eq_handle_of_prove hprove
    obtain ⟨s, hs, hsslot⟩ := hsequence slot sr hslot hsr
    refine ⟨by rw [hhandle], _, _, hexDecode_hexEncode _, hexDecode_hexEncode _,
      ⟨s, hs, hsslot ▸ hfrom, hsslot ▸ hto⟩, hnum.map_slot_slots hlast, ?_⟩
    rw [MockProver.verify_eq_ok_iff, Bytes.ofList_toList, ← htaken, hhandle]
    rfl

/-- **Receipts verify offline.**  In every run of the node over the mock enclave and the mock
backend, whatever the interleaving, the failing slots and ranges, the batch size, the restarts
and the lag of the read model: every receipt that is answered verifies. -/
theorem receipts_verify (g : GuaranteeConfig) (cfg : BatchConfig) (enclave : MockEnclave)
    (backend : MockProver) (es : List (PipelineEvent ⊕ ProjectorEvent)) (path : String)
    (head : ℕ) (nowMs : UInt64) (r : Receipt)
    (h : receipt ((mockNode g cfg enclave backend).run es).state.2.1 head nowMs path = .ok r) :
    r.Verifies enclave ((mockNode g cfg enclave backend).run es).log ∧
      IntentId.parse path = some r.intentId := by
  obtain ⟨⟨hinv, hevidence⟩, k, -, hp, -⟩ := (mockNode_upholds g cfg enclave backend).run es
  rw [hp] at h
  obtain ⟨id, hid, hreceipt⟩ := receipt_eq_ok h
  refine ⟨Projections.verifies_of_receiptOf hinv.replayable hevidence.evidence hreceipt, ?_⟩
  obtain ⟨row, l, -, -, rfl⟩ := Projections.receiptOf_eq_some hreceipt
  exact hid

omit [Keccak256] in
theorem receipts_verify_laterRun :
    let w := (@mockNode fixtureKeccak testGuarantee ⟨1, ⟨5, 0⟩⟩ ⟨∅, MOCK_MEASUREMENT⟩ ⟨[]⟩).run
      (readRun ++ laterRun)
    ∃ r, receipt w.state.2.1 4 testNow
        (hexEncode (@Intent.id fixtureKeccak (dummy 0)).bytes.toList) = .ok r ∧
      r.lifecycle = .finalProven ∧
        @Receipt.Verifies fixtureKeccak ⟨∅, MOCK_MEASUREMENT⟩ w.log r := by
  intro w
  have hproven : (receipt w.state.2.1 4 testNow
      (hexEncode (@Intent.id fixtureKeccak (dummy 0)).bytes.toList)).toOption.map
        Receipt.lifecycle = some .finalProven := by decide +kernel
  cases hok : receipt w.state.2.1 4 testNow
      (hexEncode (@Intent.id fixtureKeccak (dummy 0)).bytes.toList) with
  | error err => simp [hok, Except.toOption] at hproven
  | ok r =>
    rw [hok] at hproven
    exact ⟨r, rfl, Option.some.inj hproven, (@receipts_verify fixtureKeccak testGuarantee
      ⟨1, ⟨5, 0⟩⟩ ⟨∅, MOCK_MEASUREMENT⟩ ⟨[]⟩ (readRun ++ laterRun) _ 4 testNow r hok).1⟩

end Receipts

end Zequencer
