/-
# All evidence in the log verifies offline

Over the mock enclave and the mock backend, every quote in the log is for the contents and
the commitment of the slot it names, and every proof is over the slots of its range, in
order.  Nothing a schedule does can pull the two apart: a ruling is made on the committed
slot itself, and what waits to be proved is kept under its number, in sequence.
-/
import Zequencer.Attester.Quotes
import Zequencer.Pipeline.Reachable
import Zequencer.Prover.Batches
import Zequencer.Prover.Handles

namespace Zequencer

/-! ### The slots of a range -/

/-- The committed slots of a range, in log order. -/
def Log.slots (log : Log) (fromSlot toSlot : ℕ) : List CommittedSlot :=
  (log.commits.filter fun c => fromSlot ≤ c.slot ∧ c.slot ≤ toSlot).map SlotCommitted.contents

lemma filter_range_eq_range' {n a b : ℕ} (h : b < n) :
    (List.range n).filter (fun i => a ≤ i ∧ i ≤ b) = List.range' a (b + 1 - a) := by
  have hfilter : ((List.range n).filter fun i => a ≤ i ∧ i ≤ b).Pairwise (· < ·) :=
    List.pairwise_lt_range.filter _
  have hrange : (List.range' a (b + 1 - a)).Pairwise (· < ·) := List.pairwise_lt_range'
  refine List.Perm.eq_of_pairwise (fun i j _ _ hij hji => absurd hij hji.asymm) hfilter hrange ?_
  refine (List.perm_ext_iff_of_nodup hfilter.nodup hrange.nodup).mpr fun i => ?_
  rw [List.mem_filter, List.mem_range, List.mem_range'_1, decide_eq_true_iff]
  omega

lemma Log.Numbered.map_slot_slots {log : Log} (h : Log.Numbered log) {fromSlot toSlot : ℕ}
    (hto : toSlot < log.commits.length) :
    (log.slots fromSlot toSlot).map CommittedSlot.slot =
      List.range' fromSlot (toSlot + 1 - fromSlot) := by
  calc (log.slots fromSlot toSlot).map CommittedSlot.slot
      = (log.commits.filter fun c => fromSlot ≤ c.slot ∧ c.slot ≤ toSlot).map
          SlotCommitted.slot := by
        rw [Log.slots, List.map_map]
        rfl
    _ = (log.commits.map SlotCommitted.slot).filter
          fun i => fromSlot ≤ i ∧ i ≤ toSlot := by
        rw [List.filter_map]
        rfl
    _ = List.range' fromSlot (toSlot + 1 - fromSlot) := by
        rw [h, filter_range_eq_range' hto]

lemma Log.committed_of_mem_slots {log : Log} {fromSlot toSlot : ℕ} {s : CommittedSlot}
    (h : s ∈ log.slots fromSlot toSlot) : Committed log s := by
  obtain ⟨c, hc, rfl⟩ := List.mem_map.mp h
  exact ⟨c, (List.mem_filter.mp hc).1, rfl⟩

lemma Committed.eq_of_slot_eq {log : Log} (hnum : Log.Numbered log) {s t : CommittedSlot}
    (hs : Committed log s) (ht : Committed log t) (h : s.slot = t.slot) : s = t := by
  obtain ⟨c, hc, rfl⟩ := hs
  obtain ⟨d, hd, rfl⟩ := ht
  obtain rfl := hnum.eq_of_slot_eq hc hd h
  rfl

/-- A batch of committed slots is the range of the log. -/
lemma IsBatch.eq_slots {log : Log} {fromSlot toSlot : ℕ} {taken : List CommittedSlot}
    (h : IsBatch fromSlot toSlot taken) (hnum : Log.Numbered log)
    (hfrom : ∀ s ∈ taken, Committed log s) (hto : toSlot < log.commits.length) :
    taken = log.slots fromSlot toSlot := by
  have hlen := h.length
  have hmap : taken.map CommittedSlot.slot =
      (log.slots fromSlot toSlot).map CommittedSlot.slot := by
    rw [hnum.map_slot_slots hto, h.run]
    congr 1
    omega
  have hlength : taken.length = (log.slots fromSlot toSlot).length := by
    simpa using congrArg List.length hmap
  refine List.ext_getElem hlength fun i hi hi' => ?_
  refine (hfrom _ (List.getElem_mem hi)).eq_of_slot_eq hnum
    (Log.committed_of_mem_slots (List.getElem_mem hi')) ?_
  have hget := congrArg (fun l : List ℕ => l[i]?) hmap
  simpa [hi, hi'] using hget

section Evidence

variable [Keccak256] {g : GuaranteeConfig} {cfg : BatchConfig} {enclave : MockEnclave}
  {backend : MockProver} {log : Log}

/-! ### What the mocks write -/

omit [Keccak256] in
lemma isBatch_slot_lt {fromSlot toSlot : ℕ} {taken : List CommittedSlot}
    (h : IsBatch fromSlot toSlot taken) (hnum : Log.Numbered log)
    (hfrom : ∀ s ∈ taken, Committed log s) : toSlot < log.commits.length := by
  have hpos : 0 < taken.length := List.length_pos_iff.mpr h.nonempty
  have hlen := h.length
  have hlast := h.run.slot_getElem (i := taken.length - 1) (by omega)
  obtain ⟨c, hc, hcs⟩ := hfrom _ (List.getElem_mem (n := taken.length - 1) (by omega))
  have hslot : c.slot = toSlot := by
    rw [← hcs] at hlast
    have hcslot : c.contents.slot = c.slot := rfl
    omega
  exact hslot ▸ hnum.slot_lt hc

lemma MockProver.verify_of_prove {slots : List CommittedSlot} {handle : ProofHandle}
    (h : backend.prove slots = some (.ok handle)) : MockProver.verify handle slots = .ok () :=
  MockProver.verify_eq_ok_iff.mpr (MockProver.eq_handle_of_prove h)

/-- The evidence in an entry is for what the log holds. -/
structure Evidenced (enclave : MockEnclave) (backend : MockProver) (log : Log) (e : Entry) :
    Prop where
  quote : ∀ a, e = .slotAttested a →
    ∃ c ∈ log.commits, ruling c (enclave.answer c) = .slotAttested a
  proof : ∀ p, e = .slotsProven p → ∃ taken, IsBatch p.fromSlot p.toSlot taken ∧
    (∀ s ∈ taken, Committed log s) ∧ backend.prove taken = some (.ok p.proof)

lemma Evidenced.append {e : Entry} (h : Evidenced enclave backend log e) (log' : Log) :
    Evidenced enclave backend (log ++ log') e where
  quote := by
    intro a ha
    obtain ⟨c, hc, hruling⟩ := h.quote a ha
    exact ⟨c, Log.mem_commits_append_left hc log', hruling⟩
  proof := by
    intro p hp
    obtain ⟨taken, hbatch, hfrom, hprove⟩ := h.proof p hp
    exact ⟨taken, hbatch, fun s hs => (hfrom s hs).append log', hprove⟩

lemma evidenced_of_attester {task : AttesterTask} {e : AttesterEvent} {x : Entry}
    (hreads : AttesterReads log task)
    (hx : (attesterStep log task (enclave.event task e)).2 = some x) :
    Evidenced enclave backend log x := by
  have hmove := attesterStep_move log task (enclave.event task e)
  rw [hx] at hmove
  generalize (attesterStep log task (enclave.event task e)).1 = task' at hmove
  generalize he : enclave.event task e = e' at hmove
  cases hmove with
  | rule cursor pos c batch answer =>
    have hc : c ∈ log.commits := Log.mem_commits_of_getElem? (hreads _ List.mem_cons_self)
    -- the answer is the enclave's own
    have hanswer : answer = enclave.answer c := by
      cases e <;> simp [MockEnclave.event] at he
      exact he.symm
    refine ⟨fun a ha => ⟨c, hc, ?_⟩, fun p hp => ?_⟩
    · rw [← hanswer]
      exact ha
    · have hruling := ruling_ruling? c answer
      rw [hp] at hruling
      simp [Entry.ruling?] at hruling

lemma evidenced_of_prover {task : ProverTask} {e : ProverEvent} {x : Entry}
    (hbatches : ProverBatches log task)
    (hx : (proverStep cfg log task (backend.event task e)).2 = some x) :
    Evidenced enclave backend log x := by
  have hmove := proverStep_move cfg log task (backend.event task e)
  rw [hx] at hmove
  generalize (proverStep cfg log task (backend.event task e)).1 = task' at hmove
  generalize he : backend.event task e = e' at hmove
  cases hmove with
  | proved v fromSlot toSlot taken k answer =>
    obtain ⟨-, hbatch, hfrom⟩ := hbatches
    have hanswer : backend.prove taken = some answer := by
      cases e with
      | proved _ =>
        rw [MockProver.event] at he
        cases hprove : backend.prove taken with
        | none => simp [hprove] at he
        | some answer' =>
          rw [hprove] at he
          exact congrArg some (ProverEvent.proved.inj he)
      | _ => simp [MockProver.event] at he
    refine ⟨fun a ha => ?_, fun p hp => ⟨taken, ?_⟩⟩
    · have hruling := outcome_ruling? fromSlot toSlot answer
      rw [ha] at hruling
      simp [Entry.ruling?] at hruling
    · cases answer with
      | error err => simp [outcome] at hp
      | ok proof =>
        obtain rfl := Entry.slotsProven.inj hp
        exact ⟨hbatch, hfrom, hanswer⟩

/-! ### Runs -/

/-- What the pipeline over the mocks keeps. -/
structure EvidenceInv (enclave : MockEnclave) (backend : MockProver) (log : Log)
    (s : PipelineState) : Prop where
  evidence : ∀ e ∈ log, Evidenced enclave backend log e
  batches : ProverBatches log s.2.2.2

lemma EvidenceInv.append {s s' : PipelineState} {o : Option Entry}
    (h : EvidenceInv enclave backend log s)
    (hbatches : ProverBatches (log ++ o.toList) s'.2.2.2)
    (ho : ∀ x, o = some x → Evidenced enclave backend log x) :
    EvidenceInv enclave backend (log ++ o.toList) s' where
  evidence := by
    intro e he
    refine Evidenced.append ?_ _
    rcases List.mem_append.mp he with he | he
    · exact h.evidence e he
    · exact ho e (Option.mem_toList.mp he)
  batches := hbatches

lemma mockPipeline_upholds (g : GuaranteeConfig) (cfg : BatchConfig) (enclave : MockEnclave)
    (backend : MockProver) :
    (mockPipeline g cfg enclave backend).Upholds (fun _ _ => False) PipelineWrites
      (fun log s => PipelineInv g log s ∧ EvidenceInv enclave backend log s) := by
  refine ((pipeline_upholds g cfg).driven (mockEvent enclave backend)).strengthen
    ⟨by simp, trivial⟩ ?_ fun _ _ _ _ _ => False.elim
  rintro log s (e | e | e | e) hinv h
  · -- misses and slots
    refine h.append (h.batches.append _) fun x hx => ?_
    have hwrites := (sequencer_upholds g).emits log s.1 e x ⟨hinv.replayable, hinv.tracks⟩ hx
    rcases hwrites with ⟨m, rfl⟩ | ⟨c, rfl, -⟩ <;> exact ⟨by simp, by simp⟩
  · -- admitted intents
    refine h.append (h.batches.append _) fun x hx => ?_
    obtain ⟨r, rfl⟩ := gate_upholds_history.emits log s.2.1 e x ⟨hinv.gate, hinv.history⟩ hx
    exact ⟨by simp, by simp⟩
  · exact h.append (h.batches.append _) fun x hx => evidenced_of_attester hinv.attester hx
  · refine h.append ?_ fun x hx => evidenced_of_prover h.batches hx
    exact (proverStep_move cfg log s.2.2.2 _).batches hinv.prover h.batches

/-- **All evidence in the log verifies offline.**  In every run over the mock enclave and
the mock backend, whatever the interleaving, the failing slots and ranges, the batch size
and the restarts: every attestation is accepted by a holder who pins the enclave's build,
against number, commitment and contents of the one slot it names; and every proof is
accepted against the committed slots of its range, in order and none missing. -/
theorem evidence_verifies (g : GuaranteeConfig) (cfg : BatchConfig) (enclave : MockEnclave)
    (backend : MockProver) (es : List PipelineEvent) :
    let log : Log := ((mockPipeline g cfg enclave backend).run es).log
    (∀ a, .slotAttested a ∈ log → (∃ c ∈ log.commits, c.slot = a.slot) ∧
        ∀ c ∈ log.commits, c.slot = a.slot →
          verifyPreconf (MockVerifier.pinning enclave.measurement).verifier (a.claim c)
            c.intents = .ok ()) ∧
      ∀ p, .slotsProven p ∈ log → p.fromSlot ≤ p.toSlot ∧
        (log.slots p.fromSlot p.toSlot).map CommittedSlot.slot =
          List.range' p.fromSlot (p.toSlot + 1 - p.fromSlot) ∧
        MockProver.verify p.proof (log.slots p.fromSlot p.toSlot) = .ok () := by
  intro log
  obtain ⟨hinv, hevidence⟩ : PipelineInv g log _ ∧ EvidenceInv enclave backend log _ :=
    (mockPipeline_upholds g cfg enclave backend).run es
  have hnum := hinv.numbered
  constructor
  · intro a ha
    obtain ⟨c, hc, hruling⟩ := (hevidence.evidence _ ha).quote a rfl
    have hslot : a.slot = c.slot := (commitment_of_ruling hruling).1
    refine ⟨⟨c, hc, hslot.symm⟩, fun c' hc' hslot' => ?_⟩
    obtain rfl := hnum.eq_of_slot_eq hc' hc (hslot'.trans hslot)
    exact verifyPreconf_of_ruling hruling
  · intro p hp
    obtain ⟨taken, hbatch, hfrom, hprove⟩ := (hevidence.evidence _ hp).proof p rfl
    have hto := isBatch_slot_lt hbatch hnum hfrom
    have hpos : 0 < taken.length := List.length_pos_iff.mpr hbatch.nonempty
    have hlen := hbatch.length
    refine ⟨by omega, hnum.map_slot_slots hto, ?_⟩
    rw [← hbatch.eq_slots hnum hfrom hto]
    exact MockProver.verify_of_prove hprove

end Evidence

/-- Keccak-256, on the fixtures, on the commitment of a slot that has the first one, and on what
the mock enclave signs for it. -/
@[reducible] def evidenceKeccak : Keccak256 where
  digest bytes :=
    if bytes = utf8Bytes "MOCKSIG" ++ sealedSlot.commitment.bytes.toList then
      Bytes.ofNat 32 0x96d4394b2175ef533df5f9c488cb22696db02da7149d04196b71327593281429
    else handleKeccak.digest bytes

/-- The attestation and the proof of a run that gets to both. -/
theorem evidence_verifies_provenRun :
    let log : Log := ((@mockPipeline evidenceKeccak testGuarantee ⟨1, ⟨5, 0⟩⟩
      ⟨∅, MOCK_MEASUREMENT⟩ ⟨[]⟩).run provenRun).log
    (∃ a, .slotAttested a ∈ log ∧ ∃ c ∈ log.commits, c.intents = sealedSlot.intents ∧
        @verifyPreconf evidenceKeccak
          (@MockVerifier.verifier evidenceKeccak (.pinning MOCK_MEASUREMENT)) (a.claim c)
            c.intents = .ok ()) ∧
      ∃ p, .slotsProven p ∈ log ∧
        @MockProver.verify evidenceKeccak p.proof [sealedSlot] = .ok () := by
  intro log
  obtain ⟨hquotes, hproofs⟩ := @evidence_verifies evidenceKeccak testGuarantee ⟨1, ⟨5, 0⟩⟩
    ⟨∅, MOCK_MEASUREMENT⟩ ⟨[]⟩ provenRun
  have hattested : .slotAttested ⟨0, encodeQuote 0 sealedSlot.commitment MOCK_MEASUREMENT,
      @Signature.mockOver evidenceKeccak sealedSlot.commitment.bytes.toList⟩ ∈ log := by
    decide +kernel
  have hproven : .slotsProven ⟨0, 0, @MockProver.handle evidenceKeccak [sealedSlot]⟩ ∈ log := by
    decide +kernel
  have hintents : ∀ c ∈ log.commits, c.intents = sealedSlot.intents := by decide +kernel
  have hslots : log.slots 0 0 = [sealedSlot] := by decide +kernel
  obtain ⟨⟨c, hc, hslot⟩, haccepted⟩ := hquotes _ hattested
  obtain ⟨-, -, hverified⟩ := hproofs _ hproven
  refine ⟨⟨_, hattested, c, hc, hintents c hc, haccepted c hc hslot⟩, _, hproven, ?_⟩
  rw [← hslots]
  exact hverified

end Zequencer
