/-
# What a refused slot takes with it

The demo prover refuses a whole batch when one slot of it is to be refused.  A batch is no longer
than the batch size, so a slot that fails is close to a refused one, no refused slot is ever
proven, and where nothing is refused nothing fails.
-/
import Zequencer.Main.FailSlots
import Zequencer.Pipeline.Receipts
import Zequencer.Projection.Terminal

namespace Zequencer

variable {cfg : BatchConfig}

/-! ### The size of a batch -/

/-- Less than a batch is pending, and at most a batch is in flight. -/
def AtMostBatch (cfg : BatchConfig) : ProverTask → Prop
  | .waiting v => v.pending.length < cfg.batchSize
  | .draining v _ => v.pending.length < cfg.batchSize
  | .proving v _ _ taken _ => v.pending = [] ∧ taken.length ≤ cfg.batchSize
  | _ => True

lemma atMostBatch_flush {v : ProverVars} (h : v.pending.length ≤ cfg.batchSize) (k : AfterFlush) :
    AtMostBatch cfg (flush v k) := by
  by_cases hp : v.pending = []
  · rw [flush_eq_panicked.mpr hp]
    trivial
  · rw [flush_of_ne_nil k hp]
    exact ⟨rfl, h⟩

lemma atMostBatch_sizeCheck {v : ProverVars} (h : v.pending.length ≤ cfg.batchSize)
    (batch : List Entry) : AtMostBatch cfg (sizeCheck cfg v batch) := by
  rcases sizeCheck_cases cfg v batch with ⟨hlt, hcheck⟩ | ⟨-, hcheck⟩
  · rw [hcheck]
    exact hlt
  · rw [hcheck]
    exact atMostBatch_flush h _

lemma EntryMove.atMostBatch {v : ProverVars} {e : Entry} {batch : List Entry} {task : ProverTask}
    (hmove : EntryMove cfg v e batch task) (h : v.pending.length < cfg.batchSize) :
    AtMostBatch cfg task := by
  cases hmove with
  | pass => exact atMostBatch_sizeCheck h.le batch
  | commit =>
    refine atMostBatch_sizeCheck ?_ batch
    exact h.le
  | stale => exact h
  | gap | missing => trivial
  | attested a batch s =>
    refine atMostBatch_sizeCheck ?_ batch
    show (v.pending ++ [s]).length ≤ cfg.batchSize
    rw [List.length_append, List.length_singleton]
    exact h
  | failed =>
    refine atMostBatch_sizeCheck ?_ batch
    exact h.le
  | failedFlush =>
    refine atMostBatch_flush ?_ _
    exact h.le

lemma ProverMove.atMostBatch {log : Log} {task task' : ProverTask} {e : ProverEvent}
    {o : Option Entry} (hmove : ProverMove cfg log task e task' o) (hcfg : 1 ≤ cfg.batchSize)
    (h : AtMostBatch cfg task) : AtMostBatch cfg task' := by
  cases hmove with
  | idle => exact h
  | stop | scan | timer => trivial
  | readHead => exact hcfg
  | read | drained => exact h
  | entry v entry batch task hentry => exact hentry.atMostBatch h
  | tick v hp => exact atMostBatch_flush (le_of_lt h) _
  | proved v fromSlot toSlot taken k answer =>
    have hpending : v.pending.length < cfg.batchSize := by
      rw [h.1]
      exact hcfg
    cases k with
    | select | atNext => exact hpending
    | atSizeCheck batch => exact atMostBatch_sizeCheck hpending.le batch

/-! ### What the mocks answer -/

/-- The backend is to refuse the slot. -/
def MockProver.Refuses (backend : MockProver) (slot : ℕ) : Prop :=
  ∃ r ∈ backend.failRanges, r.1 ≤ slot ∧ slot ≤ r.2

section Answers

variable [Keccak256] {enclave : MockEnclave} {backend : MockProver} {log : Log}

/-- A batch is refused when its range meets one that is to be refused. -/
lemma MockProver.prove_of_isBatch (backend : MockProver) {fromSlot toSlot : ℕ}
    {taken : List CommittedSlot} (h : IsBatch fromSlot toSlot taken) :
    (∀ handle, backend.prove taken = some (.ok handle) →
        ¬ ∃ r ∈ backend.failRanges, fromSlot ≤ r.2 ∧ r.1 ≤ toSlot) ∧
      ∀ err, backend.prove taken = some (.error err) →
        ∃ r ∈ backend.failRanges, fromSlot ≤ r.2 ∧ r.1 ≤ toSlot := by
  have hpos : 0 < taken.length := List.length_pos_iff.mpr h.nonempty
  have hlen := h.length
  have hfirst := h.run.slot_head h.nonempty
  have hlast := h.run.slot_getLast h.nonempty
  have hprove : backend.prove taken =
      if backend.failRanges.any fun r => fromSlot ≤ r.2 ∧ toSlot ≥ r.1 then
        some (.error (.backend ("mock failure on " ++ toString fromSlot ++ "..=" ++
          toString toSlot)))
      else some (.ok (MockProver.handle taken)) := by
    have hto : (taken.getLast h.nonempty).slot = toSlot := by omega
    unfold MockProver.prove
    rw [List.head?_eq_some_head h.nonempty, List.getLast?_eq_some_getLast h.nonempty]
    simp only [hfirst, hto]
    rfl
  have hany : (backend.failRanges.any fun r => fromSlot ≤ r.2 ∧ toSlot ≥ r.1) = true ↔
      ∃ r ∈ backend.failRanges, fromSlot ≤ r.2 ∧ r.1 ≤ toSlot := by
    simp only [List.any_eq_true, decide_eq_true_eq, ge_iff_le]
  rw [hprove]
  constructor
  · intro handle hok hrange
    rw [if_pos (hany.mpr hrange)] at hok
    simp at hok
  · intro err herr
    by_contra hrange
    rw [if_neg (mt hany.mp hrange)] at herr
    simp at herr

/-- A failure in the log is a ruling of the mock enclave or an answer of the mock backend. -/
structure Refused (cfg : BatchConfig) (enclave : MockEnclave) (backend : MockProver) (log : Log)
    (e : Entry) : Prop where
  ruling : ∀ f, e = .attestFailed f →
    ∃ c ∈ log.commits, ruling c (enclave.answer c) = .attestFailed f
  outcome : ∀ f, e = .proveFailed f → f.toSlot < f.fromSlot + cfg.batchSize ∧
    f.fromSlot ≤ f.toSlot ∧ ∃ r ∈ backend.failRanges, f.fromSlot ≤ r.2 ∧ r.1 ≤ f.toSlot
  proof : ∀ p, e = .slotsProven p →
    ¬ ∃ r ∈ backend.failRanges, p.fromSlot ≤ r.2 ∧ r.1 ≤ p.toSlot

lemma Refused.append {e : Entry} (h : Refused cfg enclave backend log e) (log' : Log) :
    Refused cfg enclave backend (log ++ log') e where
  ruling := by
    intro f hf
    obtain ⟨c, hc, hruling⟩ := h.ruling f hf
    exact ⟨c, Log.mem_commits_append_left hc log', hruling⟩
  outcome := h.outcome
  proof := h.proof

lemma refused_of_attester {task : AttesterTask} {e : AttesterEvent} {x : Entry}
    (hreads : AttesterReads log task)
    (hx : (attesterStep log task (enclave.event task e)).2 = some x) :
    Refused cfg enclave backend log x := by
  have hmove := attesterStep_move log task (enclave.event task e)
  rw [hx] at hmove
  generalize (attesterStep log task (enclave.event task e)).1 = task' at hmove
  generalize he : enclave.event task e = e' at hmove
  cases hmove with
  | rule cursor pos c batch answer =>
    have hc : c ∈ log.commits := Log.mem_commits_of_getElem? (hreads _ List.mem_cons_self)
    have hanswer : answer = enclave.answer c := by
      cases e <;> simp [MockEnclave.event] at he
      exact he.symm
    have hruling := ruling_ruling? c answer
    refine ⟨fun f hf => ⟨c, hc, by rw [← hanswer]; exact hf⟩, fun f hf => ?_, fun p hp => ?_⟩
    · rw [hf] at hruling
      simp [Entry.ruling?] at hruling
    · rw [hp] at hruling
      simp [Entry.ruling?] at hruling

lemma refused_of_prover {task : ProverTask} {e : ProverEvent} {x : Entry}
    (hbatches : ProverBatches log task) (hsize : AtMostBatch cfg task)
    (hx : (proverStep cfg log task (backend.event task e)).2 = some x) :
    Refused cfg enclave backend log x := by
  have hmove := proverStep_move cfg log task (backend.event task e)
  rw [hx] at hmove
  generalize (proverStep cfg log task (backend.event task e)).1 = task' at hmove
  generalize he : backend.event task e = e' at hmove
  cases hmove with
  | proved v fromSlot toSlot taken k answer =>
    obtain ⟨-, hbatch, -⟩ := hbatches
    have hanswer : backend.prove taken = some answer := by
      cases e with
      | proved _ =>
        rw [MockProver.event] at he
        cases hprove : backend.prove taken with
        | none => simp [hprove] at he
        | some answer' =>
          rw [hprove] at he
          exact congrArg some (ProverEvent.proved.inj he)
      | _ => simp [MockProver.event] at he
    obtain ⟨hok, herror⟩ := backend.prove_of_isBatch hbatch
    have hpos : 0 < taken.length := List.length_pos_iff.mpr hbatch.nonempty
    have hlen := hbatch.length
    have htaken := hsize.2
    cases answer with
    | ok handle =>
      refine ⟨fun f hf => by simp [outcome] at hf, fun f hf => by simp [outcome] at hf, ?_⟩
      intro p hp
      obtain rfl := Entry.slotsProven.inj hp
      exact hok handle hanswer
    | error err =>
      refine ⟨fun f hf => by simp [outcome] at hf, ?_, fun p hp => by simp [outcome] at hp⟩
      intro f hf
      obtain rfl := Entry.proveFailed.inj hf
      refine ⟨?_, ?_, herror err hanswer⟩
      · show toSlot < fromSlot + cfg.batchSize
        omega
      · show fromSlot ≤ toSlot
        omega

end Answers

/-! ### Runs -/

section Runs

variable [Keccak256] {g : GuaranteeConfig} {enclave : MockEnclave} {backend : MockProver}
  {log : Log}

/-- What the pipeline over the mocks keeps of failures. -/
structure RefusalInv (cfg : BatchConfig) (enclave : MockEnclave) (backend : MockProver)
    (log : Log) (s : PipelineState) : Prop where
  refused : ∀ e ∈ log, Refused cfg enclave backend log e
  size : AtMostBatch cfg s.2.2.2

lemma RefusalInv.append {s s' : PipelineState} {o : Option Entry}
    (h : RefusalInv cfg enclave backend log s) (hsize : AtMostBatch cfg s'.2.2.2)
    (ho : ∀ x, o = some x → Refused cfg enclave backend log x) :
    RefusalInv cfg enclave backend (log ++ o.toList) s' where
  refused := by
    intro e he
    refine Refused.append ?_ _
    rcases List.mem_append.mp he with he | he
    · exact h.refused e he
    · exact ho e (Option.mem_toList.mp he)
  size := hsize

lemma mockPipeline_upholds_refusals (g : GuaranteeConfig) (cfg : BatchConfig)
    (hcfg : 1 ≤ cfg.batchSize) (enclave : MockEnclave) (backend : MockProver) :
    (mockPipeline g cfg enclave backend).Upholds (fun _ _ => False) PipelineWrites
      (fun log s => (PipelineInv g log s ∧ EvidenceInv enclave backend log s) ∧
        RefusalInv cfg enclave backend log s) := by
  refine (mockPipeline_upholds g cfg enclave backend).strengthen ⟨by simp, trivial⟩ ?_
    fun _ _ _ _ _ => False.elim
  rintro log s (e | e | e | e) ⟨hinv, hevidence⟩ h
  · refine h.append h.size fun x hx => ?_
    have hwrites := (sequencer_upholds g).emits log s.1 e x ⟨hinv.replayable, hinv.tracks⟩ hx
    rcases hwrites with ⟨m, rfl⟩ | ⟨c, rfl, -⟩ <;> exact ⟨by simp, by simp, by simp⟩
  · refine h.append h.size fun x hx => ?_
    obtain ⟨r, rfl⟩ := gate_upholds_history.emits log s.2.1 e x ⟨hinv.gate, hinv.history⟩ hx
    exact ⟨by simp, by simp, by simp⟩
  · exact h.append h.size fun x hx => refused_of_attester hinv.attester hx
  · refine h.append ?_ fun x hx => refused_of_prover hevidence.batches h.size hx
    exact (proverStep_move cfg log s.2.2.2 _).atMostBatch hcfg h.size

lemma mockNode_upholds_refusals (g : GuaranteeConfig) (cfg : BatchConfig)
    (hcfg : 1 ≤ cfg.batchSize) (enclave : MockEnclave) (backend : MockProver) :
    (mockNode g cfg enclave backend).Upholds (fun _ _ => False) PipelineWrites
      (fun log s => ((PipelineInv g log s.1 ∧ EvidenceInv enclave backend log s.1) ∧
        RefusalInv cfg enclave backend log s.1) ∧ ProjectorTracks g log s.2) := by
  have hall := (mockPipeline_upholds_refusals g cfg hcfg enclave backend).par
    (projector_upholds (g := g)) (fun _ _ _ _ _ _ _ => trivial) (fun _ _ _ _ _ _ hx => hx)
  exact hall.mono (fun _ _ _ _ => False.elim) fun _ _ hx => hx.resolve_right not_false

/-! ### What status reports -/

omit [Keccak256] in
lemma Projections.slotRow_failed {slot : ℕ} {sr : SlotRow} {reason : String}
    (hsr : (ofLog g log).slots.lookup slot = some sr) (hstage : sr.stage = .failed reason) :
    (∃ f, .attestFailed f ∈ log ∧ f.slot = slot ∧ f.reason = reason) ∨
      ∃ f, .proveFailed f ∈ log ∧ f.fromSlot ≤ slot ∧ slot ≤ f.toSlot ∧ f.reason = reason := by
  induction log using List.reverseRecOn generalizing sr with
  | nil => simp [ofLog, applyBatch, Log.readFrom, new] at hsr
  | append_singleton log e ih =>
    have hkeep : ∀ sr', (ofLog g log).slots.lookup slot = some sr' → sr'.stage = .failed reason →
        (∃ f, .attestFailed f ∈ log ++ [e] ∧ f.slot = slot ∧ f.reason = reason) ∨
          ∃ f, .proveFailed f ∈ log ++ [e] ∧ f.fromSlot ≤ slot ∧ slot ≤ f.toSlot ∧
            f.reason = reason := by
      intro sr' hsr' hstage'
      rcases ih hsr' hstage' with ⟨f, hf, hrest⟩ | ⟨f, hf, hrest⟩
      · exact Or.inl ⟨f, List.mem_append_left _ hf, hrest⟩
      · exact Or.inr ⟨f, List.mem_append_left _ hf, hrest⟩
    rw [ofLog_append, lookup_slots_apply] at hsr
    cases e with
    | slotCommitted c =>
      rw [SlotRow.onEntry] at hsr
      split_ifs at hsr
      · obtain rfl := Option.some.inj hsr
        simp [SlotRow.opened] at hstage
      · exact hkeep sr hsr hstage
    | slotAttested a =>
      rw [SlotRow.onEntry] at hsr
      split_ifs at hsr
      · obtain ⟨sr', hsr', rfl⟩ := Option.map_eq_some_iff.mp hsr
        rw [SlotRow.attested] at hstage
        split_ifs at hstage
        exact hkeep sr' hsr' hstage
      · exact hkeep sr hsr hstage
    | slotsProven p =>
      rw [SlotRow.onEntry] at hsr
      split_ifs at hsr
      · obtain ⟨sr', hsr', rfl⟩ := Option.map_eq_some_iff.mp hsr
        rw [SlotRow.proven] at hstage
        split_ifs at hstage
        exact hkeep sr' hsr' hstage
      · exact hkeep sr hsr hstage
    | attestFailed f =>
      rw [SlotRow.onEntry] at hsr
      split_ifs at hsr with hslot
      · obtain ⟨sr', -, rfl⟩ := Option.map_eq_some_iff.mp hsr
        exact Or.inl ⟨f, by simp, hslot.symm, SlotStage.failed.inj hstage⟩
      · exact hkeep sr hsr hstage
    | proveFailed f =>
      rw [SlotRow.onEntry] at hsr
      split_ifs at hsr with hin
      · obtain ⟨sr', -, rfl⟩ := Option.map_eq_some_iff.mp hsr
        exact Or.inr ⟨f, by simp, hin.1, hin.2, SlotStage.failed.inj hstage⟩
      · exact hkeep sr hsr hstage
    | _ => exact hkeep sr hsr hstage

/-- An enclave that is to fail nowhere attests every slot under its commitment. -/
lemma ruling_ne_attestFailed {c : SlotCommitted} (henclave : enclave.failSlots = ∅)
    (hc : c.commitment = commit c.slot c.intents) (f : AttestFailed) :
    ruling c (enclave.answer c) ≠ .attestFailed f := by
  have hsame : commit (UInt64.ofNat c.slot).toNat c.intents = c.commitment := by
    rw [commit_toNat_ofNat, hc]
  have hanswer : enclave.answer c = .ok ⟨encodeQuote (UInt64.ofNat c.slot) c.commitment
      enclave.measurement, Signature.mockOver c.commitment.bytes.toList⟩ := by
    rw [MockEnclave.answer, MockEnclave.attest, if_neg (by simp [henclave]),
      if_neg (not_not.mpr hsame)]
  unfold ruling
  rw [if_neg (not_not.mpr hc.symm), hanswer]
  simp

omit [Keccak256] in
lemma le_of_failSlots {var : Except VarError (List Char)} {ranges : List (ℕ × ℕ)}
    (h : failSlots var = .ok ranges) : ∀ r ∈ ranges, r.1 ≤ r.2 := by
  cases var with
  | error err =>
    obtain rfl := Except.ok.inj h
    simp
  | ok spec =>
    rw [failSlots, ranges_eq, mapM_eq_ok_iff, List.forall₂_map_left_iff] at h
    intro r hr
    obtain ⟨i, hi, rfl⟩ := List.getElem_of_mem hr
    have hspells := parseRange_trim_eq_ok_iff.mp (h.get (h.length_eq ▸ hi) hi)
    obtain ⟨-, -, -, -, -, -, -, -, -, hle⟩ := hspells
    exact hle

lemma Refused.near {f : ProveFailed} (h : Refused cfg enclave backend log (.proveFailed f))
    (hranges : ∀ r ∈ backend.failRanges, r.1 ≤ r.2) {slot : ℕ} (hfrom : f.fromSlot ≤ slot)
    (hto : slot ≤ f.toSlot) :
    ∃ refused, backend.Refuses refused ∧ slot < refused + cfg.batchSize ∧
      refused < slot + cfg.batchSize := by
  obtain ⟨hsize, hle, r, hr, hmeets, hmeets'⟩ := h.outcome f rfl
  have hrange := hranges r hr
  exact ⟨max f.fromSlot r.1, ⟨r, hr, le_max_right _ _, max_le hmeets hrange⟩, by omega, by omega⟩

/-- **Failures stay close to what is to be refused.**  In every run of the demo, whatever
`FAIL_SLOTS` is set to and whatever the interleaving, crashes and lag: no intent in a slot that is
to be refused is reported as proven, and an intent that is reported as failed is in a slot less
than one batch away from such a slot. -/
theorem failures_near_refusals (var : Except VarError (List Char)) (ranges : List (ℕ × ℕ))
    (hvar : failSlots var = .ok ranges) (es : List (PipelineEvent ⊕ ProjectorEvent))
    (path : String) (head : ℕ) (s : StatusResponse)
    (h : status ((demo ranges).run es).state.2.1 head path = .ok s) :
    (s.lifecycle = .finalProven → ∃ slot, s.slot = some slot ∧
        ∀ r ∈ ranges, ¬ (r.1 ≤ slot ∧ slot ≤ r.2)) ∧
      ∀ reason, s.lifecycle = .failed reason → ∃ slot, s.slot = some slot ∧
        ∃ r ∈ ranges, ∃ refused, (r.1 ≤ refused ∧ refused ≤ r.2) ∧
          slot < refused + demoBatch.batchSize ∧ refused < slot + demoBatch.batchSize := by
  obtain ⟨⟨⟨hinv, -⟩, hrefusal⟩, k, -, hp, -⟩ := (mockNode_upholds_refusals demoGuarantee
    demoBatch (by decide) .new (.failingOn ranges)).run es
  have hread : ((demo ranges).run es).state.2.1 = _ := hp
  rw [hread] at h
  set log : Log := ((demo ranges).run es).log with hlog
  obtain ⟨id, -, hstatus⟩ := status_eq_ok h
  -- the row of the slot of an intent at a stage that ends its way
  have hslot : s.lifecycle.Terminal → s.lifecycle ≠ .expired → ∃ slot sr, s.slot = some slot ∧
      (Projections.ofLog demoGuarantee (log.take k)).slots.lookup slot = some sr ∧
        sr.stage.lifecycle = s.lifecycle := by
    intro hterminal hne
    obtain ⟨row, hrow, -, hs⟩ := Projections.statusOf_eq_some hstatus
    have hreported : (Projections.ofLog demoGuarantee (log.take k)).reported id = some _ :=
      congrArg (Option.map StatusResponse.lifecycle) hstatus
    obtain ⟨row', c, sr, hrow', -, -, -, hslot, hsr, hstage⟩ :=
      Projections.exists_slot_of_terminal hreported hterminal hne
    obtain rfl := Option.some.inj (hrow.symm.trans hrow')
    exact ⟨c.slot, sr, hs ▸ hslot, hsr, hstage⟩
  have hrefused : ∀ e ∈ log.take k, Refused demoBatch .new (.failingOn ranges) log e :=
    fun e he => hrefusal.refused e (List.mem_of_mem_take he)
  constructor
  · intro hproven
    obtain ⟨slot, sr, hs, hsr, hstage⟩ := hslot (hproven ▸ trivial) (by simp [hproven])
    have hat : sr.stage = .proven :=
      SlotStage.lifecycle_injective (hstage.trans (hproven.trans rfl))
    obtain ⟨pr, hpr, -⟩ := (Projections.slotRow_evident _ _ slot sr hsr).proven hat
    obtain ⟨hmem, hfrom, hto⟩ := Projections.slotRow_proved hsr hpr
    refine ⟨slot, hs, fun r hr hin => ?_⟩
    exact (hrefused _ hmem).proof _ rfl ⟨r, hr, hfrom.trans hin.2, hin.1.trans hto⟩
  · intro reason hfailed
    obtain ⟨slot, sr, hs, hsr, hstage⟩ := hslot (hfailed ▸ trivial) (by simp [hfailed])
    have hat : sr.stage = .failed reason :=
      SlotStage.lifecycle_injective (hstage.trans (hfailed.trans rfl))
    rcases Projections.slotRow_failed hsr hat with
      ⟨f, hf, -, -⟩ | ⟨f, hf, hfrom, hto, -⟩
    · -- every slot of the log attests
      obtain ⟨c, hc, hruling⟩ := (hrefused _ hf).ruling f rfl
      obtain ⟨_, _, -, hlaw⟩ := hinv.replayable.law_of_mem hc
      exact absurd hruling (ruling_ne_attestFailed rfl hlaw.commitment f)
    · obtain ⟨refused, ⟨r, hr, hin⟩, hnear⟩ :=
        (hrefused _ hf).near (le_of_failSlots hvar) hfrom hto
      exact ⟨slot, hs, r, hr, refused, hin, hnear⟩

/-- The end of a run of the demo: the batch is closed by the timer, and the projector catches
up. -/
def timerFlush : List PipelineEvent :=
  [.inr (.inr (.inr .process)), .inr (.inr (.inr .tick)),
    .inr (.inr (.inr (.proved (.ok ⟨.mock, [3], [4], Bytes.ofNat 32 5⟩))))]

def refusedRun : List (PipelineEvent ⊕ ProjectorEvent) :=
  (provenRun.dropLast ++ timerFlush).map Sum.inl ++
    [.inr .doorbell, .inr (.readTail none), .inr .apply]

omit [Keccak256] in
theorem failures_near_refusals_refusedRun :
    ∃ s, status ((@demo fixtureKeccak [(0, 4)]).run refusedRun).state.2.1 4
        (hexEncode (@Intent.id fixtureKeccak (dummy 0)).bytes.toList) = .ok s ∧
      ∃ slot, s.slot = some slot ∧ ∃ r ∈ [(0, 4)], ∃ refused, (r.1 ≤ refused ∧ refused ≤ r.2) ∧
        slot < refused + demoBatch.batchSize ∧ refused < slot + demoBatch.batchSize := by
  have hvar : failSlots (.ok " 0 - +4,".toList) = .ok [(0, 4)] := by decide +kernel
  have hs : status ((@demo fixtureKeccak [(0, 4)]).run refusedRun).state.2.1 4
      (hexEncode (@Intent.id fixtureKeccak (dummy 0)).bytes.toList) =
        .ok ⟨@Intent.id fixtureKeccak (dummy 0), .failed "prover backend: mock failure on 0..=0",
          some 0⟩ := by decide +kernel
  exact ⟨_, hs, (@failures_near_refusals fixtureKeccak _ _ hvar refusedRun _ _ _ hs).2 _ rfl⟩

end Runs

end Zequencer
