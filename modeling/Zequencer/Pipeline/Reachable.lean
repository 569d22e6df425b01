/-
# What the pipeline can produce

The stages promise each other what they rely on, whatever the schedule and however their
recoveries overlap: so every log of the pipeline is replayable, rulings come after the slots
they are about, and outcomes end in committed slots.
-/
import Zequencer.Prover.Ranges
import Zequencer.Sequencer.Replay
import Zequencer.Source.Pipeline

namespace Zequencer

section Pipeline

variable [Keccak256] {g : GuaranteeConfig} {cfg : BatchConfig} {log : Log} {e : Entry}

/-! ### What each stage writes, as the others see it -/

omit [Keccak256] in
lemma CommitsNext.of_none (h : e.committed? = none) : CommitsNext log e := by
  simp [CommitsNext, h]

omit [Keccak256] in
lemma SequencerWrites.commitsNext (h : SequencerWrites log e) : CommitsNext log e := by
  rcases h with ⟨x, rfl⟩ | ⟨c, rfl, hc⟩
  · exact CommitsNext.of_none rfl
  · rintro c' hc'
    obtain rfl := Option.some.inj hc'
    exact hc

omit [Keccak256] in
lemma SequencerWrites.kinds (h : SequencerWrites log e) :
    e.received? = none ∧ e.ruling? = none ∧ e.settledTo? = none := by
  rcases h with ⟨x, rfl⟩ | ⟨c, rfl, hc⟩ <;> exact ⟨rfl, rfl, rfl⟩

lemma AttesterWrites.kinds (h : AttesterWrites log e) :
    e.received? = none ∧ e.committed? = none ∧ e.settledTo? = none := by
  obtain ⟨c, -, answer, rfl⟩ := h
  have hruling := ruling_ruling? c answer
  cases hr : ruling c answer <;> simp [hr, Entry.ruling?] at hruling <;> exact ⟨rfl, rfl, rfl⟩

omit [Keccak256] in
lemma ProverWrites.kinds (h : ProverWrites log e) :
    e.received? = none ∧ e.committed? = none ∧ e.ruling? = none := by
  obtain ⟨fromSlot, toSlot, answer, rfl, -⟩ := h
  cases answer <;> exact ⟨rfl, rfl, rfl⟩

/-! ### The invariant -/

/-- What the pipeline writes. -/
def PipelineWrites (log : Log) (e : Entry) : Prop :=
  SequencerWrites log e ∨ (∃ r, e = .intentReceived r) ∨ AttesterWrites log e ∨
    ProverWrites log e

/-- What the pipeline keeps, on the log and in each stage. -/
structure PipelineInv (g : GuaranteeConfig) (log : Log) (s : PipelineState) : Prop where
  replayable : Replayable g log
  tracks : Tracks g log s.1
  gate : s.2.1 = Admission.recover log g
  history : AdmissionHistory g log
  /-- Rulings come after the slots they are about. -/
  ruled : Log.RuledAfter log
  attester : AttesterReads log s.2.2.1
  settled : SettledCommitted log
  prover : ProverReads log s.2.2.2

lemma PipelineInv.numbered {s : PipelineState} (h : PipelineInv g log s) : Log.Numbered log :=
  h.replayable.slots_eq_range

lemma PipelineWrites.ruling (h : PipelineWrites log e) :
    ∀ slot ∈ e.ruling?, ∃ c ∈ log.commits, c.slot = slot := by
  have hnone : e.ruling? = none → ∀ slot ∈ e.ruling?, ∃ c ∈ log.commits, c.slot = slot := by
    intro he slot hslot
    rw [he] at hslot
    simp at hslot
  rcases h with h | ⟨r, rfl⟩ | ⟨c, hc, answer, rfl⟩ | h
  · exact hnone h.kinds.2.1
  · exact hnone rfl
  · intro slot hslot
    rw [ruling_ruling?] at hslot
    exact ⟨c, hc, Option.some.inj hslot⟩
  · exact hnone h.kinds.2.2

/-- The stages promise each other what they rely on. -/
theorem pipeline_upholds (g : GuaranteeConfig) (cfg : BatchConfig) :
    (pipeline g cfg).Upholds (fun _ _ => False) PipelineWrites (PipelineInv g) := by
  have hprover := attester_upholds.par (prover_upholds cfg)
    (fun log _ _ x _ _ hx => ⟨CommitsNext.of_none hx.kinds.2.1, hx.kinds.2.2⟩)
    (fun log _ _ x _ _ hx => CommitsNext.of_none hx.kinds.2.1)
  have hgate := (gate_upholds_history (g := g)).par hprover
    (by
      rintro log _ _ x - - ⟨r, rfl⟩
      exact ⟨CommitsNext.of_none rfl, CommitsNext.of_none rfl, rfl⟩)
    (by
      rintro log _ _ x - - (hx | hx)
      · exact hx.kinds.1
      · exact hx.kinds.1)
  have hall := (sequencer_upholds g).par hgate
    (by
      intro log _ _ x _ _ hx
      exact ⟨hx.kinds.1, hx.commitsNext, hx.commitsNext, hx.kinds.2.2⟩)
    (by
      rintro log _ _ x - - (⟨r, rfl⟩ | hx | hx)
      · rfl
      · exact hx.kinds.2.1
      · exact hx.kinds.2.1)
  have hquiet : (pipeline g cfg).Upholds (fun _ _ => False) PipelineWrites _ :=
    hall.mono (fun _ _ _ _ => False.elim) fun _ _ hx => hx
  refine (hquiet.strengthen_log (L := Log.RuledAfter) (by simp [Log.RuledAfter]) ?_).congr ?_
  · rintro log x hruled (hx | hx)
    · exact hruled.append hx.ruling
    · exact hx.elim
  · intro log s
    constructor
    · rintro ⟨⟨⟨hlog, htracks⟩, ⟨hgate, hist⟩, ⟨-, hattester⟩, -, hsettled, hprover⟩, hruled⟩
      exact ⟨hlog, htracks, hgate, hist, hruled, hattester, hsettled, hprover⟩
    · intro h
      exact ⟨⟨⟨h.replayable, h.tracks⟩, ⟨h.gate, h.history⟩, ⟨h.numbered, h.attester⟩,
        h.numbered, h.settled, h.prover⟩, h.ruled⟩

end Pipeline

/-- One intent is admitted, committed, attested and proven, with a crash of the prover in
between. -/
def provenRun : List PipelineEvent :=
  [.inr (.inl (.submit (dummy 0) testNow none)), .inl .scan, .inl .readHead, .inl (.doorbell 1),
    .inl (.tick testNow), .inl .append, .inr (.inr (.inr .scan)), .inr (.inr (.inr .crash)),
    .inr (.inr (.inl .scan)), .inr (.inr (.inl .readHead)), .inr (.inr (.inl (.doorbell 2))),
    .inr (.inr (.inl (.process (.ok ⟨[1], ⟨Bytes.ofNat 32 1⟩⟩)))),
    .inr (.inr (.inl (.process (.ok ⟨[1], ⟨Bytes.ofNat 32 1⟩⟩)))),
    .inr (.inr (.inr .scan)), .inr (.inr (.inr .readHead)), .inr (.inr (.inr (.doorbell 3))),
    .inr (.inr (.inr .process)), .inr (.inr (.inr .process)), .inr (.inr (.inr .process)),
    .inr (.inr (.inr (.proved (.ok ⟨.mock, [3], [4], Bytes.ofNat 32 5⟩))))]

end Zequencer
