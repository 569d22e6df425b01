/-
# Recovery beside running stages

Recovery scans the log and reads the head later, while the other stages may be writing.
The attester and the prover miss what they still need exactly when all they have scanned is
done and a slot is committed before the head is read.
-/
import Zequencer.Pipeline.Reachable

namespace Zequencer

section Recovery

variable [Keccak256] {g : GuaranteeConfig} {cfg : BatchConfig} {log rest : Log}

/-! ### The cursor a recovery returns -/

omit [Keccak256] in
/-- A cursor is at or before every slot from a number on exactly when no more slots are
committed below it. -/
lemma Log.Numbered.le_position_iff (hnum : Log.Numbered log) {cursor slot : ℕ} :
    (∀ (p : ℕ) (c : SlotCommitted), log[p]? = some (.slotCommitted c) → slot ≤ c.slot →
      cursor ≤ p) ↔ log.committedBelow cursor ≤ slot := by
  constructor
  · intro h
    by_contra hlt
    have hlen : log.committedBelow cursor ≤ log.commits.length := Log.countBelow_le cursor
    have hslot : slot < log.commits.length := by omega
    obtain ⟨p, c, hp, hc⟩ := hnum.exists_of_lt hslot
    have hle := h p c hp hc.ge
    have hbelow := (hnum.slot_lt_committedBelow (q := cursor) hp).mp (by omega)
    omega
  · intro h p c hp hslot
    by_contra hlt
    have hbelow := (hnum.slot_lt_committedBelow (q := cursor) hp).mpr (not_le.mp hlt)
    omega

omit [Keccak256] in
/-- Recovery resumes at or before every slot it still needs exactly when it misses nothing
between its scan and the reading of the head. -/
lemma resume_le_iff (done? : Entry → Option ℕ) (hnum : Log.Numbered (log ++ rest))
    (hdone : ∀ c, done? (.slotCommitted c) = none)
    (hcommitted : ∀ d ∈ log.filterMap done?, ∃ c ∈ log.commits, c.slot = d) :
    (∀ (p : ℕ) (c : SlotCommitted), (log ++ rest)[p]? = some (.slotCommitted c) →
      (scanLog done? log).nextSlot ≤ c.slot →
        (scanLog done? log).resume (log ++ rest).length ≤ p) ↔
      ScanCovers done? log (log ++ rest) := by
  have hcommitted' : ∀ d ∈ log.filterMap done?, ∃ c ∈ Log.commits (log ++ rest), c.slot = d := by
    intro d hd
    obtain ⟨c, hc, hcd⟩ := hcommitted d hd
    exact ⟨c, Log.mem_commits_append_left hc rest, hcd⟩
  by_cases hcovers : ScanCovers done? log (log ++ rest)
  · have hcount := (hcovers.committedBelow_resume hnum hdone hcommitted').2
    exact iff_of_true (hnum.le_position_iff.mpr hcount.le) hcovers
  · obtain ⟨hresume, hnext⟩ := resume_of_not_covers hcovers hnum hdone hcommitted
    refine iff_of_false (fun h => ?_) hcovers
    -- the commit of the next slot is in the log, below the head
    have hcount := hnum.le_position_iff.mp h
    rw [hresume, Log.committedBelow, Log.countBelow_of_length_le le_rfl] at hcount
    exact hcount.not_gt hnext

/-! ### The prover -/

/-- The run lemma: as long as its recoveries miss nothing, the prover follows the log. -/
lemma proverFollows_run (es : List PipelineEvent)
    (hes : (pipeline g cfg).Along
      (Stage.onRight (Stage.onRight (Stage.onRight ProverCovers))) es) :
    ProverFollows ((pipeline g cfg).run es).log ((pipeline g cfg).run es).state.2.2.2 := by
  refine Stage.Along.induction (S := pipeline g cfg)
    (P := fun w => ProverFollows w.log w.state.2.2.2) ?_ ?_ es hes
  · exact ⟨by simp [pipeline, prover, ProverTask.vars?], by simp [pipeline, prover]⟩
  · intro es e h hcovers
    have hinv := (pipeline_upholds g cfg).run es
    rcases e with e | e | e | e
    · exact h.append _
    · exact h.append _
    · exact h.append _
    · exact (proverStep_move cfg _ _ e).follows hinv.numbered hinv.ruled hinv.settled hcovers h

/-- **Prover recovery beside running stages.**  Whatever the pipeline appends between the
scan and the reading of the head, the recovered cursor is at or before every slot that is
not below the next one exactly when, at the scan, some slot was committed past everything
settled, or none has been committed since.  In every run whose recoveries of the prover all
keep to this, the prover never finds an attested slot without its commit. -/
theorem prover_recovery (g : GuaranteeConfig) (cfg : BatchConfig) :
    (∀ es es' : List PipelineEvent,
      let log : Log := ((pipeline g cfg).run es).log
      let log' : Log := ((pipeline g cfg).run (es ++ es')).log
      let resumed := recoverProver (proverScan log) log'.head
      (∀ (p : ℕ) (c : SlotCommitted), log'[p]? = some (.slotCommitted c) →
        resumed.2 ≤ c.slot → resumed.1 ≤ p) ↔ ScanCovers Entry.settledTo? log log') ∧
      ∀ es, (pipeline g cfg).Along
          (Stage.onRight (Stage.onRight (Stage.onRight ProverCovers))) es →
        ∀ slot, ((pipeline g cfg).run es).state.2.2.2 ≠ .stopped (.missingCommit slot) := by
  refine ⟨?_, fun es hes => (proverFollows_run es hes).found⟩
  intro es es' log log' resumed
  obtain ⟨rest, hrest⟩ := (pipeline g cfg).log_prefix_run_append es es'
  have hlog : log' = log ++ rest := hrest.symm
  have hnum : Log.Numbered log' := ((pipeline_upholds g cfg).run _).numbered
  have hsettled : SettledCommitted log := ((pipeline_upholds g cfg).run es).settled
  rw [hlog] at hnum
  have hiff := resume_le_iff Entry.settledTo? hnum (fun _ => rfl) hsettled
  rwa [← hlog] at hiff

/-- The sequencer starts and closes an empty slot. -/
def slotZero : List PipelineEvent :=
  [.inl .scan, .inl .readHead, .inl (.tick testNow), .inl .append]

/-- The attester starts and rules on the first slot. -/
def rulingZero : List PipelineEvent :=
  [.inr (.inr (.inl .scan)), .inr (.inr (.inl .readHead)), .inr (.inr (.inl (.doorbell 1))),
    .inr (.inr (.inl (.process (.ok ⟨[1], ⟨Bytes.ofNat 32 1⟩⟩))))]

omit [Keccak256] in
/-- The first slot is committed between the scan and the reading of the head: the prover
starts past it, and stops when it is attested. -/
theorem prover_recovery_slotZero :
    (¬ ∀ (g : GuaranteeConfig) (cfg : BatchConfig) (es es' : List PipelineEvent),
      let log : Log := ((@pipeline fixtureKeccak g cfg).run es).log
      let log' : Log := ((@pipeline fixtureKeccak g cfg).run (es ++ es')).log
      let resumed := recoverProver (proverScan log) log'.head
      ∀ (p : ℕ) (c : SlotCommitted), log'[p]? = some (.slotCommitted c) →
        resumed.2 ≤ c.slot → resumed.1 ≤ p) ∧
      ¬ ∀ (g : GuaranteeConfig) (cfg : BatchConfig) (es : List PipelineEvent) (slot : ℕ),
        (∃ c ∈ Log.commits ((@pipeline fixtureKeccak g cfg).run es).log, c.slot = slot) →
          ((@pipeline fixtureKeccak g cfg).run es).state.2.2.2 ≠
            .stopped (.missingCommit slot) := by
  constructor
  · intro h
    have hle := h testGuarantee ⟨2, ⟨5, 0⟩⟩ [] slotZero 0
      (@slotEntry fixtureKeccak testNow [] 0 0) (by decide +kernel) (by decide +kernel)
    revert hle
    decide +kernel
  · intro h
    refine h testGuarantee ⟨2, ⟨5, 0⟩⟩ ([.inr (.inr (.inr .scan))] ++ slotZero ++
      [.inr (.inr (.inr .readHead))] ++ rulingZero ++
      [.inr (.inr (.inr (.doorbell 1))), .inr (.inr (.inr .process))]) 0 ?_ ?_
    · decide +kernel
    · decide +kernel

/-! ### The attester -/

/-- An event of another stage than the attester. -/
def NotAttester (e : PipelineEvent) : Prop := ∀ a, e ≠ .inr (.inr (.inl a))

lemma PipelineInv.besideAttester {s : PipelineState} {e : PipelineEvent} {x : Entry}
    (h : PipelineInv g log s) (he : NotAttester e)
    (hx : ((pipeline g cfg).step log s e).2 = some x) : BesideAttester log x := by
  rcases e with e | e | e | e
  · have hwrites := (sequencer_upholds g).emits log s.1 e x ⟨h.replayable, h.tracks⟩ hx
    exact ⟨hwrites.commitsNext, hwrites.kinds.2.1⟩
  · obtain ⟨r, rfl⟩ := gate_upholds_history.emits log s.2.1 e x ⟨h.gate, h.history⟩ hx
    exact ⟨CommitsNext.of_none rfl, rfl⟩
  · exact absurd rfl (he e)
  · have hwrites := (prover_upholds cfg).emits log s.2.2.2 e x ⟨h.numbered, h.settled, h.prover⟩ hx
    exact ⟨CommitsNext.of_none hwrites.kinds.2.1, hwrites.kinds.2.2⟩

lemma attesterInv_run (es : List PipelineEvent)
    (hes : (pipeline g cfg).Along
      (Stage.onRight (Stage.onRight (Stage.onLeft AttesterCovers))) es) :
    AttesterInv ((pipeline g cfg).run es).log ((pipeline g cfg).run es).state.2.2.1 := by
  refine Stage.Along.induction (S := pipeline g cfg)
    (P := fun w => AttesterInv w.log w.state.2.2.1) ?_ ?_ es hes
  · exact ⟨Log.RuledInOrder.nil, by simp [HonestlyAttested], trivial⟩
  · intro es e h hcovers
    have hinv := (pipeline_upholds g cfg).run es
    have hother : NotAttester e → AttesterInv
        (((pipeline g cfg).run es).log ++
          ((pipeline g cfg).step ((pipeline g cfg).run es).log
            ((pipeline g cfg).run es).state e).2.toList)
        ((pipeline g cfg).run es).state.2.2.1 := by
      intro he
      refine Stage.append_toList
        (P := fun log => AttesterInv log ((pipeline g cfg).run es).state.2.2.1) h fun x hx => ?_
      obtain ⟨hcommit, hruling⟩ := hinv.besideAttester he hx
      exact h.append_of_none hinv.numbered hcommit hruling
    rcases e with e | e | e | e
    · exact hother (by simp [NotAttester])
    · exact hother (by simp [NotAttester])
    · exact (attesterStep_move _ _ e).inv hinv.numbered hcovers h
    · exact hother (by simp [NotAttester])

lemma rulings_run_append (es es' : List PipelineEvent) (hes' : ∀ e ∈ es', NotAttester e) :
    Log.rulings ((pipeline g cfg).run (es ++ es')).log =
      Log.rulings ((pipeline g cfg).run es).log := by
  have hkeep : PipelineInv g ((pipeline g cfg).run (es ++ es')).log
      ((pipeline g cfg).run (es ++ es')).state ∧
        Log.rulings ((pipeline g cfg).run (es ++ es')).log =
          Log.rulings ((pipeline g cfg).run es).log := by
    rw [Stage.run_append]
    refine Stage.runFrom_induction (S := pipeline g cfg)
      (P := fun w => PipelineInv g w.log w.state ∧
        Log.rulings w.log = Log.rulings ((pipeline g cfg).run es).log) ?_ ?_
    · exact ⟨(pipeline_upholds g cfg).run es, rfl⟩
    · rintro w e he ⟨hinv, hrulings⟩
      refine ⟨(pipeline_upholds g cfg).own w.log w.state e hinv, ?_⟩
      refine Stage.append_toList
        (P := fun log => Log.rulings log = Log.rulings ((pipeline g cfg).run es).log)
        hrulings fun x hx => ?_
      rw [Log.rulings_append_of_none (hinv.besideAttester (hes' e he) hx).2]
      exact hrulings
  exact hkeep.2

omit [Keccak256] in
/-- With something ruled on, the recovered cursor is at or before every slot not ruled on
exactly when the rulings left no slot behind and recovery misses nothing. -/
lemma recoverAttester_le_iff (hnum : Log.Numbered (log ++ rest)) (hruled : Log.RuledAfter log)
    (hrest : Log.rulings (log ++ rest) = log.rulings) (hne : log.rulings ≠ []) :
    (∀ (p : ℕ) (c : SlotCommitted), (log ++ rest)[p]? = some (.slotCommitted c) →
      c.slot ∉ Log.rulings (log ++ rest) →
        recoverAttester (attesterScan log) (log ++ rest).length ≤ p) ↔
      (∀ c ∈ log.commits, ∀ slot ∈ log.rulings, c.slot < slot → c.slot ∈ log.rulings) ∧
        ScanCovers Entry.ruling? log (log ++ rest) := by
  have hnewest := isNewest_attesterScan log
  cases hd : (attesterScan log).doneThrough with
  | none => exact absurd (hnewest.eq_none_iff.mp hd) hne
  | some last =>
    rw [hd] at hnewest
    obtain ⟨hlast, hle⟩ := hnewest
    have hnext : (scanLog Entry.ruling? log).nextSlot = last + 1 := by
      rw [Scanned.nextSlot, show (scanLog Entry.ruling? log).doneThrough = _ from hd,
        Option.elim_some]
    have hiff := resume_le_iff Entry.ruling? hnum (fun _ => rfl)
      fun d hd => hruled.exists_commit hd
    rw [recoverAttester_of_some hd, hrest, ← hiff, hnext]
    constructor
    · intro h
      have hpast : ∀ (p : ℕ) (c : SlotCommitted),
          (log ++ rest)[p]? = some (.slotCommitted c) → last + 1 ≤ c.slot →
            (scanLog Entry.ruling? log).resume (log ++ rest).length ≤ p := by
        intro p c hp hslot
        refine h p c hp fun hmem => ?_
        have hle' := hle c.slot hmem
        omega
      refine ⟨fun c hc slot hslot hlt => ?_, hpast⟩
      -- a slot left behind is below the cursor
      by_contra hnot
      have hcovers := hiff.mp (by rwa [hnext])
      obtain ⟨-, hcount⟩ := hcovers.committedBelow_resume hnum (fun _ => rfl) fun d hd => by
        obtain ⟨c, hc, hcd⟩ := hruled.exists_commit hd
        exact ⟨c, Log.mem_commits_append_left hc rest, hcd⟩
      obtain ⟨p, hp⟩ := List.mem_iff_getElem?.mp
        (Log.mem_commits.mp (Log.mem_commits_append_left hc rest))
      have hle' := hle slot hslot
      have hbelow := (hnum.slot_lt_committedBelow
        (q := (scanLog Entry.ruling? log).resume (log ++ rest).length) hp).mp (by omega)
      exact (h p c hp hnot).not_gt hbelow
    · rintro ⟨hnogap, hpast⟩ p c hp hnot
      refine hpast p c hp ?_
      by_contra hlt
      -- the slot is below the last one ruled on, so the scan has seen it
      have hne' : c.slot ≠ last := by
        rintro rfl
        exact hnot hlast
      obtain ⟨c₀, hc₀, hslot₀⟩ := hruled.exists_commit hlast
      have hlt₀ := hnum.of_append.slot_lt hc₀
      have hltLog : c.slot < log.commits.length := by omega
      obtain ⟨p', c', hp', hc'⟩ := hnum.of_append.exists_of_lt hltLog
      refine hnot (hc' ▸ hnogap c' (Log.mem_commits_of_getElem? hp') last hlast (by omega))

/-- **Attester recovery beside running stages.**  Whatever the other stages append between
the scan and the reading of the head, the recovered cursor is at or before every slot that
is not ruled on exactly when nothing was ruled on at the scan; or the rulings had left no
slot behind, and some slot was committed past every one ruled on, or none has been committed
since.  In every run whose recoveries of the attester all keep to this, no slot is ever left
behind. -/
theorem attester_recovery (g : GuaranteeConfig) (cfg : BatchConfig) :
    (∀ es es' : List PipelineEvent, (∀ e ∈ es', NotAttester e) →
      let log : Log := ((pipeline g cfg).run es).log
      let log' : Log := ((pipeline g cfg).run (es ++ es')).log
      (∀ (p : ℕ) (c : SlotCommitted), log'[p]? = some (.slotCommitted c) →
        c.slot ∉ log'.rulings → recoverAttester (attesterScan log) log'.head ≤ p) ↔
        log.rulings = [] ∨
          (∀ c ∈ log.commits, ∀ slot ∈ log.rulings, c.slot < slot → c.slot ∈ log.rulings) ∧
            ScanCovers Entry.ruling? log log') ∧
      ∀ es, (pipeline g cfg).Along
          (Stage.onRight (Stage.onRight (Stage.onLeft AttesterCovers))) es →
        let log : Log := ((pipeline g cfg).run es).log
        ∀ c ∈ log.commits, ∀ slot ∈ log.rulings, c.slot < slot → c.slot ∈ log.rulings := by
  constructor
  · intro es es' hes' log log'
    obtain ⟨rest, hprefix⟩ := (pipeline g cfg).log_prefix_run_append es es'
    have hlog : log' = log ++ rest := hprefix.symm
    have hnum : Log.Numbered log' := ((pipeline_upholds g cfg).run _).numbered
    have hruled : Log.RuledAfter log := ((pipeline_upholds g cfg).run es).ruled
    have hrulings : log'.rulings = log.rulings := rulings_run_append es es' hes'
    by_cases hne : log.rulings = []
    · -- recovery starts over
      refine iff_of_true (fun p c _ _ => ?_) (Or.inl hne)
      rw [recoverAttester_of_rulings_eq_nil hne]
      exact Nat.zero_le p
    · rw [or_iff_right hne]
      rw [hlog] at hnum hrulings ⊢
      exact recoverAttester_le_iff hnum hruled hrulings hne
  · intro es hes log c hc slot hslot hlt
    have hruled := (attesterInv_run es hes).ruled
    exact hruled.mem_of_lt (hlt.trans (hruled.lt_of_mem hslot))

omit [Keccak256] in
/-- With the first slot ruled on, the second is committed between the scan and the reading
of the head: the attester starts past it. -/
theorem attester_recovery_slotOne :
    ¬ ∀ (g : GuaranteeConfig) (cfg : BatchConfig) (es es' : List PipelineEvent),
      (∀ e ∈ es', NotAttester e) →
      let log : Log := ((@pipeline fixtureKeccak g cfg).run es).log
      let log' : Log := ((@pipeline fixtureKeccak g cfg).run (es ++ es')).log
      ∀ (p : ℕ) (c : SlotCommitted), log'[p]? = some (.slotCommitted c) →
        c.slot ∉ log'.rulings → recoverAttester (attesterScan log) log'.head ≤ p := by
  intro h
  have hle := h testGuarantee ⟨2, ⟨5, 0⟩⟩ (slotZero ++ rulingZero)
    [.inl (.tick testNow), .inl .append] (by simp [NotAttester]) 2
    (@slotEntry fixtureKeccak testNow [] 0 1) (by decide +kernel) (by decide +kernel)
  revert hle
  decide +kernel

end Recovery

end Zequencer
