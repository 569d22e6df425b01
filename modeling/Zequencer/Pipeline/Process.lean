/-
# One process

`main` starts every task once, on an empty log, and the process ends when one of them stops.
Without a crash a close never meets a miss recorded before it and the attester starts before
anything is ruled on; so every intent is disposed of once and every slot is ruled on once, in
order.  What the prover needs is that no slot is committed between its scan and its reading of
the head.
-/
import Zequencer.Pipeline.Covering
import Zequencer.Projection.Guarantee

namespace Zequencer

/-- No task is stopped; the gate may be restarted at any time. -/
def NoCrash : PipelineEvent → Prop
  | .inl e => e ≠ .crash
  | .inr (.inl _) => True
  | .inr (.inr (.inl e)) => e ≠ .crash
  | .inr (.inr (.inr e)) => e ≠ .crash

instance : DecidablePred NoCrash := fun e => by
  rcases e with e | e | e | e <;> unfold NoCrash <;> infer_instance

section Process

variable [Keccak256] {g : GuaranteeConfig} {cfg : BatchConfig} {log : Log}

/-! ### The sequencer -/

/-- The position below which misses are recorded so far. -/
def SequencerTask.judged (log : Log) : SequencerTask → ℕ
  | .waiting _ _ _ => log.lastConsumed
  | .closing _ _ _ cursor _ => cursor
  | _ => 0

/-- Every recorded miss is of an intent that is behind the task. -/
def MissesBehind (log : Log) (task : SequencerTask) : Prop :=
  ∀ x ∈ log.expiries, ∃ r ∈ (log.window 0 (task.judged log)).received, r.intentId = x.intentId

omit [Keccak256] in
/-- What waits in the buffer was not recorded as missed. -/
lemma MissesBehind.fresh {buffer : List Pending} {cursor nextSlot : ℕ}
    (h : MissesBehind log (.waiting buffer cursor nextSlot))
    (hids : (log.received.map IntentReceived.intentId).Nodup)
    (htracks : Tracks g log (.waiting buffer cursor nextSlot)) :
    ∀ p ∈ buffer, ∀ x ∈ log.expiries, x.intentId ≠ p.id := by
  obtain ⟨ha, rfl⟩ := htracks
  intro p hp x hx hid
  obtain ⟨r, hr, hrid⟩ := h x hx
  obtain ⟨r', hr', rfl⟩ := List.mem_map.mp hp
  -- the two places in the log are apart
  have hwindow : (log.window 0 cursor).received = (log.window 0 log.lastConsumed).received ++
      (log.window log.lastConsumed cursor).received := by
    rw [Log.window_split (Nat.zero_le _) ha.consumed, Log.received_append]
  have hnodup : ((log.window 0 cursor).received.map IntentReceived.intentId).Nodup :=
    hids.sublist (((Log.window_sublist log 0 cursor).filterMap _).map _)
  rw [hwindow, List.map_append, List.nodup_append] at hnodup
  exact hnodup.2.2 _ (List.mem_map_of_mem hr) _ (List.mem_map_of_mem hr') (hrid.trans hid)

omit [Keccak256] in
lemma MissesBehind.freshClose {task : SequencerTask} (h : MissesBehind log task)
    (hids : (log.received.map IntentReceived.intentId).Nodup) (htracks : Tracks g log task)
    (e : SequencerEvent) : FreshClose log task e := by
  cases e with
  | tick closedAt =>
    cases task with
    | waiting buffer cursor nextSlot => exact h.fresh hids htracks
    | _ => simp [FreshClose, SequencerTask.buffer]
  | _ => trivial

omit [Keccak256] in
lemma MissesBehind.append_of_none {task : SequencerTask} {e : Entry}
    (h : MissesBehind log task) (htracks : Tracks g log task) (hlog : log.lastConsumed ≤ log.length)
    (hx : e.expired? = none) (hc : e.committed? = none) : MissesBehind (log ++ [e]) task := by
  have hjudged : task.judged (log ++ [e]) = task.judged log := by
    cases task <;> simp only [SequencerTask.judged, Log.lastConsumed_append_of_none hc]
  have hle : task.judged log ≤ log.length := by
    cases task with
    | down | recovering | timerPanicked => exact Nat.zero_le _
    | waiting => exact hlog
    | closing => exact htracks.1.upTo
  intro x hmem
  rw [Log.expiries_concat_of_none hx] at hmem
  rw [hjudged, Log.window_append hle]
  exact h x hmem

/-- A task that is not stopped keeps its misses behind it. -/
lemma MissesBehind.step {task : SequencerTask} {e : SequencerEvent} (h : MissesBehind log task)
    (hlog : Replayable g log) (htracks : Tracks g log task) (he : e ≠ .crash) :
    MissesBehind (log ++ (sequencerStep g log task e).2.toList) (sequencerStep g log task e).1 := by
  have hstay : ∀ task', task.judged log ≤ task'.judged log →
      MissesBehind (log ++ (none : Option Entry).toList) task' := by
    intro task' hle x hx
    rw [Option.toList_none, List.append_nil] at hx ⊢
    obtain ⟨r, hr, hid⟩ := h x hx
    refine ⟨r, ?_, hid⟩
    rw [Log.window_split (Nat.zero_le _) hle, Log.received_append]
    exact List.mem_append_left _ hr
  cases task with
  | down | timerPanicked => cases e <;> exact hstay _ le_rfl
  | recovering scanned =>
    cases e with
    | readHead =>
      obtain rfl : scanned = _ := htracks
      have hle : ¬ log.head < log.lastConsumed := not_lt.mpr hlog.lastConsumed_le
      simp only [sequencerStep, recover, if_neg hle]
      exact hstay _ (Nat.zero_le _)
    | crash => exact absurd rfl he
    | _ => exact hstay _ le_rfl
  | waiting buffer cursor nextSlot =>
    cases e with
    | crash => exact absurd rfl he
    | tick closedAt => exact hstay _ htracks.1.consumed
    | _ => exact hstay _ le_rfl
  | closing closedAt expired live cursor nextSlot =>
    cases e with
    | crash => exact absurd rfl he
    | append =>
      have hupTo := htracks.1.upTo
      cases expired with
      | nil =>
        intro x hx
        rw [sequencerStep, Option.toList_some, Log.expiries_concat_of_none rfl] at hx
        show ∃ r ∈ (Log.window (log ++ [_]) 0 (Log.lastConsumed (log ++ [_]))).received, _
        rw [Log.lastConsumed_append_slot]
        obtain ⟨r, hr, hid⟩ := h x hx
        refine ⟨r, ?_, hid⟩
        show r ∈ (Log.window (log ++ [_]) 0 cursor).received
        rw [Log.window_append hupTo]
        exact hr
      | cons m expired =>
        intro x hx
        show ∃ r ∈ (Log.window (log ++ [_]) 0 cursor).received, _
        rw [Log.window_append hupTo]
        rw [sequencerStep, Option.toList_some, Log.expiries_append, List.mem_append] at hx
        rcases hx with hx | hx
        · exact h x hx
        · obtain rfl : x = ⟨m.1, m.2, closedAt⟩ := by simpa [Log.expiries, Entry.expired?] using hx
          obtain ⟨p, hp, hid, -⟩ := htracks.buffered_of_expired (m := m) List.mem_cons_self
          obtain ⟨r, hr, rfl⟩ := List.mem_map.mp hp
          refine ⟨r, ?_, hid⟩
          rw [Log.window_split (Nat.zero_le _) htracks.1.consumed, Log.received_append]
          exact List.mem_append_right _ hr
    | _ => exact hstay _ le_rfl

/-- What a process disposes of, it disposes of once. -/
lemma disposed_nodup_of_noCrash (es : List PipelineEvent) (hes : ∀ e ∈ es, NoCrash e) :
    (Log.disposed ((pipeline g cfg).run es).log).Nodup := by
  have hrun := Stage.Along.induction (S := pipeline g cfg) (C := fun _ _ => NoCrash)
    (P := fun w => MissesBehind w.log w.state.1 ∧
      (Log.disposed w.log ++ w.state.1.undisposed).Nodup) ?_ ?_ es (Stage.along_of_forall hes)
  · exact hrun.2.sublist (List.sublist_append_left _ _)
  · exact ⟨by simp [MissesBehind], List.nodup_nil⟩
  · rintro es e ⟨hbehind, hnodup⟩ he
    have hinv := (pipeline_upholds g cfg).run es
    have hids := hinv.history.ids
    have hother : (∀ s, e ≠ .inl s) → MissesBehind
          (((pipeline g cfg).run es).log ++ ((pipeline g cfg).step ((pipeline g cfg).run es).log
            ((pipeline g cfg).run es).state e).2.toList) ((pipeline g cfg).run es).state.1 ∧
        (Log.disposed (((pipeline g cfg).run es).log ++ ((pipeline g cfg).step
          ((pipeline g cfg).run es).log ((pipeline g cfg).run es).state e).2.toList) ++
            ((pipeline g cfg).run es).state.1.undisposed).Nodup := by
      intro hs
      refine Stage.append_toList (P := fun log =>
        MissesBehind log ((pipeline g cfg).run es).state.1 ∧
          (Log.disposed log ++ ((pipeline g cfg).run es).state.1.undisposed).Nodup)
        ⟨hbehind, hnodup⟩ fun x hx => ?_
      obtain ⟨hexpired, hcommitted⟩ := hinv.disposes_nothing hs hx
      refine ⟨hbehind.append_of_none hinv.tracks hinv.replayable.lastConsumed_le hexpired
        hcommitted, ?_⟩
      rw [Log.disposed_append, Log.disposed_singleton,
        Entry.disposes_of_none hexpired hcommitted, List.append_nil]
      exact hnodup
    rcases e with e | e
    · exact ⟨hbehind.step hinv.replayable hinv.tracks he,
        (sequencerStep_move g _ _ e).disposed_nodup hinv.replayable hids hinv.tracks
          (hbehind.freshClose hids hinv.tracks e) hnodup⟩
    · exact hother (by simp)

/-! ### The attester -/

/-- Before the attester runs, nothing is ruled on. -/
def RulesNothingYet (log : Log) : AttesterTask → Prop
  | .down => log.rulings = []
  | .recovering scanned => log.rulings = [] ∧ ∃ n, scanned = attesterScan (log.take n)
  | _ => True

omit [Keccak256] in
lemma RulesNothingYet.append_of_none {task : AttesterTask} {e : Entry}
    (h : RulesNothingYet log task) (he : e.ruling? = none) :
    RulesNothingYet (log ++ [e]) task := by
  have hrulings : log.rulings = [] → Log.rulings (log ++ [e]) = [] := by
    intro hnil
    rw [Log.rulings_append_of_none he, hnil]
  cases task with
  | down => exact hrulings h
  | recovering scanned =>
    obtain ⟨hnil, n, hscanned⟩ := h
    refine ⟨hrulings hnil, min n log.length, ?_⟩
    rw [List.take_append_of_le_length (min_le_right _ _), ← List.take_eq_take_min]
    exact hscanned
  | _ => trivial

omit [Keccak256] in
lemma RulesNothingYet.covers {task : AttesterTask} (h : RulesNothingYet log task)
    (e : AttesterEvent) : AttesterCovers log task e := by
  unfold AttesterCovers
  split
  · obtain ⟨hnil, n, hscanned⟩ := h
    refine ⟨n, hscanned, Or.inl ?_⟩
    have hsub : (Log.rulings (log.take n)).Sublist log.rulings :=
      (List.take_sublist n log).filterMap _
    rw [hnil] at hsub
    exact List.sublist_nil.mp hsub
  · trivial

lemma RulesNothingYet.step {task : AttesterTask} {e : AttesterEvent}
    (h : RulesNothingYet log task) (he : e ≠ .crash) :
    RulesNothingYet (log ++ (attesterStep log task e).2.toList) (attesterStep log task e).1 := by
  cases task with
  | down =>
    cases e with
    | scan =>
      rw [attesterStep, Option.toList_none, List.append_nil]
      exact ⟨h, log.length, by rw [List.take_length]⟩
    | crash => exact absurd rfl he
    | _ => simpa [attesterStep] using h
  | recovering scanned =>
    cases e with
    | crash => exact absurd rfl he
    | readHead => trivial
    | _ => simpa [attesterStep] using h
  | waiting cursor =>
    cases e with
    | crash => exact absurd rfl he
    | _ => trivial
  | ruled pos cursor batch =>
    cases e with
    | crash => exact absurd rfl he
    | _ => trivial
  | draining cursor batch =>
    cases e with
    | crash => exact absurd rfl he
    | process answer =>
      rcases batch with _ | ⟨⟨pos, entry⟩, batch⟩
      · trivial
      · cases entry <;> trivial
    | _ => trivial

lemma attesterCovers_of_noCrash (es : List PipelineEvent) (hes : ∀ e ∈ es, NoCrash e) :
    (pipeline g cfg).Along (Stage.onRight (Stage.onRight (Stage.onLeft AttesterCovers))) es := by
  refine (Stage.Along.strengthen (S := pipeline g cfg) (C := fun _ _ => NoCrash)
    (P := fun w => RulesNothingYet w.log w.state.2.2.1) rfl ?_ es (Stage.along_of_forall hes)).1
  intro es e h he
  have hinv := (pipeline_upholds g cfg).run es
  have hother : NotAttester e → RulesNothingYet
      (((pipeline g cfg).run es).log ++ ((pipeline g cfg).step ((pipeline g cfg).run es).log
        ((pipeline g cfg).run es).state e).2.toList) ((pipeline g cfg).run es).state.2.2.1 := by
    intro hnot
    refine Stage.append_toList (P := fun log =>
      RulesNothingYet log ((pipeline g cfg).run es).state.2.2.1) h fun x hx => ?_
    exact h.append_of_none (hinv.besideAttester hnot hx).2
  rcases e with e | e | e | e
  · exact ⟨trivial, hother (by simp [NotAttester])⟩
  · exact ⟨trivial, hother (by simp [NotAttester])⟩
  · exact ⟨h.covers e, h.step he⟩
  · exact ⟨trivial, hother (by simp [NotAttester])⟩

/-! ### The process -/

/-- **One process disposes of every intent once and rules on every slot once.**  In every run in
which no task is stopped, with any failures of the enclave and the backend and any clock
readings: no intent is disposed of twice, every intent below the end of the last slot is disposed
of, and the slots are ruled on in order.  If moreover no slot is committed between the scan of the
prover and its reading of the head, every log is orderly and the prover runs on, if its timer can
be started. -/
theorem one_process (g : GuaranteeConfig) (cfg : BatchConfig) (hcfg : 1 ≤ cfg.batchSize)
    (es : List PipelineEvent) (hes : ∀ e ∈ es, NoCrash e) :
    let log : Log := ((pipeline g cfg).run es).log
    (∀ r ∈ (log.window 0 log.lastConsumed).received, log.disposed.count r.intentId = 1) ∧
      (∀ id, log.disposed.count id ≤ 1) ∧ log.RuledInOrder ∧
      ((pipeline g cfg).Along
          (Stage.onRight (Stage.onRight (Stage.onRight ProverCovers))) es →
        Orderly cfg.batchSize log ∧ ((pipeline g cfg).run es).state.2.2.2 ≠ .panicked ∧
          (((pipeline g cfg).run es).state.2.2.2 = .timerPanicked → cfg.flushAfter = .ZERO) ∧
            ∀ err, ((pipeline g cfg).run es).state.2.2.2 ≠ .stopped err) := by
  intro log
  have hinv := (pipeline_upholds g cfg).run es
  have hnodup : log.disposed.Nodup := disposed_nodup_of_noCrash es hes
  have hattester : (pipeline g cfg).Along
      (Stage.onRight (Stage.onRight (Stage.onLeft AttesterCovers))) es :=
    attesterCovers_of_noCrash es hes
  refine ⟨fun r hr => ?_, fun id => List.nodup_iff_count_le_one.mp hnodup id,
    (attesterInv_run es hattester).ruled, fun hprover => ?_⟩
  · refine List.count_eq_one_of_mem hnodup ?_
    rcases hinv.replayable.accounted r hr with ⟨c, hc, hid⟩ | ⟨x, hx, hid⟩
    · exact List.mem_flatMap.mpr ⟨_, Log.mem_commits.mp hc, hid⟩
    · exact List.mem_flatMap.mpr ⟨_, Log.mem_expiries.mp hx, List.mem_singleton.mpr hid.symm⟩
  · have hcovers := along_pipelineCovers hattester hprover
    have hqueues := (proverInv_covering hcfg es hcovers).queues
    refine ⟨orderly_covering es hcovers, ?_, ?_, fun err => ?_⟩
    · intro h
      rw [h] at hqueues
      exact hqueues
    · intro h
      rw [h] at hqueues
      exact hqueues
    · intro h
      rw [h] at hqueues
      exact hqueues

/-- All tasks come up; one intent is admitted, committed, attested and proven, and another is
missed. -/
def processRun : List PipelineEvent :=
  [.inr (.inr (.inl .scan)), .inr (.inr (.inl .readHead)), .inr (.inr (.inr .scan)),
    .inr (.inr (.inr .readHead)), .inl .scan, .inl .readHead,
    .inr (.inl (.submit (dummy 0) testNow none)), .inl (.doorbell 1), .inl (.tick testNow),
    .inl .append, .inr (.inl (.submit (dummy 1) testNow none)), .inr (.inr (.inl (.doorbell 2))),
    .inr (.inr (.inl (.process (.ok ⟨[1], ⟨Bytes.ofNat 32 1⟩⟩)))),
    .inr (.inr (.inl (.process (.ok ⟨[1], ⟨Bytes.ofNat 32 1⟩⟩)))), .inl (.doorbell 3),
    .inl (.tick (testNow + 5000)), .inr (.inr (.inr (.doorbell 4))), .inr (.inr (.inr .process)),
    .inr (.inr (.inr .process)), .inl .append, .inr (.inr (.inr .process)),
    .inr (.inr (.inr .process)),
    .inr (.inr (.inr (.proved (.ok ⟨.mock, [3], [4], Bytes.ofNat 32 5⟩)))), .inl .append]

omit [Keccak256] in
theorem one_process_processRun :
    let log : Log := ((@pipeline fixtureKeccak testGuarantee ⟨1, ⟨5, 0⟩⟩).run processRun).log
    log.length = 7 ∧ log.disposed.count (@Intent.id fixtureKeccak (dummy 0)) ≤ 1 ∧
      log.RuledInOrder ∧ Orderly 1 log := by
  have hquiet : (@pipeline fixtureKeccak testGuarantee ⟨1, ⟨5, 0⟩⟩).Along PipelineQuiet
      processRun := by decide +kernel
  obtain ⟨-, honce, hruled, horderly⟩ := @one_process fixtureKeccak testGuarantee ⟨1, ⟨5, 0⟩⟩
    (by decide) processRun (by decide +kernel)
  exact ⟨by decide +kernel, honce _, hruled, (horderly (hquiet.mono fun _ _ _ h =>
    PipelineCovers.prover h.pipelineCovers)).1⟩

end Process

end Zequencer
