/-
# Runs whose recoveries miss nothing

What a recovery on a log that nobody is writing brings, a recovery beside the other stages
brings, too, as long as it misses nothing between its scan and the reading of the head: while the
prover recovers, nobody settles anything.  So every log of such a run is orderly.
-/
import Zequencer.Pipeline.Status

namespace Zequencer

/-- The recoveries of the attester and the prover miss nothing. -/
def PipelineCovers (log : Log) (s : PipelineState) : PipelineEvent → Prop
  | .inr (.inr (.inl e)) => AttesterCovers log s.2.2.1 e
  | .inr (.inr (.inr e)) => ProverCovers log s.2.2.2 e
  | _ => True

section Covering

variable [Keccak256] {g : GuaranteeConfig} {cfg : BatchConfig} {log : Log}

omit [Keccak256] in
lemma PipelineCovers.attester {s : PipelineState} {e : PipelineEvent}
    (h : PipelineCovers log s e) :
    Stage.onRight (Stage.onRight (Stage.onLeft AttesterCovers)) log s e := by
  rcases e with e | e | e | e
  · trivial
  · trivial
  · exact h
  · trivial

omit [Keccak256] in
lemma PipelineCovers.prover {s : PipelineState} {e : PipelineEvent} (h : PipelineCovers log s e) :
    Stage.onRight (Stage.onRight (Stage.onRight ProverCovers)) log s e := by
  rcases e with e | e | e | e
  · trivial
  · trivial
  · trivial
  · exact h

lemma along_pipelineCovers {es : List PipelineEvent}
    (hattester : (pipeline g cfg).Along
      (Stage.onRight (Stage.onRight (Stage.onLeft AttesterCovers))) es)
    (hprover : (pipeline g cfg).Along
      (Stage.onRight (Stage.onRight (Stage.onRight ProverCovers))) es) :
    (pipeline g cfg).Along PipelineCovers es := by
  refine (hattester.and hprover).mono ?_
  rintro log s (e | e | e | e) ⟨ha, hp⟩
  · trivial
  · trivial
  · exact ha
  · exact hp

omit [Keccak256] in
lemma PipelineQuiet.pipelineCovers {s : PipelineState} {e : PipelineEvent}
    (h : PipelineQuiet log s e) : PipelineCovers log s e := by
  rcases e with e | e | e | e
  · trivial
  · trivial
  · exact AttesterQuiescent.covers h
  · exact ProverQuiescent.covers h

lemma PipelineInv.disposes_nothing {s : PipelineState} {e : PipelineEvent} {x : Entry}
    (h : PipelineInv g log s) (he : ∀ p, e ≠ .inl p)
    (hx : ((pipeline g cfg).step log s e).2 = some x) :
    x.expired? = none ∧ x.committed? = none := by
  rcases e with e | e | e | e
  · exact absurd rfl (he e)
  · obtain ⟨r, rfl⟩ := gate_upholds_history.emits log s.2.1 e _ ⟨h.gate, h.history⟩ hx
    exact ⟨rfl, rfl⟩
  · obtain ⟨c, -, answer, rfl⟩ :=
      attester_upholds.emits log s.2.2.1 e _ ⟨h.numbered, h.attester⟩ hx
    have hruling := ruling_ruling? c answer
    cases hr : ruling c answer <;> simp [hr, Entry.ruling?] at hruling <;> exact ⟨rfl, rfl⟩
  · obtain ⟨fromSlot, toSlot, answer, rfl, -⟩ := (prover_upholds cfg).emits log s.2.2.2 e _
      ⟨h.numbered, h.settled, h.prover⟩ hx
    cases answer <;> exact ⟨rfl, rfl⟩

/-! ### The prover -/

/-- What a recovering prover has found settled is all that is settled. -/
def KnowsSettled (log : Log) (task : ProverTask) : Prop :=
  ∀ scanned, task = .recovering scanned → scanned.nextSlot = log.settled

omit [Keccak256] in
lemma KnowsSettled.append_of_none {task : ProverTask} {e : Entry} (h : KnowsSettled log task)
    (he : e.settledTo? = none) : KnowsSettled (log ++ [e]) task := by
  intro scanned hscanned
  rw [Log.settled_append_of_none he]
  exact h scanned hscanned

omit [Keccak256] in
lemma knowsSettled_of_vars {task : ProverTask} (h : task.vars? ≠ none ∨ task = .panicked) :
    KnowsSettled log task := by
  rintro scanned rfl
  simp [ProverTask.vars?] at h

omit [Keccak256] in
lemma ProverMove.knowsSettled {task task' : ProverTask} {e : ProverEvent} {o : Option Entry}
    (hmove : ProverMove cfg log task e task' o) (h : KnowsSettled log task) :
    KnowsSettled (log ++ o.toList) task' := by
  cases hmove with
  | idle => simpa using h
  | stop => simp [KnowsSettled]
  | scan =>
    rintro scanned hscanned
    obtain rfl := ProverTask.recovering.inj hscanned
    rw [Option.toList_none, List.append_nil]
    rfl
  | readHead | timer | read | drained => simp [KnowsSettled]
  | entry v entry batch task hentry =>
    cases hentry with
    | pass | commit | attested | failed => exact knowsSettled_of_vars (sizeCheck_running cfg _ _)
    | failedFlush => exact knowsSettled_of_vars (flush_running _ _)
    | stale | gap | missing => simp [KnowsSettled]
  | tick v hp => exact knowsSettled_of_vars (flush_running v _)
  | proved v fromSlot toSlot taken k answer =>
    cases k with
    | select | atNext => simp [KnowsSettled, AfterFlush.resume]
    | atSizeCheck => exact knowsSettled_of_vars (sizeCheck_running cfg v _)

omit [Keccak256] in
lemma ProverMove.inv_of_covers {task task' : ProverTask} {e : ProverEvent} {o : Option Entry}
    (hmove : ProverMove cfg log task e task' o) (hcfg : 1 ≤ cfg.batchSize)
    (hnum : Log.Numbered log) (hsettled : SettledCommitted log)
    (hcovers : ProverCovers log task e) (hknows : KnowsSettled log task)
    (h : ProverInv cfg log task) : ProverInv cfg (log ++ o.toList) task' := by
  have hmove' := hmove
  cases hmove with
  | readHead scanned =>
    have hfollows := hmove'.follows hnum h.ruled.after hsettled hcovers h.follows
    have hcount := (hcovers.committedBelow_recoverProver hnum hsettled).2
    have hnext : scanned.nextSlot = log.settled := hknows scanned rfl
    rw [Option.toList_none, List.append_nil] at hfollows ⊢
    rw [hnext] at hcount hfollows ⊢
    refine ⟨h.ruled, h.ranges, hfollows, ⟨log.settled, ⟨rfl, le_rfl, le_rfl, ?_, ?_, ?_, ?_⟩, rfl⟩,
      hcfg⟩
    · intro slot hle hlt
      exact absurd hle hlt.not_ge
    · intro slot _ hle hlt
      exact absurd hle (not_le.mpr hlt)
    · exact h.ranges.settled_le h.ruled
    · exact (h.ruled.countBelow_le hnum _).trans hcount.le
  | idle => simpa using h
  | stop task e he =>
    refine hmove'.inv hcfg hnum hsettled ?_ h
    subst he
    cases task <;> trivial
  | timer scanned htimer =>
    have hfollows := hmove'.follows hnum h.ruled.after hsettled hcovers h.follows
    rw [Option.toList_none, List.append_nil] at hfollows ⊢
    exact ⟨h.ruled, h.ranges, hfollows, htimer⟩
  | _ => exact hmove'.inv hcfg hnum hsettled trivial h

/-- The run lemma: what steps of the prover keep whose recoveries miss nothing, and the entries of
the others, on a log that is ruled on in order. -/
lemma prover_covering_run {J : Log → ProverTask → Prop} (init : J [] .down)
    (own : ∀ log task e, Log.Numbered log → SettledCommitted log → ProverCovers log task e →
      KnowsSettled log task → J log task →
        J (log ++ (proverStep cfg log task e).2.toList) (proverStep cfg log task e).1)
    (other : ∀ log task x, Log.RuledInOrder log → RulesNext log x → x.settledTo? = none →
      J log task → J (log ++ [x]) task) (es : List PipelineEvent)
    (hes : (pipeline g cfg).Along PipelineCovers es) :
    J ((pipeline g cfg).run es).log ((pipeline g cfg).run es).state.2.2.2 := by
  have hboth : KnowsSettled ((pipeline g cfg).run es).log ((pipeline g cfg).run es).state.2.2.2 ∧
      J ((pipeline g cfg).run es).log ((pipeline g cfg).run es).state.2.2.2 := by
    induction es using List.reverseRecOn with
    | nil => exact ⟨by simp [KnowsSettled, pipeline, prover], init⟩
    | append_singleton es e ih =>
      have h := ih hes.init
      have hinv := (pipeline_upholds g cfg).run es
      have hruled := (attesterInv_run es (hes.init.mono fun _ _ _ => PipelineCovers.attester)).ruled
      have hruled' := (attesterInv_run (es ++ [e])
        (hes.mono fun _ _ _ => PipelineCovers.attester)).ruled
      have hcovers := hes.last
      rw [Stage.run_concat] at hruled' ⊢
      have hother : (∀ p, e ≠ .inr (.inr (.inr p))) →
          KnowsSettled (((pipeline g cfg).run es).log ++ ((pipeline g cfg).step
            ((pipeline g cfg).run es).log ((pipeline g cfg).run es).state e).2.toList)
              ((pipeline g cfg).run es).state.2.2.2 ∧
          J (((pipeline g cfg).run es).log ++ ((pipeline g cfg).step ((pipeline g cfg).run es).log
            ((pipeline g cfg).run es).state e).2.toList) ((pipeline g cfg).run es).state.2.2.2 := by
        intro he
        refine Stage.append_toList (P := fun log =>
          KnowsSettled log ((pipeline g cfg).run es).state.2.2.2 ∧
            J log ((pipeline g cfg).run es).state.2.2.2) h fun x hx => ?_
        have hlog : ((pipeline g cfg).next ((pipeline g cfg).run es) e).log =
            ((pipeline g cfg).run es).log ++ [x] := by
          rw [Stage.next, hx, Option.toList_some]
        rw [hlog] at hruled'
        have hnone := hinv.settledTo?_eq_none he hx
        exact ⟨h.1.append_of_none hnone, other _ _ x hruled hruled'.rulesNext hnone h.2⟩
      rcases e with e | e | e | e
      · exact hother (by simp)
      · exact hother (by simp)
      · exact hother (by simp)
      · exact ⟨(proverStep_move cfg _ _ e).knowsSettled h.1,
          own _ _ e hinv.numbered hinv.settled hcovers h.1 h.2⟩
  exact hboth.2

/-! ### The invariants of a covering run -/

lemma proverInv_covering (hcfg : 1 ≤ cfg.batchSize) (es : List PipelineEvent)
    (hes : (pipeline g cfg).Along PipelineCovers es) :
    ProverInv cfg ((pipeline g cfg).run es).log ((pipeline g cfg).run es).state.2.2.2 := by
  refine prover_covering_run (J := ProverInv cfg) ?_ ?_ ?_ es hes
  · exact ⟨Log.RuledInOrder.nil, RangesInOrder.nil, ⟨by simp [ProverTask.vars?], by simp⟩, trivial⟩
  · intro log task e hnum hsettled hcovers hknows h
    exact (proverStep_move cfg log task e).inv_of_covers hcfg hnum hsettled hcovers hknows h
  · intro log task x _ hnext hx h
    exact h.append_of_none hnext hx

lemma attesterInv_covering (es : List PipelineEvent)
    (hes : (pipeline g cfg).Along PipelineCovers es) :
    AttesterInv ((pipeline g cfg).run es).log ((pipeline g cfg).run es).state.2.2.1 :=
  attesterInv_run es (hes.mono fun _ _ _ => PipelineCovers.attester)

lemma rangesInOrder_covering (es : List PipelineEvent)
    (hes : (pipeline g cfg).Along PipelineCovers es) :
    RangesInOrder cfg.batchSize ((pipeline g cfg).run es).log := by
  rcases Nat.eq_zero_or_pos cfg.batchSize with hcfg | hcfg
  · refine (prover_covering_run
      (J := fun log task => RangesInOrder cfg.batchSize log ∧ HoldsNothing task)
      ⟨RangesInOrder.nil, trivial⟩ ?_ ?_ es hes).1
    · rintro log task e - - - - ⟨hranges, hholds⟩
      obtain ⟨hholds', hnone⟩ := (proverStep_move cfg log task e).holdsNothing hcfg hholds
      rw [hnone, Option.toList_none, List.append_nil]
      exact ⟨hranges, hholds'⟩
    · rintro log task x hruled hnext hx ⟨hranges, hholds⟩
      exact ⟨hranges.append_of_none hruled hnext hx, hholds⟩
  · exact (proverInv_covering hcfg es hes).ranges

lemma orderly_covering (es : List PipelineEvent)
    (hes : (pipeline g cfg).Along PipelineCovers es) :
    Orderly cfg.batchSize ((pipeline g cfg).run es).log := by
  have hinv := (pipeline_upholds g cfg).run es
  exact ⟨hinv.numbered, (attesterInv_covering es hes).ruled, rangesInOrder_covering es hes,
    hinv.replayable.intents_nodup hinv.history.ids, missesFirst_run es⟩

lemma orderly_take_covering (es : List PipelineEvent)
    (hes : (pipeline g cfg).Along PipelineCovers es) (n : ℕ) :
    Orderly cfg.batchSize (((pipeline g cfg).run es).log.take n) := by
  rcases le_total n ((pipeline g cfg).run es).log.length with hn | hn
  · obtain ⟨es', hprefix, hlog⟩ := (pipeline g cfg).exists_prefix_run hn
    rw [← hlog]
    exact orderly_covering es' (hes.of_prefix hprefix)
  · rw [List.take_of_length_le hn]
    exact orderly_covering es hes

end Covering

end Zequencer
