/-
# The status machine over the pipeline

The stages write in an order that the projection can rely on: whatever the schedule, and as
long as the attester and the prover recover on a log that nobody is writing, every entry
moves what status reports of an intent along one edge of the machine, or not at all.
-/
import Zequencer.Pipeline.Recovery
import Zequencer.Projection.Steps
import Zequencer.Sequencer.Disposition

namespace Zequencer

/-- The attester and the prover recover on a log that nobody is writing. -/
def PipelineQuiet (log : Log) (s : PipelineState) : PipelineEvent → Prop
  | .inr (.inr (.inl e)) => AttesterQuiescent log s.2.2.1 e
  | .inr (.inr (.inr e)) => ProverQuiescent log s.2.2.2 e
  | _ => True

instance (log : Log) (s : PipelineState) (e : PipelineEvent) :
    Decidable (PipelineQuiet log s e) := by
  rcases e with e | e | e | e <;> unfold PipelineQuiet <;> infer_instance

section Status

variable [Keccak256] {g : GuaranteeConfig} {cfg : BatchConfig} {log : Log}

omit [Keccak256] in
lemma PipelineQuiet.covers {s : PipelineState} {e : PipelineEvent} (h : PipelineQuiet log s e) :
    Stage.onRight (Stage.onRight (Stage.onLeft AttesterCovers)) log s e := by
  rcases e with e | e | e | e
  · trivial
  · trivial
  · exact AttesterQuiescent.covers h
  · trivial

/-! ### Outcomes in order -/

lemma PipelineInv.settledTo?_eq_none {s : PipelineState} {e : PipelineEvent} {x : Entry}
    (h : PipelineInv g log s) (he : ∀ p, e ≠ .inr (.inr (.inr p)))
    (hx : ((pipeline g cfg).step log s e).2 = some x) : x.settledTo? = none := by
  rcases e with e | e | e | e
  · exact ((sequencer_upholds g).emits log s.1 e x ⟨h.replayable, h.tracks⟩ hx).kinds.2.2
  · obtain ⟨r, rfl⟩ := gate_upholds_history.emits log s.2.1 e x ⟨h.gate, h.history⟩ hx
    rfl
  · exact (attester_upholds.emits log s.2.2.1 e x ⟨h.numbered, h.attester⟩ hx).kinds.2.2
  · exact absurd rfl (he e)

/-- The run lemma: what quiet steps of the prover keep, and the entries of the others, on a
log that is ruled on in order. -/
lemma prover_run {J : Log → ProverTask → Prop} (init : J [] .down)
    (own : ∀ log task e, Log.Numbered log → SettledCommitted log → Log.RuledInOrder log →
      ProverQuiescent log task e → J log task →
        J (log ++ (proverStep cfg log task e).2.toList) (proverStep cfg log task e).1)
    (other : ∀ log task x, Log.RuledInOrder log → RulesNext log x → x.settledTo? = none →
      J log task → J (log ++ [x]) task) (es : List PipelineEvent)
    (hes : (pipeline g cfg).Along PipelineQuiet es) :
    J ((pipeline g cfg).run es).log ((pipeline g cfg).run es).state.2.2.2 := by
  induction es using List.reverseRecOn with
  | nil => exact init
  | append_singleton es e ih =>
    have h := ih hes.init
    have hinv := (pipeline_upholds g cfg).run es
    have hruled := (attesterInv_run es (hes.init.mono fun _ _ _ => PipelineQuiet.covers)).ruled
    have hruled' := (attesterInv_run (es ++ [e]) (hes.mono fun _ _ _ => PipelineQuiet.covers)).ruled
    have hquiet := hes.last
    rw [Stage.run_concat] at hruled' ⊢
    have hother : (∀ p, e ≠ .inr (.inr (.inr p))) →
        J (((pipeline g cfg).run es).log ++ ((pipeline g cfg).step ((pipeline g cfg).run es).log
          ((pipeline g cfg).run es).state e).2.toList) ((pipeline g cfg).run es).state.2.2.2 := by
      intro he
      refine Stage.append_toList
        (P := fun log => J log ((pipeline g cfg).run es).state.2.2.2) h fun x hx => ?_
      have hlog : ((pipeline g cfg).next ((pipeline g cfg).run es) e).log =
          ((pipeline g cfg).run es).log ++ [x] := by
        rw [Stage.next, hx, Option.toList_some]
      rw [hlog] at hruled'
      exact other _ _ x hruled hruled'.rulesNext (hinv.settledTo?_eq_none he hx) h
    rcases e with e | e | e | e
    · exact hother (by simp)
    · exact hother (by simp)
    · exact hother (by simp)
    · exact own _ _ e hinv.numbered hinv.settled hruled hquiet h

lemma rangesInOrder_run (es : List PipelineEvent)
    (hes : (pipeline g cfg).Along PipelineQuiet es) :
    RangesInOrder cfg.batchSize ((pipeline g cfg).run es).log := by
  rcases Nat.eq_zero_or_pos cfg.batchSize with hcfg | hcfg
  · refine (prover_run (J := fun log task => RangesInOrder cfg.batchSize log ∧ HoldsNothing task)
      ⟨RangesInOrder.nil, trivial⟩ ?_ ?_ es hes).1
    · rintro log task e - - - - ⟨hranges, hholds⟩
      obtain ⟨hholds', hnone⟩ := (proverStep_move cfg log task e).holdsNothing hcfg hholds
      rw [hnone, Option.toList_none, List.append_nil]
      exact ⟨hranges, hholds'⟩
    · rintro log task x hruled hnext hx ⟨hranges, hholds⟩
      exact ⟨hranges.append_of_none hruled hnext hx, hholds⟩
  · refine (prover_run (J := ProverInv cfg) ?_ ?_ ?_ es hes).ranges
    · exact ⟨Log.RuledInOrder.nil, RangesInOrder.nil,
        ⟨by simp [ProverTask.vars?], by simp⟩, trivial⟩
    · intro log task e hnum hsettled _ hquiet h
      exact (proverStep_move cfg log task e).inv hcfg hnum hsettled hquiet h
    · intro log task x _ hnext hx h
      exact h.append_of_none hnext hx

/-! ### Misses before slots -/

omit [Keccak256] in
lemma MissesFirst.append {e : Entry} (h : MissesFirst log)
    (he : ∀ x, e = .intentExpired x → x.intentId ∉ log.commits.flatMap SlotCommitted.intents) :
    MissesFirst (log ++ [e]) := by
  intro pre x post hlog
  rcases append_singleton_eq_append_cons hlog with ⟨rfl, hx, -⟩ | ⟨post', hlog'⟩
  · exact he x hx
  · exact h pre x post' hlog'

/-- In every run, a miss is of an intent in no slot. -/
lemma missesFirst_run (es : List PipelineEvent) :
    MissesFirst ((pipeline g cfg).run es).log := by
  have hnil : MissesFirst [] := by
    intro pre x post h
    simp at h
  refine (((pipeline_upholds g cfg).strengthen (J := fun log _ => MissesFirst log) hnil ?_
    fun _ _ _ _ _ => False.elim).run es).2
  intro log s e hinv h
  refine Stage.append_toList (P := MissesFirst) h fun x hx => ?_
  refine h.append ?_
  rintro x rfl
  have hwrites := (pipeline_upholds g cfg).emits log s e _ hinv hx
  rcases e with e | e | e | e
  · have hmove := sequencerStep_move g log s.1 e
    rw [show (sequencerStep g log s.1 e).2 = _ from hx] at hmove
    exact hmove.miss_fresh hinv.replayable hinv.history.ids hinv.tracks
  · obtain ⟨r, hr⟩ := gate_upholds_history.emits log s.2.1 e _ ⟨hinv.gate, hinv.history⟩ hx
    exact absurd hr (by simp)
  · obtain ⟨c, -, answer, hr⟩ :=
      attester_upholds.emits log s.2.2.1 e _ ⟨hinv.numbered, hinv.attester⟩ hx
    have hruling := ruling_ruling? c answer
    rw [← hr] at hruling
    simp [Entry.ruling?] at hruling
  · obtain ⟨fromSlot, toSlot, answer, hr, -⟩ := (prover_upholds cfg).emits log s.2.2.2 e _
      ⟨hinv.numbered, hinv.settled, hinv.prover⟩ hx
    have hsettled := outcome_settledTo? fromSlot toSlot answer
    rw [← hr] at hsettled
    simp [Entry.settledTo?] at hsettled

/-! ### The status machine -/

lemma orderly_run (es : List PipelineEvent) (hes : (pipeline g cfg).Along PipelineQuiet es) :
    Orderly cfg.batchSize ((pipeline g cfg).run es).log := by
  have hinv := (pipeline_upholds g cfg).run es
  exact ⟨hinv.numbered, (attesterInv_run es (hes.mono fun _ _ _ => PipelineQuiet.covers)).ruled,
    rangesInOrder_run es hes, hinv.replayable.intents_nodup hinv.history.ids, missesFirst_run es⟩

lemma orderly_take (es : List PipelineEvent) (hes : (pipeline g cfg).Along PipelineQuiet es)
    (n : ℕ) : Orderly cfg.batchSize (((pipeline g cfg).run es).log.take n) := by
  rcases le_total n ((pipeline g cfg).run es).log.length with hn | hn
  · obtain ⟨es', hprefix, hlog⟩ := (pipeline g cfg).exists_prefix_run hn
    rw [← hlog]
    exact orderly_run es' (hes.of_prefix hprefix)
  · rw [List.take_of_length_le hn]
    exact orderly_run es hes

/-- **The status machine skips nothing and never goes back.**  In every run of the pipeline,
with any failures of the enclave and the backend, crashes anywhere and recovery on a log
that nobody is writing, one more entry takes what status reports of an intent along one edge
of the machine, or leaves it; and once it is terminal it stays. -/
theorem status_steps (g : GuaranteeConfig) (cfg : BatchConfig) (es : List PipelineEvent)
    (hes : (pipeline g cfg).Along PipelineQuiet es) (id : IntentId) :
    let log : Log := ((pipeline g cfg).run es).log
    (∀ n, Lifecycle.Edge ((Projections.ofLog g (log.take n)).reported id)
        ((Projections.ofLog g (log.take (n + 1))).reported id)) ∧
      ∀ n m l, n ≤ m → (Projections.ofLog g (log.take n)).reported id = some l → l.Terminal →
        (Projections.ofLog g (log.take m)).reported id = some l := by
  intro log
  have horderly : ∀ n, Orderly cfg.batchSize (log.take n) := orderly_take es hes
  have hsucc : ∀ n, n < log.length → ∃ e, log.take (n + 1) = log.take n ++ [e] :=
    fun n hn => ⟨log[n], by rw [List.take_append_getElem hn]⟩
  have hstages : ∀ n, ∀ slot, ∀ sr ∈ (Projections.ofLog g (log.take n)).slots.lookup slot,
      StageLaw (log.take n) slot sr := by
    intro n
    induction n with
    | zero =>
      intro slot sr hsr
      obtain ⟨c, hc, -⟩ := Projections.slotRow_sourced g [] slot sr hsr
      simp at hc
    | succ n ih =>
      by_cases hn : n < log.length
      · obtain ⟨e, he⟩ := hsucc n hn
        have horderly' := horderly (n + 1)
        rw [he] at horderly' ⊢
        exact StageLaw.append (horderly n) horderly' ih
      · rw [List.take_of_length_le (by omega)] at ih ⊢
        exact ih
  have hedge : ∀ n, Lifecycle.Edge ((Projections.ofLog g (log.take n)).reported id)
      ((Projections.ofLog g (log.take (n + 1))).reported id) := by
    intro n
    by_cases hn : n < log.length
    · obtain ⟨e, he⟩ := hsucc n hn
      have horderly' := horderly (n + 1)
      rw [he] at horderly' ⊢
      exact horderly'.edge (hstages n) id
    · rw [List.take_of_length_le (by omega), List.take_of_length_le (by omega)]
      exact .same _
  refine ⟨hedge, fun n m l hnm hl hterminal => ?_⟩
  induction m, hnm using Nat.le_induction with
  | base => exact hl
  | succ m _ ih =>
    have hstep := hedge m
    rw [ih] at hstep
    exact hstep.of_terminal hterminal

omit [Keccak256] in
theorem status_steps_provenRun :
    let log : Log := ((@pipeline fixtureKeccak testGuarantee ⟨1, ⟨5, 0⟩⟩).run provenRun).log
    let reported (n : ℕ) : Option Lifecycle :=
      (Projections.ofLog testGuarantee (log.take n)).reported (@Intent.id fixtureKeccak (dummy 0))
    (List.range 5).map reported =
        [none, some .received, some .sequenced, some .preconfirmed, some .finalProven] ∧
      (∀ n, Lifecycle.Edge (reported n) (reported (n + 1))) ∧
        ∀ n, 4 ≤ n → reported n = some .finalProven := by
  intro log reported
  have hsteps := @status_steps fixtureKeccak testGuarantee ⟨1, ⟨5, 0⟩⟩ provenRun
    (by decide +kernel) (@Intent.id fixtureKeccak (dummy 0))
  have hreported : (List.range 5).map reported =
      [none, some .received, some .sequenced, some .preconfirmed, some .finalProven] := by
    decide +kernel
  have hproven : reported 4 = some .finalProven := by
    have hget := congrArg (fun l => l[4]?) hreported
    simpa using hget
  exact ⟨hreported, hsteps.1, fun n hn => hsteps.2 4 n _ hn hproven trivial⟩

end Status

end Zequencer
