/-
# Every admitted intent comes to its end

The stages wait for each other through the log only.  In an endless run in which the
recoveries of the attester and the prover miss nothing, no task is stopped for ever and every
task gets its turns, the sequencer gets to every admitted intent, the attester to every slot and
the prover to every attested slot: so status reports an end for every intent one day, and stays
with it.

Nothing stands in the way of such a run: after a restart of the attester and the prover, every
reachable state can be continued to one, whatever the enclave and the backend answer.
-/
import Mathlib.Data.Set.Finite.List
import Mathlib.Order.Filter.Finite
import Zequencer.Attester.Progress
import Zequencer.Pipeline.Process
import Zequencer.Pipeline.Story
import Zequencer.Prover.Progress
import Zequencer.Sequencer.Progress

open Filter

namespace Zequencer

/-- What the tasks can be about to do; the gate only answers requests. -/
abbrev PipelineTurn := SequencerTurn ⊕ Empty ⊕ AttesterTurn ⊕ ProverTurn

/-- A task gets its turn. -/
def pipelineTurn : PipelineTurn → Log → PipelineState → PipelineEvent → Prop :=
  Stage.parMove sequencerTurn
    (Stage.parMove (fun t : Empty => t.elim) (Stage.parMove attesterTurn proverTurn))

/-! ### The stages together -/

section Liveness

variable [Keccak256] {g : GuaranteeConfig} {cfg : BatchConfig} {f : ℕ → PipelineEvent}

/-- An endless run in which recoveries miss nothing, no task is stopped from some moment on, and
every task gets its turns. -/
structure PipelineFair (g : GuaranteeConfig) (cfg : BatchConfig) (f : ℕ → PipelineEvent) :
    Prop where
  covers : ∀ n,
    PipelineCovers ((pipeline g cfg).after f n).log ((pipeline g cfg).after f n).state (f n)
  steady : ∀ᶠ n in atTop, NoCrash (f n)
  fair : ∀ t, Stage.FairTo (pipelineTurn t) (fun n => ((pipeline g cfg).after f n).log)
    (fun n => ((pipeline g cfg).after f n).state) fun n => some (f n)

/-- Batches have room for a slot, and both timers can be started. -/
structure Runnable (g : GuaranteeConfig) (cfg : BatchConfig) : Prop where
  batchSize : 1 ≤ cfg.batchSize
  boundary : g.slotDuration ≠ .ZERO
  flushTimer : cfg.flushAfter ≠ .ZERO

lemma PipelineFair.along (h : PipelineFair g cfg f) (n : ℕ) :
    (pipeline g cfg).Along PipelineCovers ((List.range n).map f) :=
  Stage.along_range_map h.covers n

/-! ### What each stage sees of the run -/

omit [Keccak256] in
lemma NoCrash.bind {ε : Type*} {P : ε → Prop} {pick : PipelineEvent → Option ε} {k : ℕ}
    (hsteady : ∀ n, k ≤ n → NoCrash (f n))
    (hpick : ∀ e, NoCrash e → ∀ e', pick e = some e' → P e') (n : ℕ) (e : ε)
    (he : (some (f (k + n))).bind pick = some e) : P e :=
  hpick _ (hsteady _ (Nat.le_add_right k n)) e he

lemma PipelineFair.sequencer (h : PipelineFair g cfg f) {k : ℕ}
    (hsteady : ∀ n, k ≤ n → NoCrash (f n)) :
    SequencerSteady g (fun n => ((pipeline g cfg).after f (k + n)).log)
      (fun n => ((pipeline g cfg).after f (k + n)).state.1)
      fun n => (some (f (k + n))).bind Sum.getLeft? where
  view := ((pipeline g cfg).view_after f).left.shift k
  inv := by
    intro n
    have hinv := (pipeline_upholds g cfg).run ((List.range (k + n)).map f)
    exact ⟨hinv.replayable, hinv.tracks⟩
  steady := by
    refine NoCrash.bind hsteady ?_
    rintro (e | e) he e' he'
    · obtain rfl := Option.some.inj he'
      exact he
    · simp at he'
  fair := fun c => (Stage.FairTo.left (h.fair (.inl c))).shift k

lemma PipelineFair.attester (h : PipelineFair g cfg f) {k : ℕ}
    (hsteady : ∀ n, k ≤ n → NoCrash (f n)) :
    AttesterSteady (fun n => ((pipeline g cfg).after f (k + n)).log)
      (fun n => ((pipeline g cfg).after f (k + n)).state.2.2.1)
      fun n => (((some (f (k + n))).bind Sum.getRight?).bind Sum.getRight?).bind Sum.getLeft? where
  view := ((pipeline g cfg).view_after f).right.right.left.shift k
  inv := fun n => ⟨((pipeline_upholds g cfg).run ((List.range (k + n)).map f)).numbered,
    attesterInv_covering _ (h.along (k + n))⟩
  steady := by
    intro n e he
    rw [Option.bind_assoc, Option.bind_assoc] at he
    revert he
    refine NoCrash.bind (P := (· ≠ AttesterEvent.crash)) hsteady ?_ n e
    rintro (e | e | e | e) he e' he'
    · simp at he'
    · simp at he'
    · obtain rfl := Option.some.inj he'
      exact he
    · simp at he'
  fair := fun c => (Stage.FairTo.left (Stage.FairTo.right
    (Stage.FairTo.right (h.fair (.inr (.inr (.inl c))))))).shift k

lemma PipelineFair.prover (hcfg : 1 ≤ cfg.batchSize) (h : PipelineFair g cfg f) {k : ℕ}
    (hsteady : ∀ n, k ≤ n → NoCrash (f n)) :
    ProverSteady cfg (fun n => ((pipeline g cfg).after f (k + n)).log)
      (fun n => ((pipeline g cfg).after f (k + n)).state.2.2.2)
      fun n => (((some (f (k + n))).bind Sum.getRight?).bind Sum.getRight?).bind Sum.getRight? where
  view := ((pipeline g cfg).view_after f).right.right.right.shift k
  inv := by
    intro n
    have hinv := (pipeline_upholds g cfg).run ((List.range (k + n)).map f)
    exact ⟨hinv.numbered, hinv.settled, proverInv_covering hcfg _ (h.along (k + n))⟩
  steady := by
    intro n e he
    rw [Option.bind_assoc, Option.bind_assoc] at he
    revert he
    refine NoCrash.bind (P := (· ≠ ProverEvent.crash)) hsteady ?_ n e
    rintro (e | e | e | e) he e' he'
    · simp at he'
    · simp at he'
    · simp at he'
    · obtain rfl := Option.some.inj he'
      exact he
  fair := fun c => (Stage.FairTo.right (Stage.FairTo.right
    (Stage.FairTo.right (h.fair (.inr (.inr (.inr c))))))).shift k

/-! ### From admission to the end -/

lemma after_prefix_of_le (g : GuaranteeConfig) (cfg : BatchConfig) (f : ℕ → PipelineEvent)
    {n m : ℕ} (hnm : n ≤ m) :
    ((pipeline g cfg).after f n).log <+: ((pipeline g cfg).after f m).log :=
  ((pipeline g cfg).view_after f).log_prefix_of_le hnm

/-- A slot that is ruled on and, if attested, settled one day is at its final stage one day. -/
lemma PipelineFair.slot_ends (hcfg : Runnable g cfg) (h : PipelineFair g cfg f) {k : ℕ}
    (hsteady : ∀ n, k ≤ n → NoCrash (f n)) (s : SlotCommitted) {n : ℕ} (hkn : k ≤ n)
    (hs : s ∈ Log.commits ((pipeline g cfg).after f n).log) :
    ∃ m, n ≤ m ∧
      (Log.slotStage ((pipeline g cfg).after f m).log s.slot).lifecycle.Terminal := by
  obtain ⟨i, rfl⟩ := Nat.exists_eq_add_of_le hkn
  obtain ⟨j, hij, hruled⟩ := (h.attester hsteady).rules s i hs
  by_cases hattested : s.slot ∈ Log.attested ((pipeline g cfg).after f (k + j)).log
  · obtain ⟨m, hjm, hsettled⟩ :=
      ProverSteady.settles hcfg.batchSize (h.prover hcfg.batchSize hsteady) hcfg.flushTimer s.slot j
        hattested
    refine ⟨k + m, by omega, ?_⟩
    obtain ⟨rest, hrest⟩ := after_prefix_of_le g cfg f
      (show k + j ≤ k + m by omega)
    have hattested' : s.slot ∈ Log.attested ((pipeline g cfg).after f (k + m)).log :=
      hrest ▸ Log.mem_attested_append_left hattested rest
    refine Log.terminal_slotStage (Log.mem_rulings_of_attested hattested') fun _ => ?_
    exact (proverInv_covering hcfg.batchSize _ (h.along (k + m))).ranges.covered s.slot hattested'
      hsettled
  · refine ⟨k + j, by omega, Log.terminal_slotStage hruled fun hruledAs => ?_⟩
    -- the slot is ruled on, and was not attested
    obtain ⟨e, he, hstage⟩ := List.exists_of_findSome?_eq_some hruledAs
    cases e with
    | slotAttested a =>
      rw [Entry.ruledAs?, Option.ite_none_right_eq_some] at hstage
      exact absurd (Log.mem_attested.mpr ⟨a, he, hstage.1⟩) hattested
    | attestFailed f =>
      rw [Entry.ruledAs?, Option.ite_none_right_eq_some] at hstage
      simp at hstage
    | _ => simp [Entry.ruledAs?] at hstage

lemma PipelineFair.story_ends (hcfg : Runnable g cfg) (h : PipelineFair g cfg f) {n : ℕ}
    {r : IntentReceived} (hr : r ∈ Log.received ((pipeline g cfg).after f n).log) :
    ∃ m l, n ≤ m ∧ Log.story ((pipeline g cfg).after f m).log r.intentId = some l ∧
      l.Terminal := by
  obtain ⟨k, hsteady⟩ := eventually_atTop.mp h.steady
  -- the intent is in the log when nothing is stopped any more
  obtain ⟨p, hp⟩ := List.mem_iff_getElem?.mp (Log.mem_received.mp hr)
  have hlt := (List.getElem?_eq_some_iff.mp hp).1
  have hprefix := after_prefix_of_le g cfg f (Nat.le_add_left n k)
  obtain ⟨i, hni, hconsumed⟩ :=
    (h.sequencer hsteady).consumes hcfg.boundary p n (hlt.trans_le hprefix.length_le)
  have hinv := (pipeline_upholds g cfg).run ((List.range (k + i)).map f)
  obtain ⟨rest, hrest⟩ := after_prefix_of_le g cfg f
    (show n ≤ k + i by omega)
  have hreceived : ∀ m, k + i ≤ m →
      r ∈ Log.received ((pipeline g cfg).after f m).log := by
    intro m hm
    obtain ⟨rest, hrest⟩ := after_prefix_of_le g cfg f
      (show n ≤ m by omega)
    exact hrest ▸ Log.mem_received_append_left hr rest
  have hwindow : r ∈ (Log.window ((pipeline g cfg).after f (k + i)).log 0
      (Log.lastConsumed ((pipeline g cfg).after f (k + i)).log)).received := by
    refine Log.mem_received.mpr ?_
    rw [Log.window, List.drop_zero]
    refine List.mem_of_getElem? (i := p) ?_
    rw [List.getElem?_take, if_pos hconsumed, ← hrest, List.getElem?_append_left hlt]
    exact hp
  rcases hinv.replayable.accounted r hwindow with ⟨c, hc, hid⟩ | ⟨x, hx, hxid⟩
  · obtain ⟨c', hc', -, hslot⟩ := Log.exists_slotOf hc hid
    obtain ⟨m, him, hterminal⟩ := h.slot_ends hcfg hsteady c' (Nat.le_add_right k i) hc'
    by_cases hmiss : ∃ x ∈ Log.expiries ((pipeline g cfg).after f m).log, x.intentId = r.intentId
    · obtain ⟨x, hx, hxid⟩ := hmiss
      exact ⟨m, .expired, by omega, Log.story_of_missed (hreceived m him) rfl hx hxid, trivial⟩
    · push Not at hmiss
      obtain ⟨rest', hrest'⟩ := after_prefix_of_le g cfg f him
      have hslot' : Log.slotOf ((pipeline g cfg).after f m).log r.intentId = some c'.slot :=
        hrest' ▸ Log.slotOf_append hslot rest'
      exact ⟨m, _, by omega, Log.story_of_slot (hreceived m him) rfl hmiss hslot', hterminal⟩
  · exact ⟨k + i, .expired, by omega, Log.story_of_missed (hreceived _ le_rfl) rfl hx hxid, trivial⟩

lemma PipelineFair.reported_stays (h : PipelineFair g cfg f) {m k : ℕ} (hmk : m ≤ k)
    {id : IntentId} {l : Lifecycle}
    (hl : Log.story ((pipeline g cfg).after f m).log id = some l) (hterminal : l.Terminal) :
    (Projections.ofLog g ((pipeline g cfg).after f k).log).reported id = some l := by
  have hmisses : MissesFirst ((pipeline g cfg).after f k).log := missesFirst_run _
  have hreported := reported_eq_story (g := g) (orderly_take_covering _ (h.along k))
    (receivedFirst_run ((List.range k).map f)) id
  obtain ⟨rest, hrest⟩ := after_prefix_of_le g cfg f hmk
  rw [← hrest] at hmisses
  refine hreported.trans ?_
  show Log.story ((pipeline g cfg).after f k).log id = some l
  rw [← hrest]
  exact Log.story_append hmisses hl hterminal

/-- A received intent is reported at its end from some moment on. -/
lemma PipelineFair.reported_ends (hcfg : Runnable g cfg) (h : PipelineFair g cfg f) {n : ℕ}
    {r : IntentReceived} (hr : r ∈ Log.received ((pipeline g cfg).after f n).log) :
    ∃ l : Lifecycle, l.Terminal ∧ ∀ᶠ k in atTop,
      (Projections.ofLog g ((pipeline g cfg).after f k).log).reported r.intentId = some l := by
  obtain ⟨m, l, -, hl, hterminal⟩ := h.story_ends hcfg hr
  exact ⟨l, hterminal, eventually_atTop.mpr ⟨m, fun k hmk => h.reported_stays hmk hl hterminal⟩⟩

/-! ### There are such runs -/

/-- The attester and the prover are stopped and come up again, one after the other. -/
def restartStages : List PipelineEvent :=
  [.inr (.inr (.inl .crash)), .inr (.inr (.inl .scan)), .inr (.inr (.inl .readHead)),
    .inr (.inr (.inr .crash)), .inr (.inr (.inr .scan)), .inr (.inr (.inr .readHead))]

/-- The turns of tasks of which the attester and the prover are up. -/
def runningTurns : Finset PipelineTurn :=
  {.inl .scan, .inl .readHead, .inl .doorbell, .inl .tick, .inl .append,
    .inr (.inr (.inl .doorbell)), .inr (.inr (.inl .process)), .inr (.inr (.inl .advance)),
    .inr (.inr (.inr .doorbell)), .inr (.inr (.inr .process)), .inr (.inr (.inr .tick)),
    .inr (.inr (.inr .proved))}

/-- The attester and the prover are up. -/
def Running (s : PipelineState) : Prop := s.2.2.1.Reaches 0 ∧ s.2.2.2.Reaches 0

/-- The enclave and the backend answer as they are said to. -/
def AnsweredBy (enclave : PipelineState → Except EnclaveError Quote)
    (backend : PipelineState → Except ProveFailure ProofHandle) (s : PipelineState) :
    PipelineEvent → Prop
  | .inr (.inr (.inl (.process answer))) => answer = enclave s
  | .inr (.inr (.inr (.proved answer))) => answer = backend s
  | _ => True

/-- What comes up while the attester and the prover are up: nobody submits, nothing is stopped,
and no head is read. -/
def Undisturbed : PipelineEvent → Prop
  | .inl e => e ≠ .crash
  | .inr (.inl e) => e = .restart
  | .inr (.inr (.inl e)) => e ≠ .crash ∧ e ≠ .readHead
  | .inr (.inr (.inr e)) => e ≠ .crash ∧ e ≠ .readHead

omit [Keccak256] in
lemma Undisturbed.noCrash {e : PipelineEvent} (h : Undisturbed e) : NoCrash e := by
  rcases e with e | e | e | e
  · exact h
  · trivial
  · exact h.1
  · exact h.1

omit [Keccak256] in
lemma Undisturbed.quiet {log : Log} {s : PipelineState} {e : PipelineEvent} (h : Undisturbed e) :
    PipelineQuiet log s e := by
  rcases e with e | e | e | e
  · trivial
  · trivial
  · show AttesterQuiescent log s.2.2.1 e
    unfold AttesterQuiescent
    split
    · exact absurd rfl h.2
    · trivial
  · show ProverQuiescent log s.2.2.2 e
    unfold ProverQuiescent
    split
    · exact absurd rfl h.2
    · trivial

omit [Keccak256] in
lemma undisturbed_of_turn {c : PipelineTurn} (hc : c ∈ runningTurns) {log : Log}
    {s : PipelineState} {e : PipelineEvent} (h : pipelineTurn c log s e) : Undisturbed e := by
  rcases c with c | c | c | c
  · rcases e with e | e
    · rintro rfl
      cases c <;> cases hs : s.1 <;> simp [pipelineTurn, Stage.parMove, sequencerTurn, hs] at h
    · exact h.elim
  · exact c.elim
  · rcases e with e | e | e | e
    · exact h.elim
    · exact h.elim
    · constructor
      · rintro rfl
        cases c <;> cases hs : s.2.2.1 <;> simp [pipelineTurn, Stage.parMove, attesterTurn, hs] at h
      · rintro rfl
        cases c <;> cases hs : s.2.2.1 <;> simp [pipelineTurn, Stage.parMove, attesterTurn, hs] at h
        simp [runningTurns] at hc
    · exact h.elim
  · rcases e with e | e | e | e
    · exact h.elim
    · exact h.elim
    · exact h.elim
    · constructor
      · rintro rfl
        cases c <;> cases hs : s.2.2.2 <;> simp [pipelineTurn, Stage.parMove, proverTurn, hs] at h
      · rintro rfl
        cases c <;> cases hs : s.2.2.2 <;> simp [pipelineTurn, Stage.parMove, proverTurn, hs] at h
        simp [runningTurns] at hc

omit [Keccak256] in
lemma mem_runningTurns {c : PipelineTurn} {log : Log} {s : PipelineState} {e : PipelineEvent}
    (h : pipelineTurn c log s e) (hup : Running s) : c ∈ runningTurns := by
  obtain ⟨hattester, hprover⟩ := hup
  rcases c with c | c | c | c
  · cases c <;> simp [runningTurns]
  · exact c.elim
  · rcases e with e | e | e | e
    · exact h.elim
    · exact h.elim
    · change attesterTurn c log s.2.2.1 e at h
      cases hs : s.2.2.1 <;> rw [hs] at h hattester <;> cases c <;>
        first | exact hattester.elim | exact h.elim | simp [runningTurns]
    · exact h.elim
  · rcases e with e | e | e | e
    · exact h.elim
    · exact h.elim
    · exact h.elim
    · change proverTurn c log s.2.2.2 e at h
      obtain ⟨v, batch, hv, -⟩ := hprover
      cases hs : s.2.2.2 <;> rw [hs] at h hv <;> cases c <;>
        first | exact h.elim | (simp [ProverTask.vars?] at hv; done) | simp [runningTurns]

omit [Keccak256] in
lemma exists_answered {c : PipelineTurn} {log : Log} {s : PipelineState} {e : PipelineEvent}
    (h : pipelineTurn c log s e) (enclave : PipelineState → Except EnclaveError Quote)
    (backend : PipelineState → Except ProveFailure ProofHandle) :
    ∃ e, pipelineTurn c log s e ∧ AnsweredBy enclave backend s e := by
  rcases e with e | e | e | e
  · exact ⟨_, h, trivial⟩
  · exact ⟨_, h, trivial⟩
  · cases e with
    | process answer =>
      refine ⟨.inr (.inr (.inl (.process (enclave s)))), ?_, rfl⟩
      rcases c with c | c | c | c
      · exact h.elim
      · exact c.elim
      · cases c <;> cases hs : s.2.2.1 <;>
          simp [pipelineTurn, Stage.parMove, attesterTurn, hs] at h ⊢
      · exact h.elim
    | _ => exact ⟨_, h, trivial⟩
  · cases e with
    | proved answer =>
      refine ⟨.inr (.inr (.inr (.proved (backend s)))), ?_, rfl⟩
      rcases c with c | c | c | c
      · exact h.elim
      · exact c.elim
      · exact h.elim
      · cases c <;> cases hs : s.2.2.2 <;>
          simp [pipelineTurn, Stage.parMove, proverTurn, hs] at h ⊢
    | _ => exact ⟨_, h, trivial⟩

omit [Keccak256] in
lemma proverStep_crash (log : Log) (task : ProverTask) :
    proverStep cfg log task .crash = (.down, none) := by
  cases task <;> rfl

lemma attesterStep_crash (log : Log) (task : AttesterTask) :
    attesterStep log task .crash = (.down, none) := by
  cases task <;> rfl

lemma restart_attester (g : GuaranteeConfig) (cfg : BatchConfig) (log : Log) (s : SequencerTask)
    (a : Admission) (t : AttesterTask) (p : ProverTask) :
    let up : AttesterTask := .waiting (recoverAttester (attesterScan log) log.head)
    let events : List PipelineEvent :=
      [.inr (.inr (.inl .crash)), .inr (.inr (.inl .scan)), .inr (.inr (.inl .readHead))]
    (pipeline g cfg).AlongFrom PipelineQuiet ⟨log, (s, a, t, p)⟩ events ∧
      (pipeline g cfg).runFrom ⟨log, (s, a, t, p)⟩ events = ⟨log, (s, a, up, p)⟩ := by
  have hcrash : (pipeline g cfg).next ⟨log, (s, a, t, p)⟩ (.inr (.inr (.inl .crash))) =
      ⟨log, (s, a, .down, p)⟩ := by
    simp [Stage.next, pipeline, attester, attesterStep_crash]
  have hscan : (pipeline g cfg).next ⟨log, (s, a, .down, p)⟩ (.inr (.inr (.inl .scan))) =
      ⟨log, (s, a, .recovering (attesterScan log), p)⟩ := by
    simp [Stage.next, pipeline, attester, attesterStep]
  have hread : (pipeline g cfg).next ⟨log, (s, a, .recovering (attesterScan log), p)⟩
      (.inr (.inr (.inl .readHead))) =
        ⟨log, (s, a, .waiting (recoverAttester (attesterScan log) log.head), p)⟩ := by
    simp [Stage.next, pipeline, attester, attesterStep]
  simp only [Stage.AlongFrom, Stage.runFrom_cons, Stage.runFrom_nil, hcrash, hscan, hread, and_true]
  exact ⟨by cases t <;> trivial, trivial, rfl⟩

lemma restart_prover (g : GuaranteeConfig) (htimer : cfg.flushAfter ≠ .ZERO) (log : Log)
    (s : SequencerTask) (a : Admission) (t : AttesterTask) (p : ProverTask) :
    let resumed := recoverProver (proverScan log) log.head
    let events : List PipelineEvent :=
      [.inr (.inr (.inr .crash)), .inr (.inr (.inr .scan)), .inr (.inr (.inr .readHead))]
    (pipeline g cfg).AlongFrom PipelineQuiet ⟨log, (s, a, t, p)⟩ events ∧
      (pipeline g cfg).runFrom ⟨log, (s, a, t, p)⟩ events =
        ⟨log, (s, a, t, .waiting ⟨∅, [], resumed.1, resumed.2⟩)⟩ := by
  have hcrash : (pipeline g cfg).next ⟨log, (s, a, t, p)⟩ (.inr (.inr (.inr .crash))) =
      ⟨log, (s, a, t, .down)⟩ := by
    simp [Stage.next, pipeline, prover, proverStep_crash]
  have hscan : (pipeline g cfg).next ⟨log, (s, a, t, .down)⟩ (.inr (.inr (.inr .scan))) =
      ⟨log, (s, a, t, .recovering (proverScan log))⟩ := by
    simp [Stage.next, pipeline, prover, proverStep]
  have hread : (pipeline g cfg).next ⟨log, (s, a, t, .recovering (proverScan log))⟩
      (.inr (.inr (.inr .readHead))) =
        ⟨log, (s, a, t, .waiting ⟨∅, [], (recoverProver (proverScan log) log.head).1,
          (recoverProver (proverScan log) log.head).2⟩)⟩ := by
    simp [Stage.next, pipeline, prover, proverStep, htimer]
  simp only [Stage.AlongFrom, Stage.runFrom_cons, Stage.runFrom_nil, hcrash, hscan, hread, and_true]
  exact ⟨by cases p <;> trivial, trivial, rfl⟩

/-- The restart is quiet, writes nothing, and leaves the attester and the prover running. -/
lemma restartStages_quiet (htimer : cfg.flushAfter ≠ .ZERO) (w : Stage.World Entry PipelineState) :
    (pipeline g cfg).AlongFrom PipelineQuiet w restartStages ∧
      ((pipeline g cfg).runFrom w restartStages).log = w.log ∧
      Running ((pipeline g cfg).runFrom w restartStages).state := by
  obtain ⟨log, s, a, t, p⟩ := w
  obtain ⟨hquiet, hrun⟩ := restart_attester g cfg log s a t p
  obtain ⟨hquiet', hrun'⟩ := restart_prover g htimer log s a
    (.waiting (recoverAttester (attesterScan log) (Log.head log))) p
  have hsplit : restartStages =
      [.inr (.inr (.inl .crash)), .inr (.inr (.inl .scan)), .inr (.inr (.inl .readHead))] ++
        [.inr (.inr (.inr .crash)), .inr (.inr (.inr .scan)), .inr (.inr (.inr .readHead))] := rfl
  rw [hsplit, Stage.alongFrom_append, Stage.runFrom_append, hrun, hrun']
  exact ⟨⟨hquiet, hquiet'⟩, rfl, Nat.zero_le _, _, _, rfl, Nat.zero_le _⟩

/-- One undisturbed event: what is up stays up. -/
lemma Undisturbed.stays_up (hcfg : 1 ≤ cfg.batchSize) {w : Stage.World Entry PipelineState}
    {e : PipelineEvent} (he : Undisturbed e) (hinv : PipelineInv g w.log w.state)
    (hattester : AttesterInv w.log w.state.2.2.1) (hprover : ProverInv cfg w.log w.state.2.2.2)
    (h : Running w.state) : Running ((pipeline g cfg).next w e).state := by
  rcases e with e | e | e | e
  · exact h
  · exact h
  · exact ⟨h.1.step hattester.tracks he.1, h.2⟩
  · exact ⟨h.1, (proverStep_move cfg w.log w.state.2.2.2 e).reaches he.1
      (ProverInv.queues_step hcfg ⟨hinv.numbered, hinv.settled, hprover⟩ h.2.not_recovering) h.2⟩

lemma Undisturbed.received {w : Stage.World Entry PipelineState} {e : PipelineEvent}
    (he : Undisturbed e) (hinv : PipelineInv g w.log w.state) :
    Log.received ((pipeline g cfg).next w e).log = Log.received w.log := by
  refine Stage.append_toList (P := fun log => Log.received log = Log.received w.log) rfl
    fun x hx => Log.received_concat_of_none ?_ w.log
  rcases e with e | e | e | e
  · exact ((sequencer_upholds g).emits _ _ e x ⟨hinv.replayable, hinv.tracks⟩ hx).kinds.1
  · obtain rfl : e = .restart := he
    simp [pipeline, gate] at hx
  · exact (attester_upholds.emits _ _ e x ⟨hinv.numbered, hinv.attester⟩ hx).kinds.1
  · exact ((prover_upholds cfg).emits _ _ e x ⟨hinv.numbered, hinv.settled, hinv.prover⟩ hx).kinds.1

/-- **There is a fair run.**  Every schedule whose recoveries miss nothing can be continued, after
a restart of the attester and the prover, to an endless fair run in which nobody submits and the
enclave and the backend answer as they are said to. -/
lemma exists_pipelineFair (hcfg : Runnable g cfg)
    (enclave : PipelineState → Except EnclaveError Quote)
    (backend : PipelineState → Except ProveFailure ProofHandle) {es : List PipelineEvent}
    (hes : (pipeline g cfg).Along PipelineCovers es) :
    ∃ f : ℕ → PipelineEvent, let start := es ++ restartStages
      PipelineFair g cfg (Stage.following start f) ∧
      (∀ n, AnsweredBy enclave backend
        ((pipeline g cfg).after (Stage.following start f) (start.length + n)).state (f n)) ∧
      (∀ n, Log.received
        ((pipeline g cfg).after (Stage.following start f) (start.length + n)).log =
          Log.received ((pipeline g cfg).run es).log) := by
  set start := es ++ restartStages with hstart
  obtain ⟨f, hmoves, hfair⟩ := (pipeline g cfg).exists_fair_following start
    (fun c log s e => pipelineTurn c log s e ∧ AnsweredBy enclave backend s e) runningTurns
    (.inr (.inl .restart))
  have hundisturbed : ∀ n, Undisturbed (f n) := by
    intro n
    rcases hmoves n with hidle | ⟨c, hc, hturn, -⟩
    · rw [hidle]
      rfl
    · exact undisturbed_of_turn hc hturn
  have hanswered : ∀ n, AnsweredBy enclave backend
      ((pipeline g cfg).after (Stage.following start f) (start.length + n)).state (f n) := by
    intro n
    rcases hmoves n with hidle | ⟨c, hc, -, hanswer⟩
    · rw [hidle]
      trivial
    · exact hanswer
  obtain ⟨hquiet₀, hlog₀, hup₀⟩ := restartStages_quiet hcfg.flushTimer
    ((pipeline g cfg).run es)
  have hcovers₀ : (pipeline g cfg).AlongFrom PipelineCovers ((pipeline g cfg).run es)
      restartStages := hquiet₀.mono fun _ _ _ => PipelineQuiet.pipelineCovers
  have hcovers : ∀ n, (pipeline g cfg).Along PipelineCovers
      ((List.range n).map (Stage.following start f)) :=
    Stage.along_following (Stage.alongFrom_append.mpr ⟨hes, hcovers₀⟩)
      fun n => (hundisturbed n).quiet.pipelineCovers
  -- what the restart leaves, the run keeps
  have hkeeps : ∀ n,
      Running ((pipeline g cfg).after (Stage.following start f) (start.length + n)).state ∧
      Log.received ((pipeline g cfg).after (Stage.following start f) (start.length + n)).log =
        Log.received ((pipeline g cfg).run es).log := by
    intro n
    induction n with
    | zero =>
      rw [Stage.after_following, List.range_zero, List.map_nil, List.append_nil, hstart,
        Stage.run_append, hlog₀]
      exact ⟨hup₀, rfl⟩
    | succ n ih =>
      have hinv := (pipeline_upholds g cfg).run
        ((List.range (start.length + n)).map (Stage.following start f))
      rw [← Nat.add_assoc, Stage.after_succ, Stage.following_add]
      exact ⟨(hundisturbed n).stays_up hcfg.batchSize hinv (attesterInv_covering _ (hcovers _))
        (proverInv_covering hcfg.batchSize _ (hcovers _)) ih.1,
        ((hundisturbed n).received hinv).trans ih.2⟩
  refine ⟨f, ⟨Stage.of_along_range_map hcovers, ?_, ?_⟩, hanswered, fun n => (hkeeps n).2⟩
  · refine eventually_atTop.mpr ⟨start.length, fun n hn => ?_⟩
    obtain ⟨k, rfl⟩ := Nat.exists_eq_add_of_le hn
    rw [Stage.following_add]
    exact (hundisturbed k).noCrash
  · intro c
    by_cases hc : c ∈ runningTurns
    · refine StronglyFair.mono (hfair c hc) ?_ ?_
      · rintro n ⟨e, he⟩
        exact exists_answered he enclave backend
      · rintro n ⟨e, he, hturn, -⟩
        exact ⟨e, he, hturn⟩
    · -- what is up is not started again
      refine StronglyFair.of_never (eventually_atTop.mpr ⟨start.length, fun n hn => ?_⟩)
      obtain ⟨k, rfl⟩ := Nat.exists_eq_add_of_le hn
      rintro ⟨e, he⟩
      exact hc (mem_runningTurns he (hkeeps k).1)

/-- **Every admitted intent comes to its end.**  Where batches have room for a slot and both
timers can be started: in every endless run of the pipeline in which recoveries miss nothing, no
task is stopped from some moment on and every task gets its turns, whatever the enclave and the
backend answer, status reports every received intent as missed, proven or failed from some moment
on, for ever. -/
theorem intents_settle (g : GuaranteeConfig) (cfg : BatchConfig) (hcfg : Runnable g cfg)
    (f : ℕ → PipelineEvent) (hf : PipelineFair g cfg f) (n : ℕ) :
    ∀ r ∈ Log.received ((pipeline g cfg).after f n).log, ∃ l : Lifecycle, l.Terminal ∧
      ∃ m, ∀ k, m ≤ k →
        (Projections.ofLog g ((pipeline g cfg).after f k).log).reported r.intentId = some l := by
  intro r hr
  obtain ⟨l, hterminal, hends⟩ := hf.reported_ends hcfg hr
  exact ⟨l, hterminal, eventually_atTop.mp hends⟩

/-- The events from a submission to the crash of a sequencer that has recorded a miss. -/
def crashAfterMiss : List PipelineEvent :=
  [.inr (.inl (.submit (dummy 0) testNow none)), .inl .scan, .inl .readHead, .inl (.doorbell 1),
    .inl (.tick (testNow + 2000)), .inl .append, .inl .crash,
    .inr (.inl (.submit (dummy 1) testNow none))]

omit [Keccak256] in
lemma runnable_fixture : Runnable testGuarantee ⟨2, ⟨5, 0⟩⟩ := ⟨by decide, by decide, by decide⟩

omit [Keccak256] in
lemma crashAfterMiss_covers :
    (@pipeline fixtureKeccak testGuarantee ⟨2, ⟨5, 0⟩⟩).Along PipelineCovers crashAfterMiss := by
  have hquiet : (@pipeline fixtureKeccak testGuarantee ⟨2, ⟨5, 0⟩⟩).Along PipelineQuiet
      crashAfterMiss := by
    decide +kernel
  exact hquiet.mono fun _ _ _ => PipelineQuiet.pipelineCovers

omit [Keccak256] in
theorem intents_settle_crashAfterMiss :
    ∃ f : ℕ → PipelineEvent, (List.range 8).map f = crashAfterMiss ∧
      ∃ l : Lifecycle, l.Terminal ∧ ∃ m, ∀ k, m ≤ k →
        (Projections.ofLog testGuarantee ((@pipeline fixtureKeccak testGuarantee ⟨2, ⟨5, 0⟩⟩).after
          f k).log).reported (@Intent.id fixtureKeccak (dummy 1)) = some l := by
  obtain ⟨f, hf, -⟩ := @exists_pipelineFair fixtureKeccak testGuarantee ⟨2, ⟨5, 0⟩⟩ runnable_fixture
    (fun _ => .error (.unavailable "down")) (fun _ => .error (.backend "down")) crashAfterMiss
    crashAfterMiss_covers
  have hfirst : (List.range 8).map (Stage.following (crashAfterMiss ++ restartStages) f) =
      crashAfterMiss := rfl
  have hafter : ((@pipeline fixtureKeccak testGuarantee ⟨2, ⟨5, 0⟩⟩).after
      (Stage.following (crashAfterMiss ++ restartStages) f) 8).log =
        ((@pipeline fixtureKeccak testGuarantee ⟨2, ⟨5, 0⟩⟩).run crashAfterMiss).log := by
    rw [Stage.after, hfirst]
  have hmem : ∃ r ∈ Log.received ((@pipeline fixtureKeccak testGuarantee ⟨2, ⟨5, 0⟩⟩).run
      crashAfterMiss).log, r.intentId = @Intent.id fixtureKeccak (dummy 1) := by
    decide +kernel
  obtain ⟨r, hr, hid⟩ := hmem
  refine ⟨_, hfirst, ?_⟩
  rw [← hid]
  exact @intents_settle fixtureKeccak testGuarantee ⟨2, ⟨5, 0⟩⟩ runnable_fixture _ hf 8 r
    (hafter ▸ hr)

/-- **Every state can be wound up.**  Where batches have room for a slot and both timers can be
started: from every state that is reached by recoveries that miss nothing, with crashes anywhere,
and whatever the enclave and the backend are to answer from there on, the pipeline can be brought
to a state in which every received intent is at its end. -/
theorem every_state_winds_up (g : GuaranteeConfig) (cfg : BatchConfig) (hcfg : Runnable g cfg)
    (enclave : PipelineState → Except EnclaveError Quote)
    (backend : PipelineState → Except ProveFailure ProofHandle) (es : List PipelineEvent)
    (hes : (pipeline g cfg).Along PipelineCovers es) :
    ∃ es', (pipeline g cfg).Along PipelineCovers (es ++ es') ∧
      (pipeline g cfg).AlongFrom (fun _ => AnsweredBy enclave backend) ((pipeline g cfg).run es)
        es' ∧
      ∀ r ∈ Log.received ((pipeline g cfg).run (es ++ es')).log, ∃ l : Lifecycle, l.Terminal ∧
        (Projections.ofLog g ((pipeline g cfg).run (es ++ es')).log).reported r.intentId =
          some l := by
  obtain ⟨f, hf, hanswered, hreceived⟩ := exists_pipelineFair hcfg enclave backend hes
  set start := es ++ restartStages with hstart
  -- all of the finitely many intents are at their ends from some moment on
  have hends : ∀ᶠ k in atTop, ∀ r ∈ {r | r ∈ Log.received ((pipeline g cfg).run es).log},
      ∃ l : Lifecycle, l.Terminal ∧ (Projections.ofLog g ((pipeline g cfg).after
        (Stage.following start f) k).log).reported r.intentId = some l := by
    refine (eventually_all_finite (List.finite_toSet _)).mpr fun r hr => ?_
    have hr' : r ∈ Log.received ((pipeline g cfg).after (Stage.following start f)
        (start.length + 0)).log := (hreceived 0).symm ▸ hr
    obtain ⟨l, hterminal, hl⟩ := hf.reported_ends hcfg hr'
    exact hl.mono fun k hk => ⟨l, hterminal, hk⟩
  obtain ⟨m, hm⟩ := eventually_atTop.mp hends
  have hrun : (pipeline g cfg).run (es ++ (restartStages ++ (List.range m).map f)) =
      (pipeline g cfg).after (Stage.following start f) (start.length + m) := by
    rw [Stage.after_following, hstart, List.append_assoc]
  refine ⟨restartStages ++ (List.range m).map f, ?_, ?_, ?_⟩
  · have hcovers := hf.along (start.length + m)
    rwa [Stage.map_range_following, hstart, List.append_assoc] at hcovers
  · have hrestart : (pipeline g cfg).AlongFrom (fun _ => AnsweredBy enclave backend)
        ((pipeline g cfg).run es) restartStages :=
      ⟨trivial, trivial, trivial, trivial, trivial, trivial, trivial⟩
    refine Stage.alongFrom_append.mpr ⟨hrestart, ?_⟩
    rw [← Stage.run_append]
    exact Stage.alongFrom_following hanswered m
  · rw [hrun, hreceived]
    exact hm _ (by omega)

omit [Keccak256] in
theorem every_state_winds_up_crashAfterMiss :
    ∃ es', (@pipeline fixtureKeccak testGuarantee ⟨2, ⟨5, 0⟩⟩).Along PipelineCovers
        (crashAfterMiss ++ es') ∧
      ∀ r ∈ Log.received ((@pipeline fixtureKeccak testGuarantee ⟨2, ⟨5, 0⟩⟩).run
          (crashAfterMiss ++ es')).log, ∃ l : Lifecycle, l.Terminal ∧
        (Projections.ofLog testGuarantee ((@pipeline fixtureKeccak testGuarantee
          ⟨2, ⟨5, 0⟩⟩).run (crashAfterMiss ++ es')).log).reported r.intentId = some l := by
  obtain ⟨es', hcovers, -, hends⟩ := @every_state_winds_up fixtureKeccak testGuarantee ⟨2, ⟨5, 0⟩⟩
    runnable_fixture (fun _ => .error (.unavailable "down")) (fun _ => .error (.backend "down"))
    crashAfterMiss crashAfterMiss_covers
  exact ⟨es', hcovers, hends⟩

end Liveness

end Zequencer
