/-
# Proof outcomes partition the attested slots

Beside stages that number their slots and rule on them in order, and with recovery on a log
that nobody is writing, the prover settles every attested slot in exactly one range.
-/
import Zequencer.Prover.Queue

namespace Zequencer

variable {cfg : BatchConfig} {log : Log}

/-! ### One step -/

section Step

variable {v : ProverVars} {e : Entry} {batch : List Entry} {queued : List CommittedSlot}
  {first : ℕ}

lemma Log.RuledInOrder.not_attested (h : Log.RuledInOrder log) {q : ℕ} {f : AttestFailed}
    (hq : log[q]? = some (.attestFailed f)) : f.slot ∉ log.attested := by
  intro hslot
  obtain ⟨a, ha, hslot⟩ := Log.mem_attested.mp hslot
  obtain ⟨q', hq'⟩ := List.mem_iff_getElem?.mp ha
  have hruling : (Entry.slotAttested a).ruling? = some f.slot := congrArg some hslot
  obtain rfl := h.position_eq hq' hruling hq rfl
  rw [hq] at hq'
  simp at hq'

/-- Past an entry that leaves the next slot where it is. -/
lemma Queue.tail (h : Queue log v (e :: batch) queued first)
    (hfollows : Follows log v (e :: batch))
    (hcount : log.countBelow Entry.ruling? (v.processed (e :: batch) + 1) ≤ v.nextSlot) :
    Queue log v batch queued first := by
  rw [← hfollows.processed_tail] at hcount
  exact ⟨h.slots, h.settled, h.upTo, h.attested, h.left, h.ruled, hcount⟩

/-- The loop body keeps the queue, and no ruling skips a slot. -/
lemma EntryMove.queues {task : ProverTask} (hmove : EntryMove cfg v e batch task)
    (hcfg : 1 ≤ cfg.batchSize) (hruled : Log.RuledInOrder log)
    (hfollows : Follows log v (e :: batch)) (h : Queued log v (e :: batch))
    (hsize : v.pending.length < cfg.batchSize) : ProverQueues cfg log task := by
  obtain ⟨first, hqueue, hnext⟩ := h
  have hget := hfollows.getElem?_processed
  have htail := hfollows.processed_tail
  have hcount : log.countBelow Entry.ruling? (v.processed (e :: batch) + 1) = _ :=
    Log.countBelow_succ hget
  have hpassed := hqueue.passed
  -- the slot of a ruling is the number of rulings before it
  have hrank : ∀ slot, e.ruling? = some slot →
      slot = log.countBelow Entry.ruling? (v.processed (e :: batch)) ∧
        log.countBelow Entry.ruling? (v.processed (e :: batch) + 1) = slot + 1 := by
    intro slot hslot
    have hcount' := hruled.slot_eq hget hslot
    rw [hslot, ← hcount'] at hcount
    exact ⟨hcount', hcount⟩
  have hpast : ∀ slot, e.ruling? = some slot →
      log.countBelow Entry.ruling? (v.processed batch) = slot + 1 := by
    intro slot hslot
    rw [htail]
    exact (hrank slot hslot).2
  -- and its slot is ruled on
  have hlt : ∀ slot, e.ruling? = some slot → slot < log.rulings.length := fun slot hslot =>
    hruled.lt_of_mem (Log.mem_rulings.mpr ⟨e, List.mem_of_getElem? hget, hslot⟩)
  cases hmove with
  | pass _ _ hc hr =>
    rw [hr] at hcount
    exact Queued.sizeCheck ⟨first, hqueue.tail hfollows (hcount.trans_le hpassed), hnext⟩ hcfg
      hsize.le
  | commit c =>
    have hqueue' := hqueue.tail hfollows (hcount.trans_le hpassed)
    exact Queued.sizeCheck ⟨first, ⟨hqueue'.slots, hqueue'.settled, hqueue'.upTo,
      hqueue'.attested, hqueue'.left, hqueue'.ruled, hqueue'.passed⟩, hnext⟩ hcfg hsize.le
  | stale _ _ slot hr hstale =>
    exact ⟨⟨first, hqueue.tail hfollows ((hrank slot hr).2.trans_le hstale), hnext⟩, hsize⟩
  | gap _ _ slot hr hgap =>
    have hslot := (hrank slot hr).1
    omega
  | missing a _ hslot hs => exact absurd hs (hfollows.lookup_isSome hruled.after rfl hslot)
  | attested a _ s hslot hs =>
    obtain ⟨-, c, -, hcslot, rfl⟩ := (hfollows.awaiting a.slot s).mp hs
    have hattested : v.nextSlot ∈ log.attested :=
      hslot ▸ Log.mem_attested.mpr ⟨a, List.mem_of_getElem? hget, rfl⟩
    refine Queued.sizeCheck ⟨first, hqueue.push hnext hattested ?_ rfl ?_ ?_, ?_⟩ hcfg ?_
    · exact hcslot.trans hslot
    · exact hslot ▸ hlt a.slot rfl
    · exact (hpast a.slot rfl).le.trans (hslot ▸ le_rfl)
    · rw [List.length_append, List.length_singleton, ← add_assoc, hnext]
    · rw [List.length_append, List.length_singleton]
      exact hsize
  | failed f _ hslot hp =>
    have hfailed : v.nextSlot ∉ log.attested := hslot ▸ hruled.not_attested hget
    rw [hp] at hqueue
    refine Queued.sizeCheck (Queue.queued_of_pending_eq_nil (hqueue.skip hfailed rfl ?_ ?_) hp)
      hcfg hsize.le
    · exact hslot ▸ hlt f.slot rfl
    · exact (hpast f.slot rfl).le.trans (hslot ▸ le_rfl)
  | failedFlush f _ hslot hp =>
    have hfailed : v.nextSlot ∉ log.attested := hslot ▸ hruled.not_attested hget
    refine Queue.flush (k := .atSizeCheck batch) (hqueue.skip hfailed rfl ?_ ?_) hp hsize.le
    · exact hslot ▸ hlt f.slot rfl
    · exact (hpast f.slot rfl).le.trans (hslot ▸ le_rfl)

end Step

/-- Recovery runs on a log that nobody is writing: what the scan found is still there when
the head is read. -/
def ProverQuiescent (log : Log) : ProverTask → ProverEvent → Prop
  | .recovering scanned, .readHead => scanned = proverScan log
  | _, _ => True

instance (log : Log) (task : ProverTask) (e : ProverEvent) :
    Decidable (ProverQuiescent log task e) := by
  cases task <;> cases e <;> unfold ProverQuiescent <;> infer_instance

lemma ProverQuiescent.covers {task : ProverTask} {e : ProverEvent}
    (h : ProverQuiescent log task e) : ProverCovers log task e := by
  unfold ProverCovers
  split
  · rename_i scanned
    have hscanned : scanned = proverScan log := h
    refine ⟨log.length, ?_, ?_⟩
    · rwa [List.take_length]
    · rw [List.take_length]
      exact ScanCovers.refl
  · trivial

/-- What the log and the prover keep, as long as recovery is quiet. -/
structure ProverInv (cfg : BatchConfig) (log : Log) (task : ProverTask) : Prop where
  ruled : Log.RuledInOrder log
  ranges : RangesInOrder cfg.batchSize log
  follows : ProverFollows log task
  queues : ProverQueues cfg log task

lemma ProverMove.inv {task task' : ProverTask} {e : ProverEvent} {o : Option Entry}
    (hmove : ProverMove cfg log task e task' o) (hcfg : 1 ≤ cfg.batchSize)
    (hnum : Log.Numbered log) (hsettled : SettledCommitted log)
    (hquiet : ProverQuiescent log task e) (h : ProverInv cfg log task) :
    ProverInv cfg (log ++ o.toList) task' := by
  have hfollows := hmove.follows hnum h.ruled.after hsettled hquiet.covers h.follows
  obtain ⟨hruled, hranges, hfollows₀, hqueues⟩ := h
  -- where nothing is appended, only the queue is left to check
  have hstill : ∀ task', ProverFollows (log ++ (none : Option Entry).toList) task' →
      ProverQueues cfg log task' → ProverInv cfg (log ++ (none : Option Entry).toList) task' := by
    intro task' hfollows hqueues
    rw [Option.toList_none, List.append_nil] at hfollows ⊢
    exact ⟨hruled, hranges, hfollows, hqueues⟩
  cases hmove with
  | idle => exact hstill _ hfollows hqueues
  | stop | scan => exact hstill _ hfollows trivial
  | timer scanned htimer => exact hstill _ hfollows htimer
  | readHead scanned =>
    have hcount := (hquiet.covers.committedBelow_recoverProver hnum hsettled).2
    obtain rfl : scanned = proverScan log := hquiet
    refine hstill _ hfollows ⟨⟨log.settled, ⟨rfl, le_rfl, le_rfl, ?_, ?_, ?_, ?_⟩, rfl⟩, hcfg⟩
    · intro slot hle hlt
      exact absurd hle hlt.not_ge
    · intro slot _ hle hlt
      exact absurd hle (not_le.mpr hlt)
    · exact hranges.settled_le hruled
    · exact (hruled.countBelow_le hnum _).trans hcount.le
  | read v n =>
    obtain ⟨⟨first, hqueue, hnext⟩, hsize⟩ := hqueues
    refine hstill _ hfollows ⟨⟨first, ⟨hqueue.slots, hqueue.settled, hqueue.upTo,
      hqueue.attested, hqueue.left, hqueue.ruled, ?_⟩, hnext⟩, hsize⟩
    have hprocessed : ProverVars.processed
        { v with cursor := v.cursor + ((log.drop v.cursor).take n).length }
        ((log.drop v.cursor).take n) = v.processed [] := Nat.add_sub_cancel _ _
    rw [hprocessed]
    exact hqueue.passed
  | drained v => exact hstill _ hfollows hqueues
  | entry v entry batch task hentry =>
    exact hstill _ hfollows (hentry.queues hcfg hruled (hfollows₀.vars v _ rfl) hqueues.1
      hqueues.2)
  | tick v hp =>
    obtain ⟨⟨first, hqueue, hnext⟩, hsize⟩ := hqueues
    exact hstill _ hfollows (Queue.flush (k := .select) hqueue hp hsize.le)
  | proved v fromSlot toSlot taken k answer =>
    obtain ⟨hqueue, hpending, hle, hto, hsize⟩ := hqueues
    have hruled' := hruled.append_of_none (outcome_ruling? fromSlot toSlot answer)
    have hranges' := hqueue.append_outcome hranges hle hto hsize answer
    have hprocessed := (hfollows₀.vars v k.batch rfl).processed_le
    have hempty := hqueue.queued_append_outcome hto hpending hprocessed answer
    have hlen : v.pending.length = 0 := by rw [hpending, List.length_nil]
    refine ⟨hruled', hranges', hfollows, ?_⟩
    cases k with
    | select => exact ⟨hempty, by omega⟩
    | atSizeCheck batch => exact Queued.sizeCheck hempty hcfg (by omega)
    | atNext batch => exact ⟨hempty, by omega⟩

lemma ProverInv.append_of_none {task : ProverTask} {e : Entry} (h : ProverInv cfg log task)
    (he : RulesNext log e) (hnone : e.settledTo? = none) :
    ProverInv cfg (log ++ [e]) task where
  ruled := h.ruled.append he
  ranges := h.ranges.append_of_none h.ruled he hnone
  follows := h.follows.append [e]
  queues := h.queues.append_of_none h.follows.vars he hnone

/-! ### Batches of no slots -/

/-- A running task that holds nothing has nothing to prove, either. -/
def HoldsNothing : ProverTask → Prop
  | .waiting v => v.awaiting = ∅ ∧ v.pending = []
  | .draining v _ => v.awaiting = ∅ ∧ v.pending = []
  | .proving _ _ _ _ _ => False
  | _ => True

lemma holdsNothing_sizeCheck {v : ProverVars} (hcfg : cfg.batchSize = 0) (hp : v.pending = [])
    (batch : List Entry) : HoldsNothing (sizeCheck cfg v batch) := by
  rcases sizeCheck_cases cfg v batch with ⟨hlt, -⟩ | ⟨-, h⟩
  · omega
  · rw [h, flush_eq_panicked.mpr hp]
    trivial

/-- With batches of no slots the prover never holds a slot, and never writes. -/
lemma ProverMove.holdsNothing {task task' : ProverTask} {e : ProverEvent} {o : Option Entry}
    (hmove : ProverMove cfg log task e task' o) (hcfg : cfg.batchSize = 0)
    (h : HoldsNothing task) : HoldsNothing task' ∧ o = none := by
  cases hmove with
  | idle => exact ⟨h, rfl⟩
  | stop | scan | timer => exact ⟨trivial, rfl⟩
  | readHead => exact ⟨⟨rfl, rfl⟩, rfl⟩
  | read => exact ⟨h, rfl⟩
  | drained => exact ⟨h, rfl⟩
  | tick v hp => exact absurd h.2 hp
  | proved => exact h.elim
  | entry v entry batch task hentry =>
    obtain ⟨hawaiting, hpending⟩ := h
    refine ⟨?_, rfl⟩
    cases hentry with
    | pass | commit | failed =>
      refine holdsNothing_sizeCheck hcfg ?_ _
      exact hpending
    | stale => exact ⟨hawaiting, hpending⟩
    | gap | missing => trivial
    | attested a _ s _ hs =>
      rw [hawaiting] at hs
      simp at hs
    | failedFlush _ _ _ hp => exact absurd hpending hp

/-! ### At rest -/

lemma RangesInOrder.eq_of_mem {batchSize : ℕ} (h : RangesInOrder batchSize log) {r r' : ℕ × ℕ}
    (hr : r ∈ log.ranges) (hr' : r' ∈ log.ranges) {slot : ℕ} (hin : r.1 ≤ slot ∧ slot ≤ r.2)
    (hin' : r'.1 ≤ slot ∧ slot ≤ r'.2) : r = r' := by
  by_contra hne
  have hapart : log.ranges.Pairwise fun r r' => r.2 < r'.1 ∨ r'.2 < r.1 :=
    h.ascending.imp Or.inl
  have : Std.Symm fun r r' : ℕ × ℕ => r.2 < r'.1 ∨ r'.2 < r.1 := ⟨fun _ _ => Or.symm⟩
  rcases hapart.forall hr hr' hne with hlt | hlt
  · omega
  · omega

/-- With nothing queued and everything processed, the ranges partition the attested slots. -/
lemma Queued.existsUnique_range {batchSize : ℕ} {v : ProverVars} (h : Queued log v [])
    (hruled : Log.RuledInOrder log) (hranges : RangesInOrder batchSize log)
    (hcursor : v.cursor = log.head) (hpending : v.pending = []) {slot : ℕ}
    (hslot : slot ∈ log.attested) :
    ∃! r : ℕ × ℕ, r ∈ log.ranges ∧ r.1 ≤ slot ∧ slot ≤ r.2 := by
  obtain ⟨first, hqueue, hnext⟩ := h
  have hpassed := hqueue.passed
  have hall : log.countBelow Entry.ruling? (v.processed []) = log.rulings.length :=
    Log.countBelow_of_length_le hcursor.ge
  have hlt := hruled.lt_of_mem (Log.mem_rulings_of_attested hslot)
  have hlen : v.pending.length = 0 := by rw [hpending, List.length_nil]
  have hsettled : slot < log.settled := by
    by_contra hle
    have hin := hqueue.left slot hslot (not_lt.mp hle) (by omega)
    omega
  obtain ⟨r, hr, hin⟩ := hranges.covered slot hslot hsettled
  exact ⟨r, ⟨hr, hin⟩, fun r' hr' => hranges.eq_of_mem hr'.1 hr hr'.2 hin⟩

/-! ### Since a start -/

/-- The task has recovered, and its next slot was at least `first` then. -/
def StartedFrom (first : ℕ) : ProverTask → Prop
  | .down => False
  | .recovering _ => False
  | .waiting v => first ≤ v.nextSlot
  | .draining v _ => first ≤ v.nextSlot
  | .proving v _ _ _ _ => first ≤ v.nextSlot
  | _ => True

section StartedFrom

variable {v : ProverVars} {first : ℕ}

lemma StartedFrom.le_nextSlot {task : ProverTask} {batch : List Entry}
    (h : StartedFrom first task) (hv : task.vars? = some (v, batch)) : first ≤ v.nextSlot := by
  cases task with
  | waiting v' =>
    obtain ⟨rfl, -⟩ := Prod.mk.inj (Option.some.inj hv)
    exact h
  | draining v' batch' =>
    obtain ⟨rfl, -⟩ := Prod.mk.inj (Option.some.inj hv)
    exact h
  | proving v' fromSlot toSlot taken k =>
    obtain ⟨rfl, -⟩ := Prod.mk.inj (Option.some.inj hv)
    exact h
  | _ => simp [ProverTask.vars?] at hv

lemma StartedFrom.flush (h : first ≤ v.nextSlot) (k : AfterFlush) :
    StartedFrom first (flush v k) := by
  by_cases hp : v.pending = []
  · rw [flush_eq_panicked.mpr hp]
    trivial
  · rw [flush_of_ne_nil k hp]
    exact h

lemma StartedFrom.sizeCheck (h : first ≤ v.nextSlot) (batch : List Entry) :
    StartedFrom first (sizeCheck cfg v batch) := by
  rcases sizeCheck_cases cfg v batch with ⟨-, hcheck⟩ | ⟨-, hcheck⟩
  · rw [hcheck]
    exact h
  · rw [hcheck]
    exact StartedFrom.flush h _

lemma EntryMove.startedFrom {e : Entry} {batch : List Entry} {task : ProverTask}
    (hmove : EntryMove cfg v e batch task) (h : first ≤ v.nextSlot) : StartedFrom first task := by
  have hsucc : first ≤ v.nextSlot + 1 := h.trans (Nat.le_succ _)
  cases hmove with
  | stale => exact h
  | gap | missing => trivial
  | pass | commit =>
    refine StartedFrom.sizeCheck ?_ batch
    exact h
  | attested | failed =>
    refine StartedFrom.sizeCheck ?_ batch
    exact hsucc
  | failedFlush =>
    refine StartedFrom.flush ?_ _
    exact hsucc

/-- Until a crash the next slot only grows. -/
lemma ProverMove.startedFrom {task task' : ProverTask} {e : ProverEvent} {o : Option Entry}
    (hmove : ProverMove cfg log task e task' o) (he : e ≠ .crash) (h : StartedFrom first task) :
    StartedFrom first task' := by
  cases hmove with
  | idle => exact h
  | stop task e hcrash => exact absurd hcrash he
  | scan | readHead | timer => exact h.elim
  | read | drained => exact h
  | entry v entry batch task hentry => exact hentry.startedFrom h
  | tick v hp => exact StartedFrom.flush h _
  | proved v fromSlot toSlot taken k answer =>
    cases k with
    | select | atNext => exact h
    | atSizeCheck batch => exact StartedFrom.sizeCheck h batch

end StartedFrom

/-! ### Runs of the prover -/

/-- Entries of the others: numbered slots, rulings in order, and anything else that settles
no slot. -/
def BesideProver (log : Log) (e : Entry) : Prop :=
  CommitsNext log e ∧ RulesNext log e ∧ e.settledTo? = none

instance (log : Log) : DecidablePred (BesideProver log) := fun _ =>
  inferInstanceAs (Decidable (_ ∧ _ ∧ _))

/-- The prover beside stages that number their slots and rule on them in order. -/
def proverSystem (cfg : BatchConfig) : Stage Entry (ProverTask × Unit) (ProverEvent ⊕ Entry) :=
  (prover cfg).par (Stage.surroundings BesideProver)

lemma proverSystem_upholds (cfg : BatchConfig) :
    (proverSystem cfg).Upholds (fun log e => CommitsNext log e ∧ e.settledTo? = none)
      (fun log e => ProverWrites log e ∨ BesideProver log e)
      (fun log s => Log.Numbered log ∧ SettledCommitted log ∧ ProverReads log s.1) :=
  (prover_upholds cfg).beside BesideProver fun _ _ _ _ he => ⟨he.1, he.2.2⟩

lemma proverInv_run (hcfg : 1 ≤ cfg.batchSize) (es : List (ProverEvent ⊕ Entry))
    (hes : (proverSystem cfg).Along (Stage.onLeft ProverQuiescent) es) :
    ProverInv cfg ((proverSystem cfg).run es).log ((proverSystem cfg).run es).state.1 := by
  refine (proverSystem_upholds cfg).along_left (J := ProverInv cfg) ?_ ?_ ?_ es hes
  · exact ⟨Log.RuledInOrder.nil, RangesInOrder.nil, ⟨by simp [prover, ProverTask.vars?],
      by simp [prover]⟩, trivial⟩
  · intro log task t e hI h hquiet
    exact (proverStep_move cfg log task e).inv hcfg hI.1 hI.2.1 hquiet h
  · intro log task t d x hI h hx
    obtain ⟨rfl, hok⟩ := Stage.surroundings_step_eq_some hx
    exact h.append_of_none hok.2.1 hok.2.2

/-- What is awaited was committed since the task has started. -/
lemma awaiting_since_start (hcfg : 1 ≤ cfg.batchSize) (es es' : List (ProverEvent ⊕ Entry))
    (hes : (proverSystem cfg).Along (Stage.onLeft ProverQuiescent) (es ++ .inl .readHead :: es'))
    {scanned : Scanned} (hstart : ((proverSystem cfg).run es).state.1 = .recovering scanned)
    (hup : .inl .crash ∉ es') {v : ProverVars} {batch : List Entry}
    (hv : ((proverSystem cfg).run (es ++ .inl .readHead :: es')).state.1.vars? =
      some (v, batch)) (slot : ℕ) (s : CommittedSlot) :
    let start := (recoverProver scanned (Log.head ((proverSystem cfg).run es).log)).1
    let log : Log := ((proverSystem cfg).run (es ++ .inl .readHead :: es')).log
    v.awaiting.lookup slot = some s ↔ v.nextSlot ≤ slot ∧
      ∃ c ∈ Log.commits ((log.take (v.processed batch)).drop start),
        c.slot = slot ∧ c.contents = s := by
  intro start log
  have hnum : Log.Numbered log := ((proverSystem_upholds cfg).run _).1
  have hfollows : Follows log v batch := (proverInv_run hcfg _ hes).follows.vars v batch hv
  refine hfollows.awaiting_since hnum ?_ slot s
  -- the slots below the start are the settled ones
  have hbefore := (proverSystem_upholds cfg).run es
  have hquiet : ProverQuiescent ((proverSystem cfg).run es).log
      ((proverSystem cfg).run es).state.1 .readHead := (Stage.alongFrom_append.mp hes).2.1
  rw [hstart] at hquiet
  obtain ⟨hle, hcount⟩ := hquiet.covers.committedBelow_recoverProver hbefore.1 hbefore.2.1
  obtain ⟨rest, hrest⟩ := (proverSystem cfg).log_prefix_run_append es (.inl .readHead :: es')
  have hbelow : log.committedBelow start = scanned.nextSlot := by
    rw [show log = _ from hrest.symm, Log.committedBelow, Log.countBelow_append hle]
    exact hcount
  -- and the next slot has not gone back since
  have hstarted : StartedFrom scanned.nextSlot
      ((proverSystem cfg).run (es ++ .inl .readHead :: es')).state.1 := by
    rw [Stage.run_append, Stage.runFrom_cons]
    refine Stage.runFrom_induction (S := proverSystem cfg)
      (P := fun w => StartedFrom scanned.nextSlot w.state.1) ?_ ?_
    · show StartedFrom _ (proverStep cfg _ ((proverSystem cfg).run es).state.1 .readHead).1
      rw [hstart, proverStep]
      split_ifs
      · trivial
      · exact le_rfl
    · rintro w (e | x) he hw
      · refine (proverStep_move cfg w.log w.state.1 e).startedFrom ?_ hw
        rintro rfl
        exact hup he
      · exact hw
  exact hbelow.trans_le (hstarted.le_nextSlot hv)

/-- **The outcomes partition the attested slots.**  In every run beside stages that number
their slots and rule on them in order, with any batches, timer ticks and answers of the
backend, crashes anywhere and recovery on a log that nobody is writing: the prover never
stops; the settled ranges ascend, hold at most a batch each, and attested slots only; with
the cursor at the head, nothing left to process, nothing pending and no flush in flight,
every attested slot is in exactly one range; and what is awaited is what was committed since
the last start with a slot that is not below the next one. -/
theorem outcomes_partition (cfg : BatchConfig) (hcfg : 1 ≤ cfg.batchSize)
    (es : List (ProverEvent ⊕ Entry))
    (hes : (proverSystem cfg).Along (Stage.onLeft ProverQuiescent) es) :
    let log : Log := ((proverSystem cfg).run es).log
    let task := ((proverSystem cfg).run es).state.1
    (∀ err, task ≠ .stopped err) ∧ task ≠ .panicked ∧
      (log.ranges.Pairwise fun r r' => r.2 < r'.1) ∧
      (∀ r ∈ log.ranges, r.1 ≤ r.2 ∧ r.2 + 1 - r.1 ≤ cfg.batchSize ∧
        ∀ slot, r.1 ≤ slot → slot ≤ r.2 → slot ∈ log.attested) ∧
      (∀ v, task = .waiting v ∨ task = .draining v [] → v.cursor = log.head → v.pending = [] →
        ∀ slot ∈ log.attested, ∃! r : ℕ × ℕ, r ∈ log.ranges ∧ r.1 ≤ slot ∧ slot ≤ r.2) ∧
      ∀ (es₁ es₂ : List (ProverEvent ⊕ Entry)) (scanned : Scanned),
        es = es₁ ++ .inl .readHead :: es₂ →
        ((proverSystem cfg).run es₁).state.1 = .recovering scanned → .inl .crash ∉ es₂ →
        let start := (recoverProver scanned (Log.head ((proverSystem cfg).run es₁).log)).1
        ∀ v batch, task.vars? = some (v, batch) → ∀ slot s,
          v.awaiting.lookup slot = some s ↔ v.nextSlot ≤ slot ∧
            ∃ c ∈ Log.commits ((log.take (v.processed batch)).drop start),
              c.slot = slot ∧ c.contents = s := by
  intro log task
  have hinv : ProverInv cfg log task := proverInv_run hcfg es hes
  have hqueues := hinv.queues
  refine ⟨?_, ?_, hinv.ranges.ascending, ?_, ?_, ?_⟩
  · intro err hstopped
    rw [hstopped] at hqueues
    exact hqueues
  · intro hpanicked
    rw [hpanicked] at hqueues
    exact hqueues
  · intro r hr
    obtain ⟨hle, hsize⟩ := hinv.ranges.batches r hr
    exact ⟨hle, hsize, hinv.ranges.attested r hr⟩
  · rintro v (hv | hv) hcursor hpending slot hslot
    · rw [hv] at hqueues
      exact hqueues.1.existsUnique_range hinv.ruled hinv.ranges hcursor hpending hslot
    · rw [hv] at hqueues
      exact hqueues.1.existsUnique_range hinv.ruled hinv.ranges hcursor hpending hslot
  · rintro es₁ es₂ scanned rfl hstart hup start v batch hv slot s
    exact awaiting_since_start hcfg es₁ es₂ hes hstart hup hv slot s

/-- Slot 0 is attested and slot 1 fails.  The timer flushes slot 0, and the prover crashes
while the backend is proving it; started again, it reads slot 0 once more, and the failed
slot closes the batch. -/
def crashWhileProving : List (ProverEvent ⊕ Entry) :=
  [.inr (.slotCommitted ⟨0, [], 0, @commit fixtureKeccak 0 [], testNow⟩), .inl .scan,
    .inl .readHead, .inr (.slotAttested ⟨0, [], ⟨Bytes.ofNat 32 1⟩⟩), .inl (.doorbell 2),
    .inl .process, .inl .process, .inl .process, .inl .tick, .inl .crash,
    .inr (.slotCommitted ⟨1, [], 0, @commit fixtureKeccak 1 [], testNow⟩),
    .inr (.attestFailed ⟨1, "enclave unavailable"⟩), .inl .scan, .inl .readHead,
    .inl (.doorbell 4), .inl .process, .inl .process, .inl .process, .inl .process,
    .inl (.proved (.error (.backend "out of memory"))), .inl .process, .inl (.doorbell 1),
    .inl .process]

theorem outcomes_partition_crashWhileProving :
    ∃! r : ℕ × ℕ, r ∈ Log.ranges ((proverSystem ⟨2, ⟨5, 0⟩⟩).run crashWhileProving).log ∧
      r.1 ≤ 0 ∧ 0 ≤ r.2 := by
  have hrest := (outcomes_partition ⟨2, ⟨5, 0⟩⟩ (by decide) crashWhileProving
    (by decide +kernel)).2.2.2.2.1
  exact hrest ⟨∅, [], 5, 2⟩ (Or.inr (by decide +kernel)) (by decide +kernel) rfl 0
    (by decide +kernel)

/-- While slot 0 is being proved, slot 1 is in the rest of the batch: the cursor has moved
past it, it is not pending, and no range holds it yet. -/
def provingMidBatch : List (ProverEvent ⊕ Entry) :=
  [.inr (.slotCommitted ⟨0, [], 0, @commit fixtureKeccak 0 [], testNow⟩),
    .inr (.slotAttested ⟨0, [], ⟨Bytes.ofNat 32 1⟩⟩),
    .inr (.slotCommitted ⟨1, [], 0, @commit fixtureKeccak 1 [], testNow⟩),
    .inr (.slotAttested ⟨1, [], ⟨Bytes.ofNat 32 1⟩⟩), .inl .scan, .inl .readHead,
    .inl (.doorbell 4), .inl .process, .inl .process]

theorem unsettled_provingMidBatch :
    ¬ ∀ (cfg : BatchConfig) (es : List (ProverEvent ⊕ Entry)), 1 ≤ cfg.batchSize →
      (proverSystem cfg).Along (Stage.onLeft ProverQuiescent) es →
      let log : Log := ((proverSystem cfg).run es).log
      ∀ v batch, ((proverSystem cfg).run es).state.1.vars? = some (v, batch) →
        v.cursor = log.head → v.pending = [] →
        ∀ slot ∈ log.attested, ∃! r : ℕ × ℕ, r ∈ log.ranges ∧ r.1 ≤ slot ∧ slot ≤ r.2 := by
  intro h
  obtain ⟨v, batch, hv, hcursor, hpending⟩ :
      ∃ v batch, ((proverSystem ⟨1, ⟨5, 0⟩⟩).run provingMidBatch).state.1.vars? =
        some (v, batch) ∧ v.cursor = 4 ∧ v.pending = [] := ⟨_, _, rfl, rfl, rfl⟩
  obtain ⟨r, ⟨hr, -⟩, -⟩ := h ⟨1, ⟨5, 0⟩⟩ provingMidBatch (by decide) (by decide +kernel) v batch
    hv (hcursor.trans (by decide +kernel)) hpending 1 (by decide +kernel)
  have hnone : Log.ranges ((proverSystem ⟨1, ⟨5, 0⟩⟩).run provingMidBatch).log = [] := by
    decide +kernel
  rw [hnone] at hr
  simp at hr

end Zequencer
