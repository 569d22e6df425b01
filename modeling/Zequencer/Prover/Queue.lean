/-
# The queue and the settled ranges

The slots below the next one are ruled on.  Those that were attested are settled, in
ascending ranges of at most a batch each, or queued; the queued ones are consecutive and
follow the settled ones.  Each of the three flushes turns the queue into the next range.
-/
import Zequencer.Prover.Awaiting
import Zequencer.Prover.Batches

namespace Zequencer

/-- The slot an entry attests. -/
def Entry.attested? : Entry → Option ℕ
  | .slotAttested a => some a.slot
  | _ => none

/-- The range of slots an outcome settles. -/
def Entry.range? : Entry → Option (ℕ × ℕ)
  | .slotsProven p => some (p.fromSlot, p.toSlot)
  | .proveFailed f => some (f.fromSlot, f.toSlot)
  | _ => none

namespace Log

/-- The attested slots, in log order. -/
def attested (log : Log) : List ℕ := log.filterMap Entry.attested?

/-- The settled ranges, in log order. -/
def ranges (log : Log) : List (ℕ × ℕ) := log.filterMap Entry.range?

/-- The first slot past everything settled. -/
def settled (log : Log) : ℕ := (proverScan log).nextSlot

@[simp] lemma attested_append (log log' : Log) :
    attested (log ++ log') = attested log ++ attested log' :=
  List.filterMap_append

lemma mem_attested {log : Log} {slot : ℕ} :
    slot ∈ log.attested ↔ ∃ a, .slotAttested a ∈ log ∧ a.slot = slot := by
  simp only [attested, List.mem_filterMap]
  constructor
  · rintro ⟨e, he, hslot⟩
    cases e with
    | slotAttested a => exact ⟨a, he, Option.some.inj hslot⟩
    | _ => simp [Entry.attested?] at hslot
  · rintro ⟨a, ha, rfl⟩
    exact ⟨_, ha, rfl⟩

lemma mem_rulings_of_attested {log : Log} {slot : ℕ} (h : slot ∈ log.attested) :
    slot ∈ log.rulings := by
  obtain ⟨a, ha, rfl⟩ := mem_attested.mp h
  exact mem_rulings.mpr ⟨_, ha, rfl⟩

lemma mem_attested_append {log : Log} {e : Entry} {slot : ℕ}
    (h : slot ∈ Log.attested (log ++ [e])) : slot ∈ log.attested ∨ e.ruling? = some slot := by
  rw [attested_append, List.mem_append] at h
  rcases h with h | h
  · exact Or.inl h
  · obtain ⟨a, ha, rfl⟩ := mem_attested.mp h
    obtain rfl := List.mem_singleton.mp ha
    exact Or.inr rfl

lemma mem_attested_append_left {log : Log} {slot : ℕ} (h : slot ∈ log.attested) (log' : Log) :
    slot ∈ Log.attested (log ++ log') := by
  rw [attested_append]
  exact List.mem_append_left _ h

lemma settled_append_of_none {log : Log} {e : Entry} (h : e.settledTo? = none) :
    settled (log ++ [e]) = settled log := by
  rw [settled, proverScan, scanLog_append]
  cases e <;> first | rfl | simp [Entry.settledTo?] at h

lemma settled_append_of_some {log : Log} {e : Entry} {slot : ℕ} (h : e.settledTo? = some slot) :
    settled (log ++ [e]) = max (settled log) (slot + 1) := by
  have hdone : (proverScan (log ++ [e])).doneThrough =
      some ((proverScan log).doneThrough.elim slot fun d => max d slot) := by
    rw [proverScan, scanLog_append]
    cases e with
    | slotsProven p =>
      obtain rfl : p.toSlot = slot := Option.some.inj h
      rfl
    | proveFailed f =>
      obtain rfl : f.toSlot = slot := Option.some.inj h
      rfl
    | _ => simp [Entry.settledTo?] at h
  rw [settled, settled, Scanned.nextSlot, Scanned.nextSlot, hdone]
  cases (proverScan log).doneThrough with
  | none => simp
  | some d =>
    show max d slot + 1 = max (d + 1) (slot + 1)
    omega

lemma settledTo?_of_range? {e : Entry} {r : ℕ × ℕ} (h : e.range? = some r) :
    e.settledTo? = some r.2 := by
  cases e with
  | slotsProven p =>
    obtain rfl : (p.fromSlot, p.toSlot) = r := Option.some.inj h
    rfl
  | proveFailed f =>
    obtain rfl : (f.fromSlot, f.toSlot) = r := Option.some.inj h
    rfl
  | _ => simp [Entry.range?] at h

lemma exists_range?_of_settledTo? {e : Entry} {slot : ℕ} (h : e.settledTo? = some slot) :
    ∃ r, e.range? = some r ∧ r.2 = slot := by
  cases e with
  | slotsProven p => exact ⟨_, rfl, Option.some.inj h⟩
  | proveFailed f => exact ⟨_, rfl, Option.some.inj h⟩
  | _ => simp [Entry.settledTo?] at h

lemma range?_of_settledTo?_eq_none {e : Entry} (h : e.settledTo? = none) : e.range? = none := by
  cases hr : e.range? with
  | none => rfl
  | some r =>
    rw [settledTo?_of_range? hr] at h
    simp at h

lemma settled_le {log : Log} {slot : ℕ} :
    log.settled ≤ slot ↔ ∀ d ∈ log.filterMap Entry.settledTo?, d < slot :=
  nextSlot_scanLog_le fun _ => rfl

lemma lt_settled {log : Log} {r : ℕ × ℕ} (h : r ∈ log.ranges) : r.2 < log.settled := by
  obtain ⟨e, he, hr⟩ := List.mem_filterMap.mp h
  exact settled_le.mp le_rfl r.2 (List.mem_filterMap.mpr ⟨e, he, settledTo?_of_range? hr⟩)

end Log

/-! ### The settled ranges -/

/-- The ranges ascend, hold at most a batch of attested slots each, and every attested slot
below the first unsettled one is in a range. -/
structure RangesInOrder (batchSize : ℕ) (log : Log) : Prop where
  ascending : log.ranges.Pairwise fun r r' => r.2 < r'.1
  batches : ∀ r ∈ log.ranges, r.1 ≤ r.2 ∧ r.2 + 1 - r.1 ≤ batchSize
  attested : ∀ r ∈ log.ranges, ∀ slot, r.1 ≤ slot → slot ≤ r.2 → slot ∈ log.attested
  covered : ∀ slot ∈ log.attested, slot < log.settled →
    ∃ r ∈ log.ranges, r.1 ≤ slot ∧ slot ≤ r.2

section Ranges

variable {batchSize : ℕ} {log : Log}

lemma RangesInOrder.nil : RangesInOrder batchSize [] where
  ascending := List.Pairwise.nil
  batches := by simp [Log.ranges]
  attested := by simp [Log.ranges]
  covered := by simp [Log.attested]

lemma RangesInOrder.settled_le (h : RangesInOrder batchSize log)
    (hruled : Log.RuledInOrder log) : log.settled ≤ log.rulings.length := by
  refine Log.settled_le.mpr fun d hd => ?_
  obtain ⟨e, he, hslot⟩ := List.mem_filterMap.mp hd
  obtain ⟨r, hr, rfl⟩ := Log.exists_range?_of_settledTo? hslot
  have hmem : r ∈ log.ranges := List.mem_filterMap.mpr ⟨e, he, hr⟩
  exact hruled.lt_of_mem (Log.mem_rulings_of_attested
    (h.attested r hmem r.2 (h.batches r hmem).1 le_rfl))

/-- What the others rule: the next slot, once it is committed. -/
def RulesNext (log : Log) (e : Entry) : Prop :=
  ∀ slot ∈ e.ruling?, slot = log.rulings.length ∧ ∃ c ∈ log.commits, c.slot = slot

instance (log : Log) : DecidablePred (RulesNext log) := fun e =>
  inferInstanceAs (Decidable (∀ slot ∈ e.ruling?, slot = log.rulings.length ∧
    ∃ c ∈ log.commits, c.slot = slot))

lemma Log.RuledInOrder.append {e : Entry} (h : Log.RuledInOrder log) (he : RulesNext log e) :
    Log.RuledInOrder (log ++ [e]) := by
  cases hr : e.ruling? with
  | none => exact h.append_of_none hr
  | some slot =>
    obtain ⟨hslot, hc⟩ := he slot hr
    exact h.append_ruling hr hslot hc

/-- The last entry of a log ruled on in order rules on the next slot, if on any. -/
lemma Log.RuledInOrder.rulesNext {e : Entry} (h : Log.RuledInOrder (log ++ [e])) :
    RulesNext log e := by
  intro slot hslot
  have hget : (log ++ [e])[log.length]? = some e := List.getElem?_concat_length
  have hcount := h.slot_eq hget hslot
  rw [Log.countBelow_append le_rfl, Log.countBelow_of_length_le le_rfl] at hcount
  obtain ⟨p, c, hp, hc, hcslot⟩ := h.after log.length e slot hget hslot
  rw [List.getElem?_append_left hp] at hc
  exact ⟨hcount, c, Log.mem_commits_of_getElem? hc, hcslot⟩

lemma RulesNext.attested {e : Entry} (he : RulesNext log e) {slot : ℕ}
    (h : slot ∈ Log.attested (log ++ [e])) :
    slot ∈ log.attested ∨ slot = log.rulings.length := by
  rcases Log.mem_attested_append h with h | h
  · exact Or.inl h
  · exact Or.inr (he slot h).1

/-- Rulings of others keep the ranges in order: they come after everything settled. -/
lemma RangesInOrder.append_of_none {e : Entry} (h : RangesInOrder batchSize log)
    (hruled : Log.RuledInOrder log) (he : RulesNext log e) (hnone : e.settledTo? = none) :
    RangesInOrder batchSize (log ++ [e]) := by
  have hranges : Log.ranges (log ++ [e]) = log.ranges := by
    simp [Log.ranges, Log.range?_of_settledTo?_eq_none hnone]
  refine ⟨hranges ▸ h.ascending, hranges ▸ h.batches, ?_, ?_⟩
  · intro r hr slot hle hle'
    rw [hranges] at hr
    exact Log.mem_attested_append_left (h.attested r hr slot hle hle') _
  · intro slot hslot hlt
    rw [Log.settled_append_of_none hnone] at hlt
    rw [hranges]
    rcases he.attested hslot with hslot | rfl
    · exact h.covered slot hslot hlt
    · exact absurd (h.settled_le hruled) hlt.not_ge

/-- The next range: it starts at or past everything settled, holds at most a batch of
attested slots, and leaves no attested slot behind. -/
lemma RangesInOrder.append_range {e : Entry} {fromSlot toSlot : ℕ}
    (h : RangesInOrder batchSize log) (he : e.range? = some (fromSlot, toSlot))
    (hnone : e.attested? = none) (hsettled : log.settled ≤ fromSlot) (hle : fromSlot ≤ toSlot)
    (hsize : toSlot + 1 - fromSlot ≤ batchSize)
    (hattested : ∀ slot, fromSlot ≤ slot → slot ≤ toSlot → slot ∈ log.attested)
    (hleft : ∀ slot ∈ log.attested, log.settled ≤ slot → slot ≤ toSlot → fromSlot ≤ slot) :
    RangesInOrder batchSize (log ++ [e]) := by
  have hranges : Log.ranges (log ++ [e]) = log.ranges ++ [(fromSlot, toSlot)] := by
    simp [Log.ranges, he]
  have hattest : Log.attested (log ++ [e]) = log.attested := by
    simp [Log.attested, hnone]
  constructor
  · rw [hranges, List.pairwise_concat]
    exact ⟨h.ascending, fun r hr => (Log.lt_settled hr).trans_le hsettled⟩
  · intro r hr
    rw [hranges, List.mem_append, List.mem_singleton] at hr
    rcases hr with hr | rfl
    · exact h.batches r hr
    · exact ⟨hle, hsize⟩
  · intro r hr slot hfrom hto
    rw [hranges, List.mem_append, List.mem_singleton] at hr
    rw [hattest]
    rcases hr with hr | rfl
    · exact h.attested r hr slot hfrom hto
    · exact hattested slot hfrom hto
  · intro slot hslot hlt
    rw [hattest] at hslot
    rw [hranges]
    by_cases hold : slot < log.settled
    · obtain ⟨r, hr, hin⟩ := h.covered slot hslot hold
      exact ⟨r, List.mem_append_left _ hr, hin⟩
    · rw [Log.settled_append_of_some (Log.settledTo?_of_range? he)] at hlt
      have hto : slot ≤ toSlot := by
        show slot ≤ (fromSlot, toSlot).2
        omega
      exact ⟨_, List.mem_append_right _ (List.mem_singleton_self _),
        hleft slot hslot (not_lt.mp hold) hto, hto⟩

end Ranges

/-! ### The queue -/

/-- The queued slots against the log: consecutive, attested, past everything settled, and
all that is attested between there and the next slot. -/
structure Queue (log : Log) (v : ProverVars) (batch : List Entry) (queued : List CommittedSlot)
    (first : ℕ) : Prop where
  slots : queued.map CommittedSlot.slot = List.range' first queued.length
  settled : log.settled ≤ first
  upTo : first + queued.length ≤ v.nextSlot
  attested : ∀ slot, first ≤ slot → slot < first + queued.length → slot ∈ log.attested
  left : ∀ slot ∈ log.attested, log.settled ≤ slot → slot < v.nextSlot →
    first ≤ slot ∧ slot < first + queued.length
  /-- Every slot below the next one is ruled on. -/
  ruled : v.nextSlot ≤ log.rulings.length
  /-- No ruling past the next slot is processed yet. -/
  passed : log.countBelow Entry.ruling? (v.processed batch) ≤ v.nextSlot

/-- The queue of a task that is not flushing: it ends at the next slot. -/
def Queued (log : Log) (v : ProverVars) (batch : List Entry) : Prop :=
  ∃ first, Queue log v batch v.pending first ∧ first + v.pending.length = v.nextSlot

/-- How the queue follows the log, by what the task is doing. -/
def ProverQueues (cfg : BatchConfig) (log : Log) : ProverTask → Prop
  | .waiting v => Queued log v [] ∧ v.pending.length < cfg.batchSize
  | .draining v batch => Queued log v batch ∧ v.pending.length < cfg.batchSize
  | .proving v fromSlot toSlot taken k =>
    Queue log v k.batch taken fromSlot ∧ v.pending = [] ∧
      fromSlot ≤ toSlot ∧ toSlot + 1 = fromSlot + taken.length ∧ taken.length ≤ cfg.batchSize
  | .stopped _ => False
  | .panicked => False
  | .timerPanicked => cfg.flushAfter = .ZERO
  | _ => True

section Queue

variable {cfg : BatchConfig} {log : Log} {v : ProverVars} {batch : List Entry}
  {queued : List CommittedSlot} {first : ℕ}

lemma Queue.run (h : Queue log v batch queued first) : RunFrom first queued := h.slots

/-- The next slot is attested, and joins the queue. -/
lemma Queue.push (h : Queue log v batch queued first)
    (hnext : first + queued.length = v.nextSlot) (hattested : v.nextSlot ∈ log.attested)
    {s : CommittedSlot} (hs : s.slot = v.nextSlot) {v' : ProverVars} {batch' : List Entry}
    (hnext' : v'.nextSlot = v.nextSlot + 1) (hruled : v'.nextSlot ≤ log.rulings.length)
    (hpassed : log.countBelow Entry.ruling? (v'.processed batch') ≤ v'.nextSlot) :
    Queue log v' batch' (queued ++ [s]) first := by
  have hlen : (queued ++ [s]).length = queued.length + 1 := by simp
  refine ⟨h.run.concat (hs.trans hnext.symm), h.settled, ?_, ?_, ?_, hruled, hpassed⟩
  · omega
  · intro slot hle hlt
    by_cases hold : slot < first + queued.length
    · exact h.attested slot hle hold
    · obtain rfl : slot = v.nextSlot := by omega
      exact hattested
  · intro slot hslot hle hlt
    by_cases hold : slot < v.nextSlot
    · have hin := h.left slot hslot hle hold
      omega
    · omega

lemma Queue.skip (h : Queue log v batch queued first) (hfailed : v.nextSlot ∉ log.attested)
    {v' : ProverVars} {batch' : List Entry} (hnext' : v'.nextSlot = v.nextSlot + 1)
    (hruled : v'.nextSlot ≤ log.rulings.length)
    (hpassed : log.countBelow Entry.ruling? (v'.processed batch') ≤ v'.nextSlot) :
    Queue log v' batch' queued first := by
  refine ⟨h.slots, h.settled, ?_, h.attested, ?_, hruled, hpassed⟩
  · have hupTo := h.upTo
    omega
  · intro slot hslot hle hlt
    have hne : slot ≠ v.nextSlot := by
      rintro rfl
      exact hfailed hslot
    exact h.left slot hslot hle (by omega)

/-- An empty queue may as well start at the next slot. -/
lemma Queue.queued_of_pending_eq_nil (h : Queue log v batch [] first) (hp : v.pending = []) :
    Queued log v batch := by
  have hupTo := h.upTo
  rw [List.length_nil, add_zero] at hupTo
  rw [Queued, hp]
  refine ⟨v.nextSlot, ⟨rfl, h.settled.trans hupTo, le_rfl, ?_, ?_, h.ruled, h.passed⟩, rfl⟩
  · intro slot hle hlt
    exact absurd hle hlt.not_ge
  · intro slot hslot hle hlt
    have hin := h.left slot hslot hle hlt
    rw [List.length_nil, add_zero] at hin
    exact absurd hin.1 hin.2.not_ge

/-- A flush turns a non-empty queue into a range. -/
lemma Queue.flush {k : AfterFlush} (h : Queue log v k.batch v.pending first)
    (hne : v.pending ≠ []) (hsize : v.pending.length ≤ cfg.batchSize) :
    ProverQueues cfg log (flush v k) := by
  have hpos : 0 < v.pending.length := List.length_pos_iff.mpr hne
  rw [flush_of_ne_nil k hne, h.run.slot_head hne, h.run.slot_getLast hne]
  refine ⟨⟨h.slots, h.settled, h.upTo, h.attested, h.left, h.ruled, h.passed⟩, rfl, ?_, ?_, hsize⟩
  · omega
  · omega

lemma Queued.sizeCheck (h : Queued log v batch) (hcfg : 1 ≤ cfg.batchSize)
    (hsize : v.pending.length ≤ cfg.batchSize) : ProverQueues cfg log (sizeCheck cfg v batch) := by
  rcases sizeCheck_cases cfg v batch with ⟨hlt, hcheck⟩ | ⟨hle, hcheck⟩
  · rw [hcheck]
    exact ⟨h, hlt⟩
  · rw [hcheck]
    obtain ⟨first, hqueue, -⟩ := h
    have hne : v.pending ≠ [] := by
      rintro hnil
      rw [hnil, List.length_nil] at hle
      omega
    exact Queue.flush (k := .atNext batch) hqueue hne hsize

/-! ### The end of a flush -/

lemma outcome_range? (fromSlot toSlot : ℕ) (answer : Except ProveFailure ProofHandle) :
    (outcome fromSlot toSlot answer).range? = some (fromSlot, toSlot) := by
  cases answer <;> rfl

lemma outcome_attested? (fromSlot toSlot : ℕ) (answer : Except ProveFailure ProofHandle) :
    (outcome fromSlot toSlot answer).attested? = none := by
  cases answer <;> rfl

lemma Queue.append_outcome {batchSize fromSlot toSlot : ℕ}
    (h : Queue log v batch queued fromSlot) (hranges : RangesInOrder batchSize log)
    (hle : fromSlot ≤ toSlot) (hto : toSlot + 1 = fromSlot + queued.length)
    (hsize : queued.length ≤ batchSize) (answer : Except ProveFailure ProofHandle) :
    RangesInOrder batchSize (log ++ [outcome fromSlot toSlot answer]) := by
  have hupTo := h.upTo
  refine hranges.append_range (outcome_range? fromSlot toSlot answer)
    (outcome_attested? fromSlot toSlot answer) h.settled hle ?_ ?_ ?_
  · omega
  · exact fun slot hfrom hslot => h.attested slot hfrom (by omega)
  · exact fun slot hslot hge hslot' => (h.left slot hslot hge (by omega)).1

/-- What is pending after a flush is an empty queue, past the settled range. -/
lemma Queue.queued_append_outcome {fromSlot toSlot : ℕ}
    (h : Queue log v batch queued fromSlot) (hto : toSlot + 1 = fromSlot + queued.length)
    (hpending : v.pending = []) (hprocessed : v.processed batch ≤ log.length)
    (answer : Except ProveFailure ProofHandle) :
    Queued (log ++ [outcome fromSlot toSlot answer]) v batch := by
  have hupTo := h.upTo
  have hsettled := h.settled
  have hsettled' : Log.settled (log ++ [outcome fromSlot toSlot answer]) ≤ toSlot + 1 := by
    rw [Log.settled_append_of_some (outcome_settledTo? fromSlot toSlot answer)]
    omega
  have hattested : Log.attested (log ++ [outcome fromSlot toSlot answer]) = log.attested := by
    simp [Log.attested, outcome_attested?]
  refine Queue.queued_of_pending_eq_nil ⟨rfl, hsettled', ?_, ?_, ?_, ?_, ?_⟩ hpending
  · rw [List.length_nil]
    omega
  · intro slot hge hlt
    exact absurd hge hlt.not_ge
  · intro slot hslot hge hlt
    rw [hattested] at hslot
    rw [Log.settled_append_of_some (outcome_settledTo? fromSlot toSlot answer)] at hge
    have hin := h.left slot hslot (by omega) hlt
    omega
  · rw [Log.rulings_append_of_none (outcome_ruling? fromSlot toSlot answer)]
    exact h.ruled
  · rw [Log.countBelow_append hprocessed]
    exact h.passed

/-! ### Entries of the others -/

lemma Queue.append_of_none {e : Entry} (h : Queue log v batch queued first)
    (hprocessed : v.processed batch ≤ log.length) (he : RulesNext log e)
    (hnone : e.settledTo? = none) : Queue (log ++ [e]) v batch queued first where
  slots := h.slots
  settled := by
    rw [Log.settled_append_of_none hnone]
    exact h.settled
  upTo := h.upTo
  attested := fun slot hle hlt => Log.mem_attested_append_left (h.attested slot hle hlt) _
  left := by
    intro slot hslot hle hlt
    rw [Log.settled_append_of_none hnone] at hle
    rcases he.attested hslot with hslot | rfl
    · exact h.left slot hslot hle hlt
    · exact absurd h.ruled hlt.not_ge
  ruled := by
    have hruled := h.ruled
    rw [Log.rulings_append, List.length_append]
    omega
  passed := by
    rw [Log.countBelow_append hprocessed]
    exact h.passed

lemma ProverQueues.append_of_none {task : ProverTask} {e : Entry}
    (h : ProverQueues cfg log task)
    (hfollows : ∀ v batch, task.vars? = some (v, batch) → Follows log v batch)
    (he : RulesNext log e) (hnone : e.settledTo? = none) :
    ProverQueues cfg (log ++ [e]) task := by
  cases task with
  | waiting v =>
    obtain ⟨⟨first, hqueue, hnext⟩, hsize⟩ := h
    have hprocessed := (hfollows v [] rfl).processed_le
    exact ⟨⟨first, hqueue.append_of_none hprocessed he hnone, hnext⟩, hsize⟩
  | draining v batch =>
    obtain ⟨⟨first, hqueue, hnext⟩, hsize⟩ := h
    have hprocessed := (hfollows v batch rfl).processed_le
    exact ⟨⟨first, hqueue.append_of_none hprocessed he hnone, hnext⟩, hsize⟩
  | proving v fromSlot toSlot taken k =>
    have hprocessed := (hfollows v k.batch rfl).processed_le
    exact ⟨h.1.append_of_none hprocessed he hnone, h.2⟩
  | stopped _ => exact h
  | panicked => exact h
  | timerPanicked => exact h
  | _ => trivial

end Queue

end Zequencer
