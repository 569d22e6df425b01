/-
# What waits for its attestation

A running prover holds exactly the committed slots below the entry it processes next whose
number is not below the next slot.  A recovery that skips no commit it still needs starts
it so, and every entry keeps it so; hence an attested slot is always found waiting.
-/
import Zequencer.Prover.Moves

namespace Zequencer

variable {cfg : BatchConfig} {log : Log} {v : ProverVars} {e : Entry} {batch : List Entry}

/-! ### The running task against the log -/

/-- How the private data of a running task follows the log. -/
structure Follows (log : Log) (v : ProverVars) (batch : List Entry) : Prop where
  length : batch.length ≤ v.cursor
  upTo : v.cursor ≤ log.length
  reads : batch <+: log.drop (v.processed batch)
  /-- Every slot below the next one is committed below the entry processed next. -/
  next : v.nextSlot ≤ log.committedBelow (v.processed batch)
  awaiting : ∀ slot s, v.awaiting.lookup slot = some s ↔ v.nextSlot ≤ slot ∧
    ∃ c ∈ Log.commits (log.take (v.processed batch)), c.slot = slot ∧ c.contents = s

lemma Follows.processed_le (h : Follows log v batch) : v.processed batch ≤ log.length :=
  (Nat.sub_le _ _).trans h.upTo

lemma Follows.append (h : Follows log v batch) (log' : Log) : Follows (log ++ log') v batch where
  length := h.length
  upTo := by
    have hlen := h.upTo
    rw [List.length_append]
    omega
  reads := by
    rw [List.drop_append_of_le_length h.processed_le]
    exact h.reads.trans (List.prefix_append _ _)
  next := by
    rw [Log.committedBelow, Log.countBelow_append h.processed_le]
    exact h.next
  awaiting := by
    rw [List.take_append_of_le_length h.processed_le]
    exact h.awaiting

/-- Once the next slot has reached the number of slots below a position, what is awaited was
committed from there on. -/
lemma Follows.awaiting_since (h : Follows log v batch) (hnum : Log.Numbered log) {start : ℕ}
    (hstart : log.committedBelow start ≤ v.nextSlot) (slot : ℕ) (s : CommittedSlot) :
    v.awaiting.lookup slot = some s ↔ v.nextSlot ≤ slot ∧
      ∃ c ∈ Log.commits ((log.take (v.processed batch)).drop start),
        c.slot = slot ∧ c.contents = s := by
  rw [h.awaiting]
  refine and_congr_right fun hslot => ?_
  have hsplit : Log.commits (log.take (v.processed batch)) =
      Log.commits ((log.take (v.processed batch)).take start) ++
        Log.commits ((log.take (v.processed batch)).drop start) := by
    rw [← Log.commits_append, List.take_append_drop]
  rw [hsplit]
  constructor
  · rintro ⟨c, hc, rfl, hcs⟩
    rcases List.mem_append.mp hc with hc | hc
    · -- below the position, numbers are smaller
      rw [List.take_take, min_comm, ← List.take_take] at hc
      have hc' : c ∈ Log.commits (log.take start) :=
        ((List.take_sublist _ _).filterMap _).mem hc
      have hlt := hnum.slot_lt_of_mem_take hc'
      omega
    · exact ⟨c, hc, rfl, hcs⟩
  · rintro ⟨c, hc, hcs⟩
    exact ⟨c, List.mem_append_right _ hc, hcs⟩

lemma Follows.of_keepsVars {task : ProverTask} (h : Follows log v batch)
    (hkeep : KeepsVars v batch task) :
    ∀ v' batch', task.vars? = some (v', batch') → Follows log v' batch' := by
  intro v' batch' hv
  obtain ⟨hawaiting, hcursor, hnext, rfl⟩ := hkeep v' batch' hv
  have hprocessed : v'.processed batch' = v.processed batch' := by
    rw [ProverVars.processed, hcursor, ProverVars.processed]
  refine ⟨hcursor ▸ h.length, hcursor ▸ h.upTo, ?_, ?_, ?_⟩
  · rw [hprocessed]
    exact h.reads
  · rw [hprocessed, hnext]
    exact h.next
  · rw [hprocessed, hnext, hawaiting]
    exact h.awaiting

/-! ### One entry -/

lemma Follows.getElem?_processed (h : Follows log v (e :: batch)) :
    log[v.processed (e :: batch)]? = some e := by
  obtain ⟨rest, hrest⟩ := h.reads
  have hget : (log.drop (v.processed (e :: batch)))[0]? = some e := by
    rw [← hrest]
    rfl
  simpa using hget

lemma Follows.processed_tail (h : Follows log v (e :: batch)) :
    v.processed batch = v.processed (e :: batch) + 1 := by
  have hlen := h.length
  rw [List.length_cons] at hlen
  rw [ProverVars.processed, ProverVars.processed, List.length_cons]
  omega

/-- Past an entry, what is awaited is judged with the slot of that entry, if it has one. -/
lemma Follows.step (h : Follows log v (e :: batch)) {v' : ProverVars}
    (hcursor : v'.cursor = v.cursor)
    (hnext : v'.nextSlot ≤ log.committedBelow (v.processed (e :: batch) + 1))
    (hawaiting : ∀ slot s, v'.awaiting.lookup slot = some s ↔ v'.nextSlot ≤ slot ∧
      ∃ c ∈ Log.commits (log.take (v.processed (e :: batch))) ++ e.committed?.toList,
        c.slot = slot ∧ c.contents = s) :
    Follows log v' batch := by
  have hget := h.getElem?_processed
  obtain ⟨hlt, hentry⟩ := List.getElem?_eq_some_iff.mp hget
  have hprocessed : v'.processed batch = v.processed (e :: batch) + 1 := by
    rw [ProverVars.processed, hcursor, ← ProverVars.processed, h.processed_tail]
  have htake : Log.commits (log.take (v.processed (e :: batch) + 1)) =
      Log.commits (log.take (v.processed (e :: batch))) ++ e.committed?.toList := by
    rw [List.take_succ_eq_append_getElem hlt, hentry, Log.commits_append]
    cases hc : e.committed? <;> simp [Log.commits, hc]
  refine ⟨?_, hcursor ▸ h.upTo, ?_, ?_, ?_⟩
  · have hlen := h.length
    rw [List.length_cons] at hlen
    omega
  · obtain ⟨rest, hrest⟩ := h.reads
    rw [List.drop_eq_getElem_cons hlt, List.cons_append] at hrest
    rw [hprocessed]
    exact ⟨rest, (List.cons.inj hrest).2⟩
  · rw [hprocessed]
    exact hnext
  · rw [hprocessed, htake]
    exact hawaiting

lemma Follows.pass (h : Follows log v (e :: batch)) (he : e.committed? = none) :
    Follows log v batch := by
  refine h.step rfl (h.next.trans (Log.countBelow_mono (Nat.le_succ _))) ?_
  rw [he, Option.toList_none, List.append_nil]
  exact h.awaiting

lemma Follows.commit {c : SlotCommitted} (h : Follows log v (.slotCommitted c :: batch))
    (hnum : Log.Numbered log) :
    Follows log { v with awaiting := v.awaiting.insert c.slot c.contents } batch := by
  have hslot := hnum.slot_eq h.getElem?_processed
  refine h.step rfl (h.next.trans (Log.countBelow_mono (Nat.le_succ _))) fun slot s => ?_
  have htoList : (Entry.committed? (.slotCommitted c)).toList = [c] := rfl
  simp only [HashMap.lookup_insert_ite, htoList, List.mem_append, List.mem_singleton]
  by_cases hs : slot = c.slot
  · -- no slot below has this number
    subst hs
    rw [if_pos rfl]
    constructor
    · intro hcs
      exact ⟨hslot ▸ h.next, c, Or.inr rfl, rfl, Option.some.inj hcs⟩
    · rintro ⟨-, c', hc' | rfl, hcc', hcs⟩
      · have hlt := hnum.slot_lt_of_mem_take hc'
        omega
      · rw [hcs]
  · rw [if_neg hs, h.awaiting]
    refine and_congr_right fun _ => ⟨?_, ?_⟩
    · rintro ⟨c', hc', hcs⟩
      exact ⟨c', Or.inl hc', hcs⟩
    · rintro ⟨c', hc' | rfl, hcs⟩
      · exact ⟨c', hc', hcs⟩
      · exact absurd hcs.1.symm hs

/-- A ruling on the next slot takes it off the waiting ones. -/
lemma Follows.ruled (h : Follows log v (e :: batch)) (hnum : Log.Numbered log)
    (hafter : Log.RuledAfter log) {slot : ℕ} (he : e.ruling? = some slot)
    (hslot : slot = v.nextSlot) (pending : List CommittedSlot) :
    Follows log
      ⟨v.awaiting.erase slot, pending, v.cursor, v.nextSlot + 1⟩ batch := by
  have hlt := hafter.lt_committedBelow hnum h.getElem?_processed he
  have hnone := Entry.committed?_of_ruling? he
  have hmono : log.committedBelow (v.processed (e :: batch)) ≤
      log.committedBelow (v.processed (e :: batch) + 1) := Log.countBelow_mono (Nat.le_succ _)
  refine h.step rfl ?_ fun slot' s => ?_
  · show v.nextSlot + 1 ≤ _
    omega
  · rw [hnone, Option.toList_none, List.append_nil, HashMap.lookup_erase_ite]
    by_cases hs : slot' = slot
    · have hle : ¬ v.nextSlot + 1 ≤ slot' := by omega
      simp [hs]
      omega
    · have hle : v.nextSlot + 1 ≤ slot' ↔ v.nextSlot ≤ slot' := by omega
      rw [if_neg hs, h.awaiting]
      show _ ↔ v.nextSlot + 1 ≤ slot' ∧ _
      rw [hle]

lemma Follows.lookup_isSome (h : Follows log v (e :: batch)) (hafter : Log.RuledAfter log)
    {slot : ℕ} (he : e.ruling? = some slot) (hslot : slot = v.nextSlot) :
    v.awaiting.lookup slot ≠ none := by
  obtain ⟨p, c, hp, hc, hcslot⟩ := hafter _ e slot h.getElem?_processed he
  have hmem : c ∈ Log.commits (log.take (v.processed (e :: batch))) := by
    refine Log.mem_commits_of_getElem? (p := p) ?_
    rw [List.getElem?_take_of_lt hp]
    exact hc
  rw [(h.awaiting slot c.contents).mpr ⟨hslot.ge, c, hmem, hcslot, rfl⟩]
  exact Option.some_ne_none _

/-! ### Starting -/

/-- Recovery misses nothing between its scan and the reading of the head. -/
def ProverCovers (log : Log) : ProverTask → ProverEvent → Prop
  | .recovering scanned, .readHead =>
    ∃ n, scanned = proverScan (log.take n) ∧ ScanCovers Entry.settledTo? (log.take n) log
  | _, _ => True

/-- A recovery that misses nothing starts where the settled slots end. -/
lemma ProverCovers.committedBelow_recoverProver {scanned : Scanned}
    (h : ProverCovers log (.recovering scanned) .readHead) (hnum : Log.Numbered log)
    (hsettled : SettledCommitted log) :
    (recoverProver scanned log.head).1 ≤ log.length ∧
      log.committedBelow (recoverProver scanned log.head).1 = scanned.nextSlot := by
  obtain ⟨n, rfl, hcovers⟩ := h
  have hlog : log.take n ++ log.drop n = log := List.take_append_drop n log
  have hcovers' : ScanCovers Entry.settledTo? (log.take n) (log.take n ++ log.drop n) := by
    rwa [hlog]
  have hresume := hcovers'.committedBelow_resume (by rwa [hlog]) (fun _ => rfl) ?_
  · rwa [hlog] at hresume
  · intro d hd
    rw [hlog]
    exact hsettled d (((List.take_sublist n log).filterMap _).mem hd)

lemma ProverCovers.follows {scanned : Scanned}
    (h : ProverCovers log (.recovering scanned) .readHead) (hnum : Log.Numbered log)
    (hsettled : SettledCommitted log) :
    Follows log ⟨∅, [], (recoverProver scanned log.head).1, scanned.nextSlot⟩ [] := by
  obtain ⟨hcursor, hcount⟩ := h.committedBelow_recoverProver hnum hsettled
  refine ⟨Nat.zero_le _, hcursor, List.nil_prefix, hcount.ge, fun slot s => ?_⟩
  rw [Finmap.lookup_empty]
  constructor
  · intro hs
    simp at hs
  · rintro ⟨hslot, c, hc, rfl, -⟩
    have hlt := hnum.slot_lt_of_mem_take hc
    rw [← hcount] at hslot
    exact absurd hlt hslot.not_gt

/-! ### The invariant -/

/-- How the private state of the prover follows the log. -/
structure ProverFollows (log : Log) (task : ProverTask) : Prop where
  vars : ∀ v batch, task.vars? = some (v, batch) → Follows log v batch
  found : ∀ slot, task ≠ .stopped (.missingCommit slot)

lemma ProverFollows.append {task : ProverTask} (h : ProverFollows log task) (log' : Log) :
    ProverFollows (log ++ log') task where
  vars := fun v batch hv => (h.vars v batch hv).append log'
  found := h.found

lemma Follows.proverFollows {task : ProverTask} (h : Follows log v batch)
    (hkeep : KeepsVars v batch task) (hrun : task.vars? ≠ none ∨ task = .panicked) :
    ProverFollows log task where
  vars := h.of_keepsVars hkeep
  found := by
    rintro slot rfl
    simp [ProverTask.vars?] at hrun

lemma flush_running (v : ProverVars) (k : AfterFlush) :
    (flush v k).vars? ≠ none ∨ flush v k = .panicked := by
  by_cases hp : v.pending = []
  · exact Or.inr (flush_eq_panicked.mpr hp)
  · rw [flush_of_ne_nil k hp]
    exact Or.inl (Option.some_ne_none _)

lemma sizeCheck_running (cfg : BatchConfig) (v : ProverVars) (batch : List Entry) :
    (sizeCheck cfg v batch).vars? ≠ none ∨ sizeCheck cfg v batch = .panicked := by
  rcases sizeCheck_cases cfg v batch with ⟨-, h⟩ | ⟨-, h⟩
  · rw [h]
    exact Or.inl (Option.some_ne_none _)
  · rw [h]
    exact flush_running v _

lemma Follows.sizeCheck (h : Follows log v batch) :
    ProverFollows log (sizeCheck cfg v batch) :=
  h.proverFollows (keepsVars_sizeCheck cfg v batch) (sizeCheck_running cfg v batch)

lemma Follows.flush {k : AfterFlush} (h : Follows log v k.batch) :
    ProverFollows log (flush v k) :=
  h.proverFollows (keepsVars_flush v k) (flush_running v k)

lemma Follows.draining (h : Follows log v batch) : ProverFollows log (.draining v batch) where
  vars := by
    rintro v' batch' hv
    obtain ⟨rfl, rfl⟩ := Prod.mk.inj (Option.some.inj hv)
    exact h
  found := by simp

lemma Follows.waiting (h : Follows log v []) : ProverFollows log (.waiting v) where
  vars := by
    rintro v' batch' hv
    obtain ⟨rfl, rfl⟩ := Prod.mk.inj (Option.some.inj hv)
    exact h
  found := by simp

lemma Follows.resume {k : AfterFlush} (h : Follows log v k.batch) :
    ProverFollows log (k.resume cfg v) := by
  cases k with
  | select => exact h.waiting
  | atSizeCheck batch => exact Follows.sizeCheck h
  | atNext batch => exact h.draining

/-- The loop body keeps the task on track, and finds every attested slot waiting. -/
lemma EntryMove.follows {task : ProverTask} (hmove : EntryMove cfg v e batch task)
    (hnum : Log.Numbered log) (hafter : Log.RuledAfter log)
    (h : Follows log v (e :: batch)) : ProverFollows log task := by
  cases hmove with
  | pass _ _ hc hr => exact (h.pass hc).sizeCheck
  | commit c => exact (h.commit hnum).sizeCheck
  | stale _ _ slot hr =>
    exact (h.pass (Entry.committed?_of_ruling? hr)).draining
  | gap => exact ⟨by simp [ProverTask.vars?], by simp⟩
  | missing a _ hslot hs => exact absurd hs (h.lookup_isSome hafter rfl hslot)
  | attested a _ s hslot hs => exact (h.ruled hnum hafter rfl hslot _).sizeCheck
  | failed f _ hslot hp => exact (h.ruled hnum hafter rfl hslot v.pending).sizeCheck
  | failedFlush f _ hslot hp =>
    exact Follows.flush (k := .atSizeCheck batch) (h.ruled hnum hafter rfl hslot v.pending)

/-- Every move keeps the task on track, as long as recovery covers what it still needs. -/
lemma ProverMove.follows {task task' : ProverTask} {e : ProverEvent} {o : Option Entry}
    (hmove : ProverMove cfg log task e task' o) (hnum : Log.Numbered log)
    (hafter : Log.RuledAfter log) (hsettled : SettledCommitted log)
    (hcovers : ProverCovers log task e) (h : ProverFollows log task) :
    ProverFollows (log ++ o.toList) task' := by
  refine ProverFollows.append ?_ _
  cases hmove with
  | idle => exact h
  | stop | scan | timer => exact ⟨by simp [ProverTask.vars?], by simp⟩
  | readHead scanned => exact (hcovers.follows hnum hsettled).waiting
  | read v n =>
    have hv := h.vars v [] rfl
    have hcursor : v.processed [] = v.cursor := rfl
    have hprocessed : ProverVars.processed
        { v with cursor := v.cursor + ((log.drop v.cursor).take n).length }
        ((log.drop v.cursor).take n) = v.cursor := Nat.add_sub_cancel _ _
    refine Follows.draining ⟨Nat.le_add_left _ _, ?_, ?_, ?_, ?_⟩
    · show v.cursor + ((log.drop v.cursor).take n).length ≤ log.length
      have hupTo := hv.upTo
      rw [List.length_take, List.length_drop]
      omega
    · rw [hprocessed]
      exact List.take_prefix _ _
    · rw [hprocessed]
      exact hv.next
    · rw [hprocessed]
      exact hv.awaiting
  | drained v => exact (h.vars v [] rfl).waiting
  | entry v entry batch task hentry =>
    exact hentry.follows hnum hafter (h.vars v (entry :: batch) rfl)
  | tick v hp => exact Follows.flush (k := .select) (h.vars v [] rfl)
  | proved v fromSlot toSlot taken k answer => exact (h.vars v k.batch rfl).resume

end Zequencer
