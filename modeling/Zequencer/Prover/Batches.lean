/-
# Batches are consecutive

Whatever the log says and whatever the schedule, the pending slots are consecutive and end
right below the next one.  So a flush hands the backend exactly the slots of its range, each
with contents that were committed under its number.
-/
import Zequencer.Prover.Moves

namespace Zequencer

variable {cfg : BatchConfig} {log : Log} {v : ProverVars}

/-! ### Runs of slots -/

/-- The slots are numbered from `first` on. -/
def RunFrom (first : ℕ) (slots : List CommittedSlot) : Prop :=
  slots.map CommittedSlot.slot = List.range' first slots.length

lemma RunFrom.nil (first : ℕ) : RunFrom first [] := rfl

lemma RunFrom.slot_getElem {first : ℕ} {slots : List CommittedSlot} (h : RunFrom first slots)
    {i : ℕ} (hi : i < slots.length) : slots[i].slot = first + i := by
  have hget := congrArg (fun l : List ℕ => l[i]?) h
  simpa [hi] using hget

lemma RunFrom.slot_head {first : ℕ} {slots : List CommittedSlot} (h : RunFrom first slots)
    (hne : slots ≠ []) : (slots.head hne).slot = first := by
  rw [List.head_eq_getElem, h.slot_getElem, add_zero]

lemma RunFrom.slot_getLast {first : ℕ} {slots : List CommittedSlot} (h : RunFrom first slots)
    (hne : slots ≠ []) : (slots.getLast hne).slot = first + (slots.length - 1) := by
  rw [List.getLast_eq_getElem, h.slot_getElem]

lemma RunFrom.concat {first : ℕ} {slots : List CommittedSlot} {s : CommittedSlot}
    (h : RunFrom first slots) (hs : s.slot = first + slots.length) :
    RunFrom first (slots ++ [s]) := by
  rw [RunFrom, List.map_append, h, List.length_append, List.length_singleton,
    List.range'_concat, one_mul, List.map_singleton, hs]

/-- A batch: the slots of a range, in order, none left out. -/
structure IsBatch (fromSlot toSlot : ℕ) (slots : List CommittedSlot) : Prop where
  run : RunFrom fromSlot slots
  length : toSlot + 1 = fromSlot + slots.length
  nonempty : slots ≠ []

/-- A run that is not empty is a batch from its first slot to its last. -/
lemma RunFrom.isBatch {first : ℕ} {slots : List CommittedSlot} (h : RunFrom first slots)
    (hne : slots ≠ []) : IsBatch (slots.head hne).slot (slots.getLast hne).slot slots := by
  have hpos : 0 < slots.length := List.length_pos_iff.mpr hne
  refine ⟨(h.slot_head hne).symm ▸ h, ?_, hne⟩
  rw [h.slot_head hne, h.slot_getLast hne]
  omega

/-! ### The task -/

/-- Awaited slots are kept under their numbers, and the pending ones end at the next slot. -/
structure InSequence (v : ProverVars) : Prop where
  awaiting : ∀ slot s, v.awaiting.lookup slot = some s → s.slot = slot
  pending : ∃ first, RunFrom first v.pending ∧ first + v.pending.length = v.nextSlot

/-- What is pending is in sequence, and what is in flight is a batch of committed slots. -/
def ProverBatches (log : Log) : ProverTask → Prop
  | .waiting v => InSequence v
  | .draining v _ => InSequence v
  | .proving v fromSlot toSlot taken _ =>
    InSequence v ∧ IsBatch fromSlot toSlot taken ∧ ∀ s ∈ taken, Committed log s
  | _ => True

lemma ProverBatches.append {task : ProverTask} (h : ProverBatches log task) (log' : Log) :
    ProverBatches (log ++ log') task := by
  cases task with
  | waiting v => exact h
  | draining v batch => exact h
  | proving v fromSlot toSlot taken k =>
    exact ⟨h.1, h.2.1, fun s hs => (h.2.2 s hs).append log'⟩
  | _ => trivial

/-- A flush closes the batch, wherever the next slot is. -/
lemma proverBatches_flush (hawaiting : ∀ slot s, v.awaiting.lookup slot = some s → s.slot = slot)
    {first : ℕ} (hrun : RunFrom first v.pending) (hfrom : ∀ s ∈ v.pending, Committed log s)
    (k : AfterFlush) : ProverBatches log (flush v k) := by
  by_cases hp : v.pending = []
  · rw [flush_eq_panicked.mpr hp]
    trivial
  · rw [flush_of_ne_nil k hp]
    exact ⟨⟨hawaiting, v.nextSlot, RunFrom.nil _, rfl⟩, hrun.isBatch hp, hfrom⟩

lemma InSequence.flush (h : InSequence v) (hfrom : ∀ s ∈ v.pending, Committed log s)
    (k : AfterFlush) : ProverBatches log (flush v k) := by
  obtain ⟨first, hrun, -⟩ := h.pending
  exact proverBatches_flush h.awaiting hrun hfrom k

lemma InSequence.sizeCheck (h : InSequence v) (hfrom : ∀ s ∈ v.pending, Committed log s)
    (batch : List Entry) : ProverBatches log (sizeCheck cfg v batch) := by
  rcases sizeCheck_cases cfg v batch with ⟨-, hcheck⟩ | ⟨-, hcheck⟩
  · rw [hcheck]
    exact h
  · rw [hcheck]
    exact h.flush hfrom _

lemma InSequence.awaiting_erase (h : InSequence v) (slot : ℕ) :
    ∀ slot' s, (v.awaiting.erase slot).lookup slot' = some s → s.slot = slot' := by
  intro slot' s hs
  rw [HashMap.lookup_erase_ite] at hs
  split_ifs at hs
  exact h.awaiting slot' s hs

/-- The loop body keeps the sequence. -/
lemma EntryMove.batches {e : Entry} {batch : List Entry} {task : ProverTask}
    (hmove : EntryMove cfg v e batch task) (hheld : HeldFromLog log v (e :: batch))
    (h : InSequence v) : ProverBatches log task := by
  cases hmove with
  | pass => exact h.sizeCheck hheld.pending batch
  | commit c =>
    have hnew : InSequence { v with awaiting := v.awaiting.insert c.slot c.contents } := by
      refine ⟨fun slot s hs => ?_, h.pending⟩
      rw [HashMap.lookup_insert_ite] at hs
      split_ifs at hs with hslot
      · rw [hslot, ← Option.some.inj hs]
        rfl
      · exact h.awaiting slot s hs
    exact hnew.sizeCheck hheld.pending batch
  | stale => exact h
  | gap | missing => trivial
  | attested a _ s hslot hs =>
    obtain ⟨first, hrun, hnext⟩ := h.pending
    have hs' : s.slot = first + v.pending.length := by
      rw [h.awaiting _ _ hs, hslot, hnext]
    refine InSequence.sizeCheck ⟨h.awaiting_erase _, first, hrun.concat hs', ?_⟩ ?_ batch
    · rw [List.length_append, List.length_singleton, ← add_assoc, hnext]
    · intro s' hs'
      rcases List.mem_append.mp hs' with hs' | hs'
      · exact hheld.pending s' hs'
      · obtain rfl := List.mem_singleton.mp hs'
        exact hheld.awaiting _ _ hs
  | failed f _ hslot hp =>
    have hnew : InSequence
        { v with awaiting := v.awaiting.erase f.slot, nextSlot := v.nextSlot + 1 } := by
      refine ⟨h.awaiting_erase _, v.nextSlot + 1, ?_, ?_⟩
      · show RunFrom _ v.pending
        rw [hp]
        exact RunFrom.nil _
      · show v.nextSlot + 1 + v.pending.length = _
        rw [hp, List.length_nil, add_zero]
    exact hnew.sizeCheck hheld.pending batch
  | failedFlush f _ hslot hp =>
    obtain ⟨first, hrun, -⟩ := h.pending
    have hawaiting := h.awaiting_erase f.slot
    exact proverBatches_flush
      (v := { v with awaiting := v.awaiting.erase f.slot, nextSlot := v.nextSlot + 1 })
      hawaiting hrun hheld.pending _

lemma ProverMove.batches {task task' : ProverTask} {e : ProverEvent} {o : Option Entry}
    (hmove : ProverMove cfg log task e task' o) (hreads : ProverReads log task)
    (h : ProverBatches log task) : ProverBatches (log ++ o.toList) task' := by
  refine ProverBatches.append ?_ _
  cases hmove with
  | idle => exact h
  | stop | scan | timer => trivial
  | readHead => exact ⟨by simp, _, RunFrom.nil _, rfl⟩
  | read v n => exact ⟨h.awaiting, h.pending⟩
  | drained => exact h
  | entry v entry batch task hentry => exact hentry.batches hreads h
  | tick v hp => exact InSequence.flush h hreads.pending _
  | proved v fromSlot toSlot taken k answer =>
    cases k with
    | select | atNext => exact h.1
    | atSizeCheck batch => exact h.1.sizeCheck hreads.1.pending batch

end Zequencer
