/-
# A slot is a rearrangement of its buffer

The grouping into domains and queues, the sort of each queue and the merge of the heads
neither lose nor invent an intent, whatever the buffer.
-/
import Zequencer.Source.Sequencer

namespace Zequencer

/-! ### The merge -/

lemma mem_winningHead {queues : SortedMap Address (List Pending)}
    {next : (ℕᵒᵈ ×ₗ ℕ ×ₗ IntentId) ×ₗ Address} (h : winningHead queues = some next) :
    ∃ p rest, queues.find? (ofLex next).2 = some (p :: rest) ∧
      next = toLex (p.rank, (ofLex next).2) := by
  obtain ⟨⟨addr, q⟩, he, hq⟩ := List.mem_filterMap.mp (List.min?_mem h)
  obtain ⟨p, hp, rfl⟩ := Option.map_eq_some_iff.mp hq
  obtain ⟨rest, rfl⟩ := List.head?_eq_some_iff.mp hp
  exact ⟨p, rest, SortedMap.find?_of_mem he, rfl⟩

lemma elems_of_winningHead_eq_none {queues : SortedMap Address (List Pending)}
    (h : winningHead queues = none) : queues.elems = [] := by
  rw [winningHead, List.min?_eq_none_iff, List.filterMap_eq_nil_iff] at h
  rw [SortedMap.elems, SortedMap.values, List.flatten_eq_nil_iff]
  intro q hq
  obtain ⟨e, he, rfl⟩ := List.mem_map.mp hq
  simpa using h e he

/-- With enough fuel the merge takes every queued intent exactly once. -/
lemma mergeHeads_perm (fuel : ℕ) (queues : SortedMap Address (List Pending))
    (hfuel : queues.elems.length ≤ fuel) :
    (mergeHeads fuel queues).Perm (queues.elems.map Pending.id) := by
  induction fuel generalizing queues with
  | zero =>
    have hnil : queues.elems = [] := List.eq_nil_of_length_eq_zero (by omega)
    simp [mergeHeads, hnil]
  | succ fuel ih =>
    rw [mergeHeads]
    cases hw : winningHead queues with
    | none => simp [elems_of_winningHead_eq_none hw]
    | some next =>
      obtain ⟨p, rest, hfind, -⟩ := mem_winningHead hw
      have hpop := SortedMap.elems_pop_perm hfind
      have hlen := hpop.length_eq
      rw [List.length_cons] at hlen
      simp only [hfind]
      exact ((ih _ (by omega)).cons p.id).trans (hpop.map Pending.id)

lemma orderDomain_perm (intents : List Pending) :
    (orderDomain intents).Perm (intents.map Pending.id) := by
  have hsort := SortedMap.elems_mapValues_perm
    (SortedMap.groupBy Pending.submitter intents)
    (f := fun q => q.insertionSort fun a b => a.nonce ≤ b.nonce)
    fun q => List.perm_insertionSort _ q
  have hgroup := SortedMap.elems_groupBy_perm Pending.submitter intents
  have hperm := hsort.trans hgroup
  exact (mergeHeads_perm _ _ hperm.length_eq.le).trans (hperm.map Pending.id)

lemma flatMap_orderDomain_perm (domains : List (List Pending)) :
    (domains.flatMap orderDomain).Perm (domains.flatten.map Pending.id) := by
  induction domains with
  | nil => exact List.Perm.refl _
  | cons d domains ih =>
    rw [List.flatMap_cons, List.flatten_cons, List.map_append]
    exact (orderDomain_perm d).append ih

/-- **Every buffered intent is sequenced exactly once.** -/
theorem orderSlot_perm (pending : List Pending) :
    (orderSlot pending).Perm (pending.map Pending.id) :=
  (flatMap_orderDomain_perm _).trans
    ((SortedMap.elems_groupBy_perm Pending.market pending).map Pending.id)

lemma mem_orderSlot {pending : List Pending} {id : IntentId} :
    id ∈ orderSlot pending ↔ ∃ p ∈ pending, p.id = id := by
  rw [(orderSlot_perm pending).mem_iff, List.mem_map]

end Zequencer
