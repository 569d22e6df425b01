/-
# Numbered slots, and rulings in order

Slots are numbered in log order, and ruled on in that order, each after it is committed.
So the number of slots below a position says which slots they are.
-/
import Zequencer.Log.Views
import Zequencer.Source.Attest

namespace Zequencer

namespace Log

/-! ### Counting below a position -/

/-- The number of entries of one kind below a position. -/
def countBelow {β : Type*} (kind : Entry → Option β) (log : Log) (q : ℕ) : ℕ :=
  ((log.take q).filterMap kind).length

section Count

variable {β : Type*} {kind : Entry → Option β} {log : Log} {p q : ℕ}

lemma countBelow_mono (h : p ≤ q) : countBelow kind log p ≤ countBelow kind log q :=
  ((List.take_sublist_take_left h).filterMap kind).length_le

lemma countBelow_append (h : q ≤ log.length) (log' : Log) :
    countBelow kind (log ++ log') q = countBelow kind log q := by
  rw [countBelow, List.take_append_of_le_length h, countBelow]

lemma countBelow_of_length_le (h : log.length ≤ q) :
    countBelow kind log q = (log.filterMap kind).length := by
  rw [countBelow, List.take_of_length_le h]

lemma countBelow_le (q : ℕ) : countBelow kind log q ≤ (log.filterMap kind).length :=
  ((List.take_sublist q log).filterMap kind).length_le

lemma countBelow_succ {e : Entry} (h : log[q]? = some e) :
    countBelow kind log (q + 1) = countBelow kind log q + (kind e).toList.length := by
  obtain ⟨hlt, rfl⟩ := List.getElem?_eq_some_iff.mp h
  rw [countBelow, List.take_succ_eq_append_getElem hlt, List.filterMap_append, List.length_append,
    countBelow]
  cases hk : kind log[q] <;> simp [hk]

end Count

/-! ### Numbered slots -/

/-- Slots are numbered in log order. -/
def Numbered (log : Log) : Prop :=
  log.commits.map SlotCommitted.slot = List.range log.commits.length

/-- The number of slots committed below a position. -/
abbrev committedBelow (log : Log) (q : ℕ) : ℕ := countBelow Entry.committed? log q

section Numbered

variable {log : Log} {p q : ℕ} {c : SlotCommitted}

lemma Numbered.nil : Numbered [] := rfl

/-- The number of a slot is its place among the slots. -/
lemma Numbered.slot_of_getElem? (h : Numbered log) {k : ℕ} (hk : log.commits[k]? = some c) :
    c.slot = k := by
  have hmap := congrArg (fun l : List ℕ => l[k]?) h
  obtain ⟨hlt, -⟩ := List.getElem?_eq_some_iff.mp hk
  simpa [hk, List.getElem?_range hlt] using hmap

lemma Numbered.slot_lt (h : Numbered log) (hc : c ∈ log.commits) :
    c.slot < log.commits.length := by
  obtain ⟨k, hk⟩ := List.mem_iff_getElem?.mp hc
  rw [h.slot_of_getElem? hk]
  exact (List.getElem?_eq_some_iff.mp hk).1

lemma Numbered.eq_of_slot_eq {c' : SlotCommitted} (h : Numbered log) (hc : c ∈ log.commits)
    (hc' : c' ∈ log.commits) (hslot : c.slot = c'.slot) : c = c' :=
  List.inj_on_of_nodup_map (h ▸ List.nodup_range) hc hc' hslot

lemma Numbered.of_append {log' : Log} (h : Numbered (log ++ log')) : Numbered log := by
  have htake := congrArg (List.take log.commits.length) h
  rw [commits_append, List.map_append, List.take_left' (by simp), List.length_append,
    List.take_range, min_eq_left (Nat.le_add_right _ _)] at htake
  exact htake

lemma Numbered.append_of_none {e : Entry} (h : Numbered log) (he : e.committed? = none) :
    Numbered (log ++ [e]) := by
  rw [Numbered, commits_concat_of_none he]
  exact h

lemma Numbered.append_slot (h : Numbered log) (hc : c.slot = log.commits.length) :
    Numbered (log ++ [.slotCommitted c]) := by
  rw [Numbered, commits_concat_slot, List.map_append, h, List.length_append, List.length_singleton,
    List.range_succ, ← hc]
  rfl

/-- The number of a slot is the number of slots below its position. -/
lemma Numbered.slot_eq (h : Numbered log) (hp : log[p]? = some (.slotCommitted c)) :
    c.slot = committedBelow log p := by
  obtain ⟨hlt, hget⟩ := List.getElem?_eq_some_iff.mp hp
  refine h.slot_of_getElem? ?_
  have hsplit : log.commits = commits (log.take p) ++ c :: commits (log.drop (p + 1)) := by
    conv_lhs => rw [← List.take_append_drop p log, List.drop_eq_getElem_cons hlt, hget]
    rw [commits_append]
    rfl
  rw [hsplit, committedBelow, countBelow, ← commits, List.getElem?_append_right le_rfl,
    Nat.sub_self]
  rfl

/-- A slot is below a position exactly when its number is below the count there. -/
lemma Numbered.slot_lt_committedBelow (h : Numbered log)
    (hp : log[p]? = some (.slotCommitted c)) : c.slot < committedBelow log q ↔ p < q := by
  have hslot := h.slot_eq hp
  constructor
  · intro hlt
    by_contra hle
    have hmono : committedBelow log q ≤ committedBelow log p := countBelow_mono (not_lt.mp hle)
    omega
  · intro hlt
    have hsucc : committedBelow log (p + 1) = committedBelow log p + 1 := countBelow_succ hp
    have hmono : committedBelow log (p + 1) ≤ committedBelow log q := countBelow_mono hlt
    omega

lemma Numbered.exists_of_lt (h : Numbered log) {slot : ℕ} (hlt : slot < log.commits.length) :
    ∃ (p : ℕ) (c : SlotCommitted), log[p]? = some (.slotCommitted c) ∧ c.slot = slot := by
  have hk : log.commits[slot]? = some log.commits[slot] := List.getElem?_eq_getElem hlt
  have hmem : log.commits[slot] ∈ log.commits := List.mem_of_getElem? hk
  obtain ⟨p, hp⟩ := List.mem_iff_getElem?.mp (mem_commits.mp hmem)
  exact ⟨p, log.commits[slot], hp, h.slot_of_getElem? hk⟩

lemma Numbered.slot_lt_of_mem_take (h : Numbered log) (hc : c ∈ commits (log.take q)) :
    c.slot < committedBelow log q := by
  have htake : Numbered (log.take q) := by
    rw [← List.take_append_drop q log] at h
    exact h.of_append
  exact htake.slot_lt hc

lemma mem_commits_of_getElem? (hp : log[p]? = some (.slotCommitted c)) : c ∈ log.commits :=
  mem_commits.mpr (List.mem_of_getElem? hp)

end Numbered

/-! ### Rulings in order -/

/-- The slots ruled on, in log order. -/
def rulings (log : Log) : List ℕ := log.filterMap Entry.ruling?

@[simp] lemma rulings_append (log log' : Log) :
    rulings (log ++ log') = log.rulings ++ rulings log' :=
  List.filterMap_append

lemma rulings_append_of_none {log : Log} {e : Entry} (h : e.ruling? = none) :
    rulings (log ++ [e]) = log.rulings := by
  simp [rulings, h]

lemma rulings_append_of_some {log : Log} {e : Entry} {slot : ℕ} (h : e.ruling? = some slot) :
    rulings (log ++ [e]) = log.rulings ++ [slot] := by
  simp [rulings, h]

lemma mem_rulings_concat {log : Log} {e : Entry} {slot : ℕ} (h : e.ruling? = some slot) :
    slot ∈ rulings (log ++ [e]) := by
  rw [rulings_append_of_some h]
  exact List.mem_append_right _ (List.mem_singleton_self _)

/-- Every ruling comes after its slot is committed. -/
def RuledAfter (log : Log) : Prop :=
  ∀ (q : ℕ) (e : Entry) (slot : ℕ), log[q]? = some e → e.ruling? = some slot →
    ∃ (p : ℕ) (c : SlotCommitted), p < q ∧ log[p]? = some (.slotCommitted c) ∧ c.slot = slot

/-- Slots are ruled on once each, in order, and each after it is committed. -/
structure RuledInOrder (log : Log) : Prop where
  slots : log.rulings = List.range log.rulings.length
  after : RuledAfter log

section RuledInOrder

variable {log : Log} {e : Entry} {slot : ℕ}

lemma mem_rulings : slot ∈ log.rulings ↔ ∃ e ∈ log, e.ruling? = some slot := List.mem_filterMap

lemma RuledAfter.append (h : RuledAfter log)
    (he : ∀ slot ∈ e.ruling?, ∃ c ∈ log.commits, c.slot = slot) : RuledAfter (log ++ [e]) := by
  intro q e' slot hq hslot
  rcases getElem?_append_singleton_eq_some.mp hq with hq | ⟨rfl, rfl⟩
  · obtain ⟨p, c, hpq, hp, hc⟩ := h q e' slot hq hslot
    exact ⟨p, c, hpq, getElem?_append_singleton_eq_some.mpr (Or.inl hp), hc⟩
  · obtain ⟨c, hc, hcslot⟩ := he slot hslot
    obtain ⟨p, hp⟩ := List.mem_iff_getElem?.mp (mem_commits.mp hc)
    exact ⟨p, c, (List.getElem?_eq_some_iff.mp hp).1,
      getElem?_append_singleton_eq_some.mpr (Or.inl hp), hcslot⟩

lemma RuledAfter.append_of_none (h : RuledAfter log) (he : e.ruling? = none) :
    RuledAfter (log ++ [e]) :=
  h.append (by simp [he])

lemma RuledAfter.exists_commit (h : RuledAfter log) (hslot : slot ∈ log.rulings) :
    ∃ c ∈ log.commits, c.slot = slot := by
  obtain ⟨e, he, hruling⟩ := mem_rulings.mp hslot
  obtain ⟨q, hq⟩ := List.mem_iff_getElem?.mp he
  obtain ⟨p, c, -, hp, hc⟩ := h q e slot hq hruling
  exact ⟨c, mem_commits_of_getElem? hp, hc⟩

lemma RuledAfter.lt_committedBelow (h : RuledAfter log) (hnum : Numbered log) {q : ℕ}
    (hq : log[q]? = some e) (he : e.ruling? = some slot) : slot < committedBelow log q := by
  obtain ⟨p, c, hpq, hp, rfl⟩ := h q e slot hq he
  exact (hnum.slot_lt_committedBelow hp).mpr hpq

lemma RuledInOrder.nil : RuledInOrder [] := ⟨rfl, by simp [RuledAfter]⟩

lemma RuledInOrder.lt_of_mem (h : RuledInOrder log) (hslot : slot ∈ log.rulings) :
    slot < log.rulings.length := by
  rw [h.slots] at hslot
  exact List.mem_range.mp hslot

lemma RuledInOrder.mem_of_lt (h : RuledInOrder log) (hslot : slot < log.rulings.length) :
    slot ∈ log.rulings := by
  rw [h.slots]
  exact List.mem_range.mpr hslot

/-- The slot of a ruling is the number of rulings below it. -/
lemma RuledInOrder.slot_eq (h : RuledInOrder log) {q : ℕ} (hq : log[q]? = some e)
    (he : e.ruling? = some slot) : slot = countBelow Entry.ruling? log q := by
  obtain ⟨hlt, hget⟩ := List.getElem?_eq_some_iff.mp hq
  have hsplit : log.rulings = rulings (log.take q) ++ slot :: rulings (log.drop (q + 1)) := by
    conv_lhs => rw [← List.take_append_drop q log, List.drop_eq_getElem_cons hlt, hget]
    rw [rulings_append, rulings, rulings, List.filterMap_cons_some he]
    rfl
  have hat : log.rulings[countBelow Entry.ruling? log q]? = some slot := by
    rw [hsplit, countBelow, ← rulings, List.getElem?_append_right le_rfl, Nat.sub_self]
    rfl
  have hlen := (List.getElem?_eq_some_iff.mp hat).1
  rw [h.slots, List.getElem?_range hlen] at hat
  exact (Option.some.inj hat).symm

lemma RuledInOrder.position_eq (h : RuledInOrder log) {q q' : ℕ} {e' : Entry}
    (hq : log[q]? = some e) (he : e.ruling? = some slot) (hq' : log[q']? = some e')
    (he' : e'.ruling? = some slot) : q = q' := by
  have hlt : ∀ {p p' : ℕ} {x x' : Entry}, log[p]? = some x → x.ruling? = some slot →
      log[p']? = some x' → x'.ruling? = some slot → ¬ p < p' := by
    intro p p' x x' hp hx hp' hx' hpp'
    have hsucc : countBelow Entry.ruling? log (p + 1) = _ := countBelow_succ hp
    have hmono : countBelow Entry.ruling? log (p + 1) ≤ countBelow Entry.ruling? log p' :=
      countBelow_mono hpp'
    rw [hx, ← h.slot_eq hp hx] at hsucc
    rw [hsucc, ← h.slot_eq hp' hx'] at hmono
    exact absurd hmono (Nat.not_succ_le_self slot)
  exact le_antisymm (not_lt.mp (hlt hq' he' hq he)) (not_lt.mp (hlt hq he hq' he'))

/-- There are no more rulings below a position than slots committed below it. -/
lemma RuledInOrder.countBelow_le (h : RuledInOrder log) (hnum : Numbered log) (q : ℕ) :
    countBelow Entry.ruling? log q ≤ committedBelow log q := by
  induction q with
  | zero => simp [countBelow]
  | succ q ih =>
    cases hq : log[q]? with
    | none =>
      have hle : log.length ≤ q := by simpa using hq
      have hc : countBelow Entry.ruling? log (q + 1) = countBelow Entry.ruling? log q := by
        rw [countBelow_of_length_le hle, countBelow_of_length_le (by omega)]
      have hmono : committedBelow log q ≤ committedBelow log (q + 1) :=
        countBelow_mono (Nat.le_succ q)
      omega
    | some e =>
      have hmono : committedBelow log q ≤ committedBelow log (q + 1) :=
        countBelow_mono (Nat.le_succ q)
      have hsucc : countBelow Entry.ruling? log (q + 1) = _ := countBelow_succ hq
      cases he : e.ruling? with
      | none =>
        rw [he] at hsucc
        exact (hsucc.le.trans ih).trans hmono
      | some slot =>
        rw [he] at hsucc
        have hlt := h.after.lt_committedBelow hnum hq he
        rw [h.slot_eq hq he] at hlt
        exact (hsucc.le.trans hlt).trans hmono

lemma RuledInOrder.length_le (h : RuledInOrder log) (hnum : Numbered log) :
    log.rulings.length ≤ log.commits.length := by
  have hle := h.countBelow_le hnum log.length
  rwa [committedBelow, countBelow_of_length_le le_rfl, countBelow_of_length_le le_rfl] at hle

lemma RuledInOrder.append_of_none (h : RuledInOrder log) (he : e.ruling? = none) :
    RuledInOrder (log ++ [e]) where
  slots := by
    rw [rulings_append_of_none he]
    exact h.slots
  after := h.after.append_of_none he

lemma RuledInOrder.append_ruling (h : RuledInOrder log) (he : e.ruling? = some slot)
    (hslot : slot = log.rulings.length) (hc : ∃ c ∈ log.commits, c.slot = slot) :
    RuledInOrder (log ++ [e]) where
  slots := by
    rw [rulings_append_of_some he, List.length_append, List.length_singleton, List.range_succ,
      ← h.slots, hslot]
  after := by
    refine h.after.append fun slot' hslot' => ?_
    obtain rfl : slot = slot' := Option.some.inj (he.symm.trans hslot')
    exact hc

end RuledInOrder

end Log

end Zequencer
