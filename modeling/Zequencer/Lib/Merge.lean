/-
# Greedy merges

Elements carry a key and wait in one queue for each key.  A greedy merge takes, among the
heads of the queues, the one of least rank, until all queues are empty.  It is described by
its result alone: the elements of each key in the order of their queue, and every element
ranked below the next one of any other key.  The result is determined by the queues: it is the
least of all lists that have them.  Leaving out the elements of some keys leaves the merge of
the other queues, and an element that is ranked lower than it was does not come later.
-/
import Mathlib.Data.List.Basic
import Mathlib.Order.Lattice
import Mathlib.Tactic.Common

namespace Merge

variable {α κ κ' ρ ρ' : Type*} [DecidableEq κ] [DecidableEq κ'] [LinearOrder ρ] [LinearOrder ρ']

/-- The elements of one key, in order. -/
def queue (key : α → κ) (k : κ) (l : List α) : List α := l.filter fun p => key p = k

/-- Every element is ranked below the next element of any other key. -/
def Greedy (key : α → κ) (rank : α → ρ) : List α → Prop
  | [] => True
  | p :: l => (∀ k ≠ key p, ∀ p' ∈ (queue key k l).head?, rank p < rank p') ∧ Greedy key rank l

variable {key : α → κ} {key' : α → κ'} {rank : α → ρ} {rank' : α → ρ'} {k : κ} {p p' : α}
  {l l' : List α}

/-! ### Queues -/

@[simp] lemma queue_append : queue key k (l ++ l') = queue key k l ++ queue key k l' :=
  List.filter_append ..

lemma queue_cons_of_eq (h : key p = k) : queue key k (p :: l) = p :: queue key k l := by
  rw [queue, List.filter_cons_of_pos (by simpa using h), queue]

lemma queue_cons_of_ne (h : key p ≠ k) : queue key k (p :: l) = queue key k l := by
  rw [queue, List.filter_cons_of_neg (by simpa using h), queue]

lemma mem_queue : p ∈ queue key k l ↔ p ∈ l ∧ key p = k := by
  simp [queue]

lemma queue_eq_nil_of_forall (h : ∀ p ∈ l, key p ≠ k) : queue key k l = [] := by
  simpa [queue] using h

lemma perm_of_queue (h : ∀ k, (queue key k l).Perm (queue key k l')) : l.Perm l' := by
  classical
  have hcount : ∀ a (l : List α), (queue key (key a) l).count a = l.count a := by
    intro a l
    rw [queue, List.count_filter (by simp)]
  rw [List.perm_iff_count]
  intro a
  rw [← hcount a l, ← hcount a l']
  exact (h (key a)).count_eq a

/-- What holds along each queue holds between the elements of one key. -/
lemma pairwise_of_queue {r : α → α → Prop} (h : ∀ k, (queue key k l).Pairwise r) :
    l.Pairwise fun a b => key a = key b → r a b := by
  induction l with
  | nil => exact List.Pairwise.nil
  | cons p l ih =>
    refine List.pairwise_cons.mpr ⟨fun b hb hkey => ?_, ih fun k => ?_⟩
    · have hqueue := h (key p)
      rw [queue_cons_of_eq rfl] at hqueue
      exact (List.pairwise_cons.mp hqueue).1 b (mem_queue.mpr ⟨hb, hkey.symm⟩)
    · exact (h k).sublist ((List.sublist_cons_self p l).filter _)

lemma head?_of_queue_cons (hkey : key p ≠ k) (h : (queue key k (p :: l)).head? = some p') :
    (queue key k l).head? = some p' := by
  rwa [queue_cons_of_ne hkey] at h

lemma queue_congr {k' : κ'} (h : ∀ p ∈ l, key p = k ↔ key' p = k') :
    queue key k l = queue key' k' l := by
  refine List.filter_congr fun p hp => ?_
  simp only [h p hp]

lemma queue_filter (s : κ → Prop) [DecidablePred s] (hk : s k) :
    queue key k (l.filter fun p => s (key p)) = queue key k l := by
  rw [queue, List.filter_filter]
  refine List.filter_congr fun p _ => ?_
  by_cases hp : key p = k
  · simp [hp, hk]
  · simp [hp]

lemma eq_nil_of_queue (h : ∀ k, queue key k l = []) : l = [] := by
  cases l with
  | nil => rfl
  | cons p l =>
    have hhead := h (key p)
    rw [queue_cons_of_eq rfl] at hhead
    exact absurd hhead (List.cons_ne_nil _ _)

/-- Lists with the same queues that begin with elements of one key begin with the same element,
and have the same queues behind it. -/
lemma cons_inj_of_queue (hkey : key p' = key p)
    (hqueue : ∀ k, queue key k (p :: l) = queue key k (p' :: l')) :
    p = p' ∧ ∀ k, queue key k l = queue key k l' := by
  have hhead := hqueue (key p)
  rw [queue_cons_of_eq rfl, queue_cons_of_eq hkey] at hhead
  obtain ⟨rfl, -⟩ := List.cons.inj hhead
  refine ⟨rfl, fun k => ?_⟩
  have hk := hqueue k
  by_cases hpk : key p = k
  · rw [queue_cons_of_eq hpk, queue_cons_of_eq hpk] at hk
    exact (List.cons.inj hk).2
  · rwa [queue_cons_of_ne hpk, queue_cons_of_ne hpk] at hk

lemma head?_of_queue (hkey : key p ≠ key p')
    (hqueue : queue key (key p') (p :: l) = queue key (key p') (p' :: l')) :
    (queue key (key p') l).head? = some p' := by
  refine head?_of_queue_cons hkey ?_
  rw [hqueue, queue_cons_of_eq rfl, List.head?_cons]

/-! ### Greedy lists -/

lemma Greedy.tail (h : Greedy key rank (p :: l)) : Greedy key rank l := h.2

lemma Greedy.head_lt (h : Greedy key rank (p :: l)) (hkey : key p' ≠ key p)
    (hp' : (queue key (key p') l).head? = some p') : rank p < rank p' :=
  h.1 (key p') hkey p' hp'

/-- **The queues determine their greedy merge.** -/
theorem Greedy.eq_of_queue (h : Greedy key rank l) (h' : Greedy key rank l')
    (hqueue : ∀ k, queue key k l = queue key k l') : l = l' := by
  induction l generalizing l' with
  | nil => exact (eq_nil_of_queue fun k => (hqueue k).symm).symm
  | cons p l ih =>
    cases l' with
    | nil => exact eq_nil_of_queue hqueue
    | cons p' l' =>
      by_cases hkey : key p' = key p
      · obtain ⟨rfl, htail⟩ := cons_inj_of_queue hkey hqueue
        exact congrArg (p :: ·) (ih h.tail h'.tail htail)
      · -- each of the two heads would win over the other
        have hp : (queue key (key p') l).head? = some p' :=
          head?_of_queue (Ne.symm hkey) (hqueue (key p'))
        have hp' : (queue key (key p) l').head? = some p :=
          head?_of_queue hkey (hqueue (key p)).symm
        exact absurd (h.head_lt hkey hp) (h'.head_lt (Ne.symm hkey) hp').asymm

/-- **The greedy merge is the least of all lists with its queues**, compared position by
position. -/
theorem Greedy.eq_or_lex (h : Greedy key rank l) (hqueue : ∀ k, queue key k l' = queue key k l) :
    l = l' ∨ List.Lex (· < ·) (l.map rank) (l'.map rank) := by
  induction l generalizing l' with
  | nil => exact Or.inl (eq_nil_of_queue hqueue).symm
  | cons p l ih =>
    cases l' with
    | nil => exact Or.inl (eq_nil_of_queue fun k => (hqueue k).symm)
    | cons p' l' =>
      by_cases hkey : key p' = key p
      · obtain ⟨rfl, htail⟩ := cons_inj_of_queue hkey.symm hqueue
        rcases ih h.tail htail with rfl | hlex
        · exact Or.inl rfl
        · exact Or.inr (List.Lex.cons hlex)
      · -- the other head waits in the greedy list, so it is ranked above
        have hp' : (queue key (key p') l).head? = some p' :=
          head?_of_queue (Ne.symm hkey) (hqueue (key p')).symm
        exact Or.inr (List.Lex.rel (h.head_lt hkey hp'))

/-- **Leaving out keys leaves the merge of the others.** -/
theorem Greedy.filter (h : Greedy key rank l) (s : κ → Prop) [DecidablePred s] :
    Greedy key rank (l.filter fun p => s (key p)) := by
  induction l with
  | nil => trivial
  | cons p l ih =>
    rw [List.filter_cons]
    split_ifs with hp
    · refine ⟨fun k hk p' hp' => h.1 k hk p' ?_, ih h.tail⟩
      -- the next element of another key is left in, with the whole queue of its key
      have hmem := List.mem_of_mem_head? hp'
      obtain ⟨hl, rfl⟩ := mem_queue.mp hmem
      have hs : s (key p') := of_decide_eq_true (List.mem_filter.mp hl).2
      rwa [queue_filter s hs] at hp'
    · exact ih h.tail

/-- Greedy lists may be put one after the other when all of the first is ranked below all of
the second. -/
lemma Greedy.append (h : Greedy key rank l) (h' : Greedy key rank l')
    (hlt : ∀ p ∈ l, ∀ p' ∈ l', rank p < rank p') : Greedy key rank (l ++ l') := by
  induction l with
  | nil => exact h'
  | cons p l ih =>
    refine ⟨fun k hk p' hp' => ?_, ih h.tail fun q hq => hlt q (List.mem_cons_of_mem p hq)⟩
    change p' ∈ (queue key k (l ++ l')).head? at hp'
    rw [queue_append] at hp'
    cases hqueue : queue key k l with
    | nil =>
      rw [hqueue, List.nil_append] at hp'
      exact hlt p List.mem_cons_self p' (mem_queue.mp (List.mem_of_mem_head? hp')).1
    | cons q rest =>
      refine h.1 k hk p' ?_
      rw [hqueue] at hp' ⊢
      exact hp'

lemma Greedy.congr (h : Greedy key rank l)
    (hkey : ∀ p ∈ l, ∀ p' ∈ l, key p = key p' ↔ key' p = key' p')
    (hrank : ∀ p ∈ l, ∀ p' ∈ l, rank p < rank p' → rank' p < rank' p') :
    Greedy key' rank' l := by
  induction l with
  | nil => trivial
  | cons p l ih =>
    refine ⟨fun k hk p' hp' => ?_, ih h.tail
      (fun q hq q' hq' => hkey q (List.mem_cons_of_mem p hq) q' (List.mem_cons_of_mem p hq'))
      fun q hq q' hq' => hrank q (List.mem_cons_of_mem p hq) q' (List.mem_cons_of_mem p hq')⟩
    obtain ⟨hl, rfl⟩ := mem_queue.mp (List.mem_of_mem_head? hp')
    have hmem : p' ∈ p :: l := List.mem_cons_of_mem p hl
    refine hrank p List.mem_cons_self p' hmem (h.head_lt ?_ ?_)
    · exact fun heq => hk ((hkey p' hmem p List.mem_cons_self).mp heq)
    · rw [queue_congr fun q hq => hkey q (List.mem_cons_of_mem p hq) p' hmem]
      exact hp'

/-- **Ranking an element lower does not move it back.**  The queues are the same but for `p`,
which is replaced by `p'` in its place. -/
theorem Greedy.idxOf_le [DecidableEq α] (h : Greedy key rank l) (h' : Greedy key rank l')
    (hkey : key p' = key p) (hlt : rank p' < rank p)
    (hqueue : ∀ k, queue key k l' = (queue key k l).map fun q => if q = p then p' else q) :
    l'.idxOf p' ≤ l.idxOf p := by
  induction l generalizing l' with
  | nil =>
    have hnil : l' = [] := eq_nil_of_queue hqueue
    rw [hnil]
    exact le_rfl
  | cons q l ih =>
    cases l' with
    | nil => simp
    | cons q' l' =>
      -- a head other than the replacement waits on the other side as well
      have hwaits : q' ≠ p' → key q' ≠ key q → (queue key (key q') l).head? = some q' := by
        intro hne hkq
        refine head?_of_queue_cons (Ne.symm hkq) ?_
        have hhead := congrArg List.head? (hqueue (key q'))
        rw [queue_cons_of_eq rfl, List.head?_cons, List.head?_map] at hhead
        obtain ⟨r, hr, hrq⟩ := Option.map_eq_some_iff.mp hhead.symm
        by_cases hrp : r = p
        · rw [if_pos hrp] at hrq
          exact absurd hrq.symm hne
        · rw [if_neg hrp] at hrq
          exact hrq ▸ hr
      by_cases hq' : q' = p'
      · rw [hq', List.idxOf_cons_self]
        exact Nat.zero_le _
      have hhead := hqueue (key q)
      rw [queue_cons_of_eq rfl, List.map_cons] at hhead
      by_cases hkq : key q' = key q
      · -- the same queue wins on both sides, and not with `p`
        rw [queue_cons_of_eq hkq] at hhead
        obtain ⟨hheads, htail⟩ := List.cons.inj hhead
        have hq : q ≠ p := by
          rintro rfl
          exact hq' (hheads.trans (if_pos rfl))
        rw [if_neg hq] at hheads
        subst hheads
        rw [List.idxOf_cons_ne _ hq', List.idxOf_cons_ne _ hq]
        refine Nat.succ_le_succ (ih h.tail h'.tail fun k => ?_)
        by_cases hk : key q' = k
        · exact hk ▸ htail
        · have hothers := hqueue k
          rwa [queue_cons_of_ne hk, queue_cons_of_ne hk] at hothers
      · -- the other winner is ranked above `q`, and below what stands for `q`
        have hwin : rank q < rank q' := h.head_lt hkq (hwaits hq' hkq)
        rw [queue_cons_of_ne hkq] at hhead
        have hstand : (queue key (key q) l').head? = some (if q = p then p' else q) := by
          rw [hhead, List.head?_cons]
        have hlose : rank q' < rank (if q = p then p' else q) :=
          h'.1 (key q) (Ne.symm hkq) _ hstand
        split_ifs at hlose with hq
        · subst hq
          exact absurd (hwin.trans (hlose.trans hlt)) (lt_irrefl _)
        · exact absurd (hwin.trans hlose) (lt_irrefl _)

end Merge
