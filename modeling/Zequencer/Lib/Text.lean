/-
# Text

Trimming and cutting at the first separator, on lists of any kind of characters, and decimal
numerals.  Each operation comes with the form of what it is applied to.
-/
import Mathlib.Data.List.DropRight
import Mathlib.Data.List.TakeWhile
import Mathlib.Tactic.Common

namespace Text

variable {α : Type*} {p : α → Bool} {l core : List α}

/-! ### Trimming -/

/-- The list without the elements at both ends that meet `p`. -/
def trim (p : α → Bool) (l : List α) : List α := (l.dropWhile p).rdropWhile p

/-- The list is `core`, between elements that meet `p`. -/
def Padded (p : α → Bool) (core l : List α) : Prop :=
  ∃ before after, (∀ a ∈ before, p a) ∧ (∀ a ∈ after, p a) ∧ l = before ++ (core ++ after)

/-- Nothing to trim. -/
structure Tight (p : α → Bool) (core : List α) : Prop where
  head : ∀ a ∈ core.head?, ¬ p a
  last : ∀ a ∈ core.getLast?, ¬ p a

lemma Padded.refl (p : α → Bool) (core : List α) : Padded p core core :=
  ⟨[], [], by simp, by simp, by simp⟩

lemma Padded.append_left {l' : List α} (h : Padded p core l) (hl' : ∀ a ∈ l', p a) :
    Padded p core (l' ++ l) := by
  obtain ⟨before, after, hbefore, hafter, rfl⟩ := h
  refine ⟨l' ++ before, after, fun a ha => ?_, hafter, (List.append_assoc ..).symm⟩
  exact (List.mem_append.mp ha).elim (hl' a) (hbefore a)

lemma Padded.append_right {l' : List α} (h : Padded p core l) (hl' : ∀ a ∈ l', p a) :
    Padded p core (l ++ l') := by
  obtain ⟨before, after, hbefore, hafter, rfl⟩ := h
  refine ⟨before, after ++ l', hbefore, fun a ha => ?_, by simp only [List.append_assoc]⟩
  exact (List.mem_append.mp ha).elim (hafter a) (hl' a)

lemma padded_trim (p : α → Bool) (l : List α) : Padded p (trim p l) l := by
  refine ⟨l.takeWhile p, (l.dropWhile p).rtakeWhile p, ?_, ?_, ?_⟩
  · exact fun a ha => List.mem_takeWhile_imp ha
  · exact fun a ha => List.mem_rtakeWhile_imp ha
  · rw [trim, List.rdropWhile_append_rtakeWhile, List.takeWhile_append_dropWhile]

lemma Padded.trim_eq (h : Padded p core l) (hcore : Tight p core) : trim p l = core := by
  obtain ⟨before, after, hbefore, hafter, rfl⟩ := h
  rw [trim, List.dropWhile_append_of_pos hbefore]
  rcases List.eq_nil_or_concat core with rfl | ⟨init, z, rfl⟩
  · have hnil : (after.dropWhile p) = [] := List.dropWhile_eq_nil_iff.mpr hafter
    rw [List.nil_append, hnil]
    rfl
  · rw [List.concat_eq_append] at hcore ⊢
    have hz : ¬ p z := hcore.last z (by simp)
    have hdrop : (init ++ [z] ++ after).dropWhile p = init ++ [z] ++ after := by
      cases init with
      | nil => exact List.dropWhile_cons_of_neg hz
      | cons a init => exact List.dropWhile_cons_of_neg (hcore.head a rfl)
    have hafter' : ∀ a ∈ after.reverse, p a := fun a ha => hafter a (List.mem_reverse.mp ha)
    rw [hdrop, List.rdropWhile, List.reverse_append, List.dropWhile_append_of_pos hafter',
      List.reverse_append, List.reverse_singleton, List.singleton_append,
      List.dropWhile_cons_of_neg hz, List.reverse_cons, List.reverse_reverse]

lemma trim_eq_nil_iff : trim p l = [] ↔ ∀ a ∈ l, p a := by
  constructor
  · intro h
    obtain ⟨before, after, hbefore, hafter, heq⟩ := padded_trim p l
    rw [h, List.nil_append] at heq
    intro a ha
    rw [heq] at ha
    rcases List.mem_append.mp ha with ha | ha
    · exact hbefore a ha
    · exact hafter a ha
  · intro h
    have hpadded := (Padded.refl p []).append_left h
    rw [List.append_nil] at hpadded
    exact hpadded.trim_eq ⟨by simp, by simp⟩

/-! ### The first separator -/

/-- What is before the first `sep`, and what is after it. -/
def splitOnce [DecidableEq α] (sep : α) : List α → Option (List α × List α)
  | [] => none
  | a :: l => if a = sep then some ([], l) else (splitOnce sep l).map fun s => (a :: s.1, s.2)

variable [DecidableEq α] {sep : α}

lemma splitOnce_append {x : List α} (h : sep ∉ x) (y : List α) :
    splitOnce sep (x ++ sep :: y) = some (x, y) := by
  induction x with
  | nil => exact if_pos rfl
  | cons a x ih =>
    rw [List.mem_cons, not_or] at h
    rw [List.cons_append, splitOnce, if_neg (Ne.symm h.1), ih h.2]
    rfl

lemma splitOnce_eq_some_iff {x y : List α} :
    splitOnce sep l = some (x, y) ↔ l = x ++ sep :: y ∧ sep ∉ x := by
  refine ⟨fun h => ?_, fun ⟨hl, hx⟩ => hl ▸ splitOnce_append hx y⟩
  induction l generalizing x with
  | nil => simp [splitOnce] at h
  | cons a l ih =>
    rw [splitOnce] at h
    split_ifs at h with ha
    · obtain ⟨rfl, rfl⟩ := Prod.mk.inj (Option.some.inj h)
      exact ⟨by rw [ha, List.nil_append], List.not_mem_nil⟩
    · obtain ⟨⟨x', y'⟩, hs, heq⟩ := Option.map_eq_some_iff.mp h
      obtain ⟨rfl, rfl⟩ := Prod.mk.inj heq
      obtain ⟨hl, hx'⟩ := ih hs
      refine ⟨by rw [hl, List.cons_append], ?_⟩
      rw [List.mem_cons, not_or]
      exact ⟨Ne.symm ha, hx'⟩

lemma not_mem_of_mem_splitOn {piece : List α} (h : piece ∈ l.splitOn sep) : sep ∉ piece := by
  induction l generalizing piece with
  | nil =>
    rw [List.splitOn_nil, List.mem_singleton] at h
    rw [h]
    exact List.not_mem_nil
  | cons a l ih =>
    rw [List.splitOn_cons_eq_if_modifyHead] at h
    split_ifs at h with ha
    · rcases List.mem_cons.mp h with rfl | h
      · exact List.not_mem_nil
      · exact ih h
    · obtain ⟨first, rest, hfirst⟩ := List.exists_cons_of_ne_nil (List.splitOn_ne_nil sep l)
      rw [hfirst, List.modifyHead_cons] at h
      rcases List.mem_cons.mp h with rfl | h
      · rw [List.mem_cons, not_or]
        exact ⟨fun heq => ha (by simp [heq]), ih (hfirst ▸ List.mem_cons_self)⟩
      · exact ih (hfirst ▸ List.mem_cons_of_mem _ h)

/-! ### Numerals -/

/-- The number that some decimal digits spell. -/
def number (digits : List Char) : Option ℕ :=
  if digits ≠ [] ∧ digits.all Char.isDigit then some (Nat.ofDigitChars 10 digits 0) else none

lemma number_toDigits (n : ℕ) : number (Nat.toDigits 10 n) = some n := by
  rw [number, if_pos, Nat.ofDigitChars_ten_toDigits]
  refine ⟨Nat.toDigits_ne_nil, List.all_eq_true.mpr fun c hc => ?_⟩
  exact Nat.isDigit_of_mem_toDigits (by decide) (by decide) hc

lemma isDigit_of_number {digits : List Char} {n : ℕ} (h : number digits = some n) :
    digits ≠ [] ∧ ∀ c ∈ digits, c.isDigit := by
  rw [number] at h
  split_ifs at h with hdigits
  exact ⟨hdigits.1, fun c hc => List.all_eq_true.mp hdigits.2 c hc⟩

end Text
