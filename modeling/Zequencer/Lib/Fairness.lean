/-
# Leads-to and fairness

An endless run, seen through what holds at its moments, which are numbered.  `LeadsTo P Q`
says that a moment at which `P` holds is followed by one at which `Q` holds.  A fair run makes
a move again and again that is possible again and again; from a fair move and what holds until
it is made one reads off where the run gets.

Fairness asks for nothing impossible: for any finite number of moves, a run that always makes
the possible move it has not made for longest is fair to all of them.
-/
import Mathlib.Data.Finset.Max
import Mathlib.Logic.Function.Basic
import Mathlib.Order.Filter.AtTopBot.Basic

open Filter

/-- A moment at which `P` holds is followed by one at which `Q` holds. -/
def LeadsTo (P Q : ℕ → Prop) : Prop := ∀ n, P n → ∃ m, n ≤ m ∧ Q m

/-- What is possible again and again is done again and again. -/
def StronglyFair (possible done : ℕ → Prop) : Prop :=
  (∃ᶠ n in atTop, possible n) → ∃ᶠ n in atTop, done n

lemma of_le_of_stable {R : ℕ → Prop} (stable : ∀ n, R n → R (n + 1)) {n m : ℕ} (h : n ≤ m)
    (hn : R n) : R m :=
  Nat.le_induction hn (fun k _ => stable k) m h

namespace LeadsTo

variable {P P' Q Q' R possible done : ℕ → Prop}

lemma of_imp (h : ∀ n, P n → Q n) : LeadsTo P Q := fun n hn => ⟨n, le_rfl, h n hn⟩

lemma mono (h : LeadsTo P Q) (hP : ∀ n, P' n → P n) (hQ : ∀ n, Q n → Q' n) :
    LeadsTo P' Q' := by
  intro n hn
  obtain ⟨m, hnm, hm⟩ := h n (hP n hn)
  exact ⟨m, hnm, hQ m hm⟩

lemma imp (h : LeadsTo P Q) (hQ : ∀ n, Q n → R n) : LeadsTo P R := h.mono (fun _ => id) hQ

lemma trans (h : LeadsTo P Q) (h' : LeadsTo Q R) : LeadsTo P R := by
  intro n hn
  obtain ⟨m, hnm, hm⟩ := h n hn
  obtain ⟨k, hmk, hk⟩ := h' m hm
  exact ⟨k, hnm.trans hmk, hk⟩

lemma or (h : LeadsTo P R) (h' : LeadsTo Q R) : LeadsTo (fun n => P n ∨ Q n) R := by
  rintro n (hn | hn)
  · exact h n hn
  · exact h' n hn

/-- What does not end at once leads to the same end. -/
lemma cancel (h : LeadsTo P fun n => Q n ∨ R n) (h' : LeadsTo Q R) : LeadsTo P R :=
  h.trans (h'.or (of_imp fun _ => id))

lemma and_stable (h : LeadsTo P Q) (stable : ∀ n, R n → R (n + 1)) :
    LeadsTo (fun n => P n ∧ R n) fun n => Q n ∧ R n := by
  rintro n ⟨hn, hR⟩
  obtain ⟨m, hnm, hm⟩ := h n hn
  exact ⟨m, hnm, hm, of_le_of_stable stable hnm hR⟩

/-- A measure that goes down as long as the end is not reached. -/
lemma of_measure (μ : ℕ → ℕ)
    (h : ∀ k, LeadsTo (fun n => P n ∧ μ n = k) fun n => (P n ∧ μ n < k) ∨ Q n) :
    LeadsTo P Q := by
  have hall : ∀ k n, P n → μ n = k → ∃ m, n ≤ m ∧ Q m := by
    intro k
    induction k using Nat.strong_induction_on with
    | _ k ih =>
      intro n hn hk
      obtain ⟨m, hnm, ⟨hm, hlt⟩ | hm⟩ := h k n ⟨hn, hk⟩
      · obtain ⟨m', hmm', hm'⟩ := ih (μ m) hlt m hm rfl
        exact ⟨m', hnm.trans hmm', hm'⟩
      · exact ⟨m, hnm, hm⟩
  exact fun n hn => hall _ n hn rfl

/-- One step at a time, as far as there is room. -/
lemma climb {room : ℕ → ℕ} {R : ℕ → ℕ → Prop} (grows : ∀ n, room n ≤ room (n + 1))
    (start : LeadsTo (fun _ => True) (R 0))
    (step : ∀ c, LeadsTo (fun n => R c n ∧ c < room n) (R (c + 1))) (c : ℕ) :
    LeadsTo (fun n => c ≤ room n) (R c) := by
  induction c with
  | zero => exact start.mono (fun _ _ => trivial) fun _ => id
  | succ c ih =>
    have hroom := ih.and_stable (R := fun n => c < room n) fun n hn => hn.trans_le (grows n)
    exact (hroom.mono (fun n hn => ⟨Nat.le_of_succ_le hn, hn⟩) fun _ => id).trans (step c)

/-- The rule of a fair move: what stays until the end is reached, and again and again makes a
move possible that helps, reaches the end. -/
theorem of_fair (hfair : StronglyFair possible done) (stays : ∀ n, P n → P (n + 1) ∨ Q (n + 1))
    (enables : LeadsTo P fun n => possible n ∨ Q n)
    (helps : LeadsTo (fun n => P n ∧ done n) Q) : LeadsTo P Q := by
  intro n hn
  by_contra hnever
  push Not at hnever
  have hP : ∀ m, n ≤ m → P m := by
    intro m hm
    induction m, hm using Nat.le_induction with
    | base => exact hn
    | succ m hm ih => exact (stays m ih).resolve_right (hnever _ (hm.trans (Nat.le_succ m)))
  have hpossible : ∃ᶠ m in atTop, possible m := by
    refine frequently_atTop.mpr fun a => ?_
    obtain ⟨m, ham, hm⟩ := enables (max a n) (hP _ (le_max_right a n))
    exact ⟨m, (le_max_left a n).trans ham,
      hm.resolve_right (hnever m ((le_max_right a n).trans ham))⟩
  obtain ⟨m, hnm, hm⟩ := frequently_atTop.mp (hfair hpossible) n
  obtain ⟨k, hmk, hk⟩ := helps m ⟨hP m hnm, hm⟩
  exact hnever k (hnm.trans hmk) hk

end LeadsTo

lemma StronglyFair.mono {possible possible' done done' : ℕ → Prop}
    (h : StronglyFair possible done) (hpossible : ∀ n, possible' n → possible n)
    (hdone : ∀ n, done n → done' n) : StronglyFair possible' done' :=
  fun hfreq => (h (hfreq.mono hpossible)).mono hdone

lemma StronglyFair.shift {possible done : ℕ → Prop} (h : StronglyFair possible done) (k : ℕ) :
    StronglyFair (fun n => possible (k + n)) fun n => done (k + n) := by
  intro hfreq
  have hpossible : ∃ᶠ n in atTop, possible n := by
    refine frequently_atTop.mpr fun a => ?_
    obtain ⟨n, han, hn⟩ := frequently_atTop.mp hfreq a
    exact ⟨k + n, han.trans (Nat.le_add_left n k), hn⟩
  refine frequently_atTop.mpr fun a => ?_
  obtain ⟨n, han, hn⟩ := frequently_atTop.mp (h hpossible) (k + a)
  exact ⟨n - k, by omega, by rwa [Nat.add_sub_cancel' (by omega)]⟩

lemma StronglyFair.of_shift {possible done : ℕ → Prop} (k : ℕ)
    (h : StronglyFair (fun n => possible (k + n)) fun n => done (k + n)) :
    StronglyFair possible done := by
  intro hfreq
  have hpossible : ∃ᶠ n in atTop, possible (k + n) := by
    refine frequently_atTop.mpr fun a => ?_
    obtain ⟨n, han, hn⟩ := frequently_atTop.mp hfreq (k + a)
    exact ⟨n - k, by omega, by rwa [Nat.add_sub_cancel' (by omega)]⟩
  refine frequently_atTop.mpr fun a => ?_
  obtain ⟨n, han, hn⟩ := frequently_atTop.mp (h hpossible) a
  exact ⟨k + n, by omega, hn⟩

lemma StronglyFair.of_never {possible done : ℕ → Prop} (h : ∀ᶠ n in atTop, ¬ possible n) :
    StronglyFair possible done := fun hfreq => absurd h hfreq

/-! ### A fair run -/

namespace FairRun

variable {σ ε ι : Type*} (next : σ → ε → σ) (move : ι → σ → ε → Prop) (moves : Finset ι)
  (idle : ε)

/-- A state of the run, and when each move was made last. -/
structure Ledger (σ ι : Type*) where
  state : σ
  last : ι → ℕ

/-- A possible move that no other possible one has waited longer than, with an event. -/
def Due (l : Ledger σ ι) (c : ι) (e : ε) : Prop :=
  c ∈ moves ∧ move c l.state e ∧
    ∀ d ∈ moves, (∃ e, move d l.state e) → l.last c ≤ l.last d

/-- Where any move is possible, one is due. -/
lemma exists_due {move : ι → σ → ε → Prop} {moves : Finset ι} {l : Ledger σ ι} {c : ι} {e : ε}
    (hc : c ∈ moves) (he : move c l.state e) : ∃ d e, Due move moves l d e := by
  classical
  have hne : (moves.filter fun d => ∃ e, move d l.state e).Nonempty :=
    ⟨c, Finset.mem_filter.mpr ⟨hc, e, he⟩⟩
  obtain ⟨d, hd, hmin⟩ := Finset.exists_min_image _ l.last hne
  obtain ⟨hdm, e', he'⟩ := Finset.mem_filter.mp hd
  exact ⟨d, e', hdm, he', fun d' hd' hex => hmin d' (Finset.mem_filter.mpr ⟨hd', hex⟩)⟩

open Classical in
/-- The event that is made, and the move it makes. -/
noncomputable def choose (l : Ledger σ ι) : Option ι × ε :=
  if h : ∃ d e, Due move moves l d e then (some h.choose, h.choose_spec.choose) else (none, idle)

lemma choose_cases (l : Ledger σ ι) :
    (∃ d e, choose move moves idle l = (some d, e) ∧ Due move moves l d e) ∨
      (choose move moves idle l = (none, idle) ∧ ¬ ∃ d e, Due move moves l d e) := by
  unfold choose
  by_cases h : ∃ d e, Due move moves l d e
  · rw [dif_pos h]
    exact Or.inl ⟨_, _, rfl, h.choose_spec.choose_spec⟩
  · rw [dif_neg h]
    exact Or.inr ⟨rfl, h⟩

open Classical in
/-- The ledger after `n` events. -/
noncomputable def ledger (start : σ) : ℕ → Ledger σ ι
  | 0 => ⟨start, fun _ => 0⟩
  | n + 1 =>
    let l := ledger start n
    let chosen := choose move moves idle l
    ⟨next l.state chosen.2, chosen.1.elim l.last fun c => Function.update l.last c (n + 1)⟩

variable {next move moves idle} {start : σ}

lemma last_le (n : ℕ) (c : ι) : (ledger next move moves idle start n).last c ≤ n := by
  induction n with
  | zero => exact le_rfl
  | succ n ih =>
    rcases choose_cases move moves idle (ledger next move moves idle start n) with
      ⟨d, e, hchoose, -⟩ | ⟨hchoose, -⟩
    · simp only [ledger, hchoose, Option.elim_some, Function.update_apply]
      split_ifs
      · exact le_rfl
      · exact ih.trans (Nat.le_succ n)
    · simp only [ledger, hchoose, Option.elim_none]
      exact ih.trans (Nat.le_succ n)

lemma last_succ (n : ℕ) (c : ι) :
    (ledger next move moves idle start (n + 1)).last c =
        (ledger next move moves idle start n).last c ∨
      (ledger next move moves idle start (n + 1)).last c = n + 1 ∧
        Due move moves (ledger next move moves idle start n) c
          (choose move moves idle (ledger next move moves idle start n)).2 := by
  rcases choose_cases move moves idle (ledger next move moves idle start n) with
    ⟨d, e, hchoose, hdue⟩ | ⟨hchoose, -⟩
  · simp only [ledger, hchoose, Option.elim_some, Function.update_apply]
    split_ifs with hcd
    · exact Or.inr ⟨rfl, hcd ▸ hdue⟩
    · exact Or.inl rfl
  · refine Or.inl ?_
    simp only [ledger, hchoose, Option.elim_none]

/-- A move is not put off for ever: those that have waited longer get fewer with every moment
at which it is possible and not made. -/
lemma stronglyFair {c : ι} (hc : c ∈ moves) :
    StronglyFair (fun n => ∃ e, move c (ledger next move moves idle start n).state e)
      fun n => move c (ledger next move moves idle start n).state
        (choose move moves idle (ledger next move moves idle start n)).2 := by
  classical
  intro hpossible
  by_contra hnever
  rw [not_frequently, eventually_atTop] at hnever
  obtain ⟨N, hN⟩ := hnever
  set l := ledger next move moves idle start with hl
  -- from then on the move keeps its place in the ledger
  have hkeep : ∀ n, N ≤ n → (l n).last c = (l N).last c := by
    intro n hn
    induction n, hn using Nat.le_induction with
    | base => rfl
    | succ n hn ih =>
      rcases @last_succ σ ε ι next move moves idle start n c with h | ⟨-, hdue⟩
      · exact h.trans ih
      · exact absurd hdue.2.1 (hN n hn)
  let waiting (n : ℕ) : Finset ι := moves.filter fun d => (l n).last d ≤ (l N).last c
  have hshrinks : ∀ n, N ≤ n → waiting (n + 1) ⊆ waiting n := by
    intro n hn d hd
    obtain ⟨hdm, hle⟩ := Finset.mem_filter.mp hd
    refine Finset.mem_filter.mpr ⟨hdm, ?_⟩
    rcases @last_succ σ ε ι next move moves idle start n d with h | ⟨h, -⟩
    · rwa [← h]
    · have hlast : (l N).last c ≤ N := last_le N c
      change (l (n + 1)).last d = n + 1 at h
      omega
  have hless : ∀ n, N ≤ n → (∃ e, move c (l n).state e) →
      (waiting (n + 1)).card < (waiting n).card := by
    rintro n hn ⟨e, he⟩
    refine Finset.card_lt_card ⟨hshrinks n hn, fun hsub => ?_⟩
    rcases choose_cases move moves idle (l n) with ⟨d, e', hchoose, hdue⟩ | ⟨-, hnone⟩
    · have hd : d ∈ waiting n :=
        Finset.mem_filter.mpr ⟨hdue.1, (hdue.2.2 c hc ⟨e, he⟩).trans (hkeep n hn).le⟩
      have hle : (l (n + 1)).last d ≤ (l N).last c := (Finset.mem_filter.mp (hsub hd)).2
      have hlast : (l N).last c ≤ N := last_le N c
      have hnow : (l (n + 1)).last d = n + 1 := by
        simp only [hl, ledger]
        rw [show choose move moves idle (ledger next move moves idle start n) = _ from hchoose]
        simp
      omega
    · exact hnone (exists_due hc he)
  have hsub : ∀ n m, N ≤ n → n ≤ m → waiting m ⊆ waiting n := by
    intro n m hn hnm
    induction m, hnm using Nat.le_induction with
    | base => exact Finset.Subset.refl _
    | succ m hnm ih => exact (hshrinks m (hn.trans hnm)).trans ih
  have hnone : ∀ k n, N ≤ n → (waiting n).card = k → False := by
    intro k
    induction k using Nat.strong_induction_on with
    | _ k ih =>
      intro n hn hk
      obtain ⟨m, hnm, hm⟩ := frequently_atTop.mp hpossible n
      have hlt := hless m (hn.trans hnm) hm
      have hle := Finset.card_le_card (hsub n m hn hnm)
      exact ih _ (by omega) (m + 1) (by omega) rfl
  exact hnone _ N le_rfl rfl

/-- **There is a fair run.**  From any state, whatever the moves: every event of it makes one
of the moves where one is possible, and it is fair to each of them. -/
theorem exists_fair (next : σ → ε → σ) (move : ι → σ → ε → Prop) (moves : Finset ι) (idle : ε)
    (start : σ) :
    ∃ (s : ℕ → σ) (f : ℕ → ε), s 0 = start ∧ (∀ n, s (n + 1) = next (s n) (f n)) ∧
      (∀ n, f n = idle ∨ ∃ c ∈ moves, move c (s n) (f n)) ∧
      ∀ c ∈ moves, StronglyFair (fun n => ∃ e, move c (s n) e) fun n => move c (s n) (f n) := by
  refine ⟨fun n => (ledger next move moves idle start n).state,
    fun n => (choose move moves idle (ledger next move moves idle start n)).2, rfl,
    fun _ => rfl, fun n => ?_, fun c hc => stronglyFair hc⟩
  rcases choose_cases move moves idle (ledger next move moves idle start n) with
    ⟨d, e, hchoose, hdue⟩ | ⟨hchoose, -⟩
  · obtain rfl : (choose move moves idle (ledger next move moves idle start n)).2 = e :=
      congrArg Prod.snd hchoose
    exact Or.inr ⟨d, hdue.1, hdue.2.1⟩
  · exact Or.inl (congrArg Prod.snd hchoose)

end FairRun
