/-
# `FAIL_SLOTS` is read strictly

A value is accepted exactly when every part of it between commas that is not blank spells a range
that does not run backwards, and then it stands for these ranges in order; otherwise the first
part that spells none is reported.  Ranges that are written down are read back.
-/
import Mathlib.Data.List.Forall2
import Zequencer.Source.Main

namespace Zequencer

/-! ### The grammar -/

/-- Nothing but whitespace. -/
def Blank (s : List Char) : Prop := ∀ c ∈ s, isWhitespace c

instance : DecidablePred Blank := fun s => inferInstanceAs (Decidable (∀ c ∈ s, isWhitespace c))

/-- Decimal digits of a 64-bit number, after a plus sign or none. -/
def Numeral (s : List Char) (n : ℕ) : Prop :=
  ∃ sign digits, (sign = [] ∨ sign = ['+']) ∧ s = sign ++ digits ∧ Text.number digits = some n ∧
    n < 2 ^ 64

/-- Two numerals around a dash, with whitespace around each; the range does not run backwards. -/
def Spells (s : List Char) (r : ℕ × ℕ) : Prop :=
  ∃ before after low high, s = before ++ '-' :: after ∧ Text.Padded isWhitespace low before ∧
    Text.Padded isWhitespace high after ∧ Numeral low r.1 ∧ Numeral high r.2 ∧ r.1 ≤ r.2

/-! ### Numerals -/

lemma isDigit_iff {c : Char} : c.isDigit ↔ 48 ≤ c.toNat ∧ c.toNat ≤ 57 := by
  simp only [Char.isDigit, Bool.and_eq_true, decide_eq_true_eq]
  exact Iff.rfl

lemma not_isWhitespace_of_isDigit {c : Char} (h : c.isDigit) : ¬ isWhitespace c := by
  have hdigit := isDigit_iff.mp h
  simp only [isWhitespace, decide_eq_true_eq]
  omega

namespace Numeral

variable {s : List Char} {n : ℕ}

lemma digit_or_plus (h : Numeral s n) : ∀ c ∈ s, c.isDigit ∨ c = '+' := by
  obtain ⟨sign, digits, hsign, rfl, hnumber, -⟩ := h
  intro c hc
  rcases List.mem_append.mp hc with hc | hc
  · rcases hsign with rfl | rfl
    · exact absurd hc List.not_mem_nil
    · exact Or.inr (List.mem_singleton.mp hc)
  · exact Or.inl ((Text.isDigit_of_number hnumber).2 c hc)

lemma ne_nil (h : Numeral s n) : s ≠ [] := by
  obtain ⟨sign, digits, -, rfl, hnumber, -⟩ := h
  exact List.append_ne_nil_of_right_ne_nil _ (Text.isDigit_of_number hnumber).1

lemma not_isWhitespace (h : Numeral s n) : ∀ c ∈ s, ¬ isWhitespace c := by
  intro c hc
  rcases h.digit_or_plus c hc with hdigit | rfl
  · exact not_isWhitespace_of_isDigit hdigit
  · decide

lemma tight (h : Numeral s n) : Text.Tight isWhitespace s where
  head := fun c hc => h.not_isWhitespace c (List.mem_of_mem_head? hc)
  last := fun c hc => h.not_isWhitespace c (List.mem_of_getLast? hc)

lemma not_mem (h : Numeral s n) {d : Char} (hd : ¬ d.isDigit) (hplus : d ≠ '+') : d ∉ s := by
  intro hmem
  rcases h.digit_or_plus d hmem with hdigit | rfl
  · exact hd hdigit
  · exact hplus rfl

end Numeral

lemma parseU64_eq_some_iff {s : List Char} {n : ℕ} : parseU64 s = some n ↔ Numeral s n := by
  have hfilter : ∀ digits, (Text.number digits).filter (· < 2 ^ 64) = some n ↔
      Text.number digits = some n ∧ n < 2 ^ 64 := by
    intro digits
    rw [Option.filter_eq_some_iff]
    simp
  constructor
  · intro h
    unfold parseU64 at h
    split at h
    next digits => exact ⟨['+'], digits, Or.inr rfl, rfl, (hfilter digits).mp h⟩
    next => exact ⟨[], s, Or.inl rfl, rfl, (hfilter s).mp h⟩
  · rintro ⟨sign, digits, rfl | rfl, rfl, hnumber⟩
    · unfold parseU64
      split
      next rest =>
        -- a plus sign is no digit
        exact absurd ((Text.isDigit_of_number hnumber.1).2 '+' List.mem_cons_self) (by decide)
      next => exact (hfilter _).mpr hnumber
    · exact (hfilter _).mpr hnumber

/-! ### Ranges -/

/-- A cut at the first dash, and two numerals. -/
lemma parseRange_eq_ok_iff {s : List Char} {r : ℕ × ℕ} :
    parseRange s = .ok r ↔ ∃ before after, Text.splitOnce '-' s = some (before, after) ∧
      Numeral (trim before) r.1 ∧ Numeral (trim after) r.2 ∧ r.1 ≤ r.2 := by
  simp only [← parseU64_eq_some_iff]
  unfold parseRange
  cases hsplit : Text.splitOnce '-' s with
  | none => simp
  | some cut =>
    obtain ⟨before, after⟩ := cut
    cases hlow : parseU64 (trim before) with
    | none =>
      refine iff_of_false (by simp [hlow, bind, Except.bind]) ?_
      rintro ⟨before', after', heq, hlow', -⟩
      obtain ⟨rfl, rfl⟩ := Prod.mk.inj (Option.some.inj heq)
      simp [hlow] at hlow'
    | some low =>
      cases hhigh : parseU64 (trim after) with
      | none =>
        refine iff_of_false (by simp [hlow, hhigh, bind, Except.bind]) ?_
        rintro ⟨before', after', heq, -, hhigh', -⟩
        obtain ⟨rfl, rfl⟩ := Prod.mk.inj (Option.some.inj heq)
        simp [hhigh] at hhigh'
      | some high =>
        simp only [hlow, hhigh, bind, Except.bind]
        constructor
        · intro h
          split_ifs at h with hle
          obtain rfl := Except.ok.inj h
          exact ⟨before, after, rfl, hlow, hhigh, not_lt.mp hle⟩
        · rintro ⟨before', after', heq, hlow', hhigh', hle⟩
          obtain ⟨rfl, rfl⟩ := Prod.mk.inj (Option.some.inj heq)
          obtain rfl := Option.some.inj (hlow.symm.trans hlow')
          obtain rfl := Option.some.inj (hhigh.symm.trans hhigh')
          rw [if_neg (not_lt.mpr hle)]

/-- **A part is read as the range it spells.** -/
lemma parseRange_trim_eq_ok_iff {s : List Char} {r : ℕ × ℕ} :
    parseRange (trim s) = .ok r ↔ Spells s r := by
  rw [parseRange_eq_ok_iff]
  constructor
  · rintro ⟨before, after, hsplit, hlow, hhigh, hle⟩
    obtain ⟨hcore, -⟩ := Text.splitOnce_eq_some_iff.mp hsplit
    obtain ⟨left, right, hleft, hright, hs⟩ := Text.padded_trim isWhitespace s
    refine ⟨left ++ before, after ++ right, trim before, trim after, ?_,
      (Text.padded_trim _ before).append_left hleft,
      (Text.padded_trim _ after).append_right hright, hlow, hhigh, hle⟩
    rw [hs, show Text.trim isWhitespace s = _ from hcore]
    simp only [List.append_assoc, List.cons_append]
  · rintro ⟨before, after, low, high, rfl, ⟨left, right, hleft, hright, rfl⟩,
      ⟨left', right', hleft', hright', rfl⟩, hlow, hhigh, hle⟩
    -- what is left of the part without the whitespace around it
    have hpadded : Text.Padded isWhitespace ((low ++ right) ++ '-' :: (left' ++ high))
        ((left ++ (low ++ right)) ++ '-' :: (left' ++ (high ++ right'))) := by
      refine ⟨left, right', hleft, hright', ?_⟩
      simp only [List.append_assoc, List.cons_append]
    have htight : Text.Tight isWhitespace ((low ++ right) ++ '-' :: (left' ++ high)) := by
      constructor
      · obtain ⟨c, cs, rfl⟩ := List.exists_cons_of_ne_nil hlow.ne_nil
        intro d hd
        obtain rfl : c = d := by simpa using hd
        exact hlow.not_isWhitespace c List.mem_cons_self
      · intro d hd
        have hlast : ((low ++ right) ++ '-' :: (left' ++ high)).getLast? = high.getLast? := by
          rw [List.getLast?_append_of_ne_nil _ (List.cons_ne_nil _ _), ← List.singleton_append,
            ← List.append_assoc, List.getLast?_append_of_ne_nil _ hhigh.ne_nil]
        rw [hlast] at hd
        exact hhigh.tight.last d hd
    have hdash : '-' ∉ low ++ right := by
      rw [List.mem_append, not_or]
      exact ⟨hlow.not_mem (by decide) (by decide), fun h => absurd (hright _ h) (by decide)⟩
    rw [trim, hpadded.trim_eq htight]
    refine ⟨low ++ right, left' ++ high, Text.splitOnce_append hdash _, ?_, ?_, hle⟩
    · rwa [trim, ((Text.Padded.refl _ low).append_right hright).trim_eq hlow.tight]
    · rwa [trim, ((Text.Padded.refl _ high).append_left hleft').trim_eq hhigh.tight]

lemma parseRange_error_range {s : List Char} {e : FailSlotsError} (h : parseRange s = .error e) :
    e.range = s := by
  unfold parseRange at h
  split at h
  · obtain rfl := Except.error.inj h
    rfl
  · next before after _ =>
    simp only [bind, Except.bind] at h
    cases hlow : parseU64 (trim before) with
    | none =>
      rw [hlow] at h
      obtain rfl := Except.error.inj h
      rfl
    | some low =>
      cases hhigh : parseU64 (trim after) with
      | none =>
        rw [hlow, hhigh] at h
        obtain rfl := Except.error.inj h
        rfl
      | some high =>
        simp only [hlow, hhigh] at h
        split_ifs at h
        obtain rfl := Except.error.inj h
        rfl

/-! ### The whole value -/

section Collect

variable {α β ε : Type*} {f : α → Except ε β} {l : List α}

lemma mapM_eq_ok_iff {bs : List β} :
    l.mapM f = .ok bs ↔ List.Forall₂ (fun a b => f a = .ok b) l bs := by
  induction l generalizing bs with
  | nil =>
    rw [List.mapM_nil, List.forall₂_nil_left_iff]
    exact ⟨fun h => (Except.ok.inj h).symm, fun h => h ▸ rfl⟩
  | cons a l ih =>
    rw [List.mapM_cons, List.forall₂_cons_left_iff]
    cases ha : f a with
    | error e => simp [bind, Except.bind]
    | ok b =>
      cases hl : l.mapM f with
      | error e =>
        simp only [bind, Except.bind]
        refine iff_of_false (by simp) ?_
        rintro ⟨b', bs', -, hbs', -⟩
        rw [← ih, hl] at hbs'
        simp at hbs'
      | ok bs' =>
        simp only [bind, Except.bind, pure, Except.pure, Except.ok.injEq]
        constructor
        · rintro rfl
          exact ⟨b, bs', rfl, ih.mp hl, rfl⟩
        · rintro ⟨b₁, bs₁, rfl, hbs₁, rfl⟩
          rw [← ih, hl] at hbs₁
          rw [Except.ok.inj hbs₁]

lemma mapM_eq_error {e : ε} (h : l.mapM f = .error e) : ∃ before a after,
    l = before ++ a :: after ∧ (∀ b ∈ before, ∃ c, f b = .ok c) ∧ f a = .error e := by
  induction l with
  | nil => simp [List.mapM_nil, pure, Except.pure] at h
  | cons a l ih =>
    rw [List.mapM_cons] at h
    cases ha : f a with
    | error e' =>
      rw [ha] at h
      obtain rfl := Except.error.inj h
      exact ⟨[], a, l, rfl, by simp, ha⟩
    | ok b =>
      cases hl : l.mapM f with
      | ok bs => simp [ha, hl, bind, Except.bind, pure, Except.pure] at h
      | error e' =>
        simp only [ha, hl, bind, Except.bind] at h
        obtain rfl := Except.error.inj h
        obtain ⟨before, a', after, rfl, hbefore, ha'⟩ := ih hl
        refine ⟨a :: before, a', after, rfl, ?_, ha'⟩
        exact List.forall_mem_cons.mpr ⟨⟨b, ha⟩, hbefore⟩

end Collect

/-- The parts of a value that are not blank. -/
def parts (pieces : List (List Char)) : List (List Char) := pieces.filter fun s => ¬ Blank s

lemma ranges_eq (spec : List Char) : ranges spec = (parts (spec.splitOn ',')).map trim := by
  have hblank : ∀ s, trim s ≠ [] ↔ ¬ Blank s := fun s => not_congr Text.trim_eq_nil_iff
  rw [ranges, parts, List.filter_map]
  simp only [Function.comp_def, hblank]

/-- A range as an operator would write it. -/
def showRange (r : ℕ × ℕ) : List Char := Nat.toDigits 10 r.1 ++ '-' :: Nat.toDigits 10 r.2

lemma numeral_toDigits {n : ℕ} (h : n < 2 ^ 64) : Numeral (Nat.toDigits 10 n) n :=
  ⟨[], _, Or.inl rfl, rfl, Text.number_toDigits n, h⟩

lemma spells_showRange {r : ℕ × ℕ} (hle : r.1 ≤ r.2) (hlt : r.2 < 2 ^ 64) :
    Spells (showRange r) r :=
  ⟨_, _, _, _, rfl, .refl _ _, .refl _ _, numeral_toDigits (hle.trans_lt hlt),
    numeral_toDigits hlt, hle⟩

lemma isDigit_or_dash {r : ℕ × ℕ} {c : Char} (h : c ∈ showRange r) : c.isDigit ∨ c = '-' := by
  have hdigits : ∀ n, c ∈ Nat.toDigits 10 n → c.isDigit := fun n hc =>
    Nat.isDigit_of_mem_toDigits (by decide) (by decide) hc
  rcases List.mem_append.mp h with h | h
  · exact Or.inl (hdigits r.1 h)
  · rcases List.mem_cons.mp h with h | h
    · exact Or.inr h
    · exact Or.inl (hdigits r.2 h)

lemma not_mem_showRange (r : ℕ × ℕ) : ',' ∉ showRange r := by
  intro h
  rcases isDigit_or_dash h with h | h
  · exact absurd h (by decide)
  · exact absurd h (by decide)

lemma parts_showRange (rs : List (ℕ × ℕ)) : parts (rs.map showRange) = rs.map showRange := by
  refine List.filter_eq_self.mpr fun s hs => ?_
  obtain ⟨r, -, rfl⟩ := List.mem_map.mp hs
  refine decide_eq_true fun hblank => ?_
  exact absurd (hblank '-' (List.mem_append_right _ List.mem_cons_self)) (by decide)

/-- **A Unicode value is read strictly.**  It is accepted exactly as the list of ranges that its
parts spell, where parts are what is between commas and not blank; an error is about the first
part that spells none; and every list of ranges can be written down.  A value that is not set, and
also one that is not Unicode, is read as no ranges at all. -/
theorem failSlots_strict (spec : List Char) :
    (∀ rs, failSlots (.ok spec) = .ok rs ↔ ∃ pieces : List (List Char), pieces ≠ [] ∧
        (∀ s ∈ pieces, ',' ∉ s) ∧ spec = [','].intercalate pieces ∧
          List.Forall₂ Spells (parts pieces) rs) ∧
      (∀ e, failSlots (.ok spec) = .error e → ∃ before s after,
        parts (spec.splitOn ',') = before ++ s :: after ∧ (∀ s' ∈ before, ∃ r, Spells s' r) ∧
          (∀ r, ¬ Spells s r) ∧ e.range = trim s) ∧
      (∀ rs : List (ℕ × ℕ), (∀ r ∈ rs, r.1 ≤ r.2 ∧ r.2 < 2 ^ 64) →
        spec = [','].intercalate (rs.map showRange) → failSlots (.ok spec) = .ok rs) ∧
      ∀ e, failSlots (.error e) = .ok [] := by
  have hok : ∀ rs, failSlots (.ok spec) = .ok rs ↔
      List.Forall₂ Spells (parts (spec.splitOn ',')) rs := by
    intro rs
    rw [failSlots, ranges_eq, mapM_eq_ok_iff, List.forall₂_map_left_iff]
    simp only [parseRange_trim_eq_ok_iff]
  have hpieces : ∀ rs, failSlots (.ok spec) = .ok rs ↔ ∃ pieces : List (List Char),
      pieces ≠ [] ∧ (∀ s ∈ pieces, ',' ∉ s) ∧ spec = [','].intercalate pieces ∧
        List.Forall₂ Spells (parts pieces) rs := by
    intro rs
    rw [hok]
    constructor
    · exact fun h => ⟨spec.splitOn ',', List.splitOn_ne_nil _ _,
        fun s hs => Text.not_mem_of_mem_splitOn hs, (List.intercalate_splitOn ',').symm, h⟩
    · rintro ⟨pieces, hne, hcomma, rfl, h⟩
      rwa [List.splitOn_intercalate ',' hcomma hne]
  refine ⟨hpieces, fun e he => ?_, fun rs hrs hspec => ?_, fun e => rfl⟩
  · rw [failSlots, ranges_eq] at he
    obtain ⟨before', s', after', hsplit, hbefore, hs'⟩ := mapM_eq_error he
    obtain ⟨before, rest, hparts, rfl, hrest⟩ := List.map_eq_append_iff.mp hsplit
    obtain ⟨s, after, rfl, rfl, -⟩ := List.map_eq_cons_iff.mp hrest
    refine ⟨before, s, after, hparts, fun p hp => ?_, fun r hr => ?_, parseRange_error_range hs'⟩
    · obtain ⟨r, hr⟩ := hbefore (trim p) (List.mem_map_of_mem hp)
      exact ⟨r, parseRange_trim_eq_ok_iff.mp hr⟩
    · rw [parseRange_trim_eq_ok_iff.mpr hr] at hs'
      simp at hs'
  · cases rs with
    | nil =>
      rw [hspec]
      rfl
    | cons r₀ rs₀ =>
      refine (hpieces _).mpr ⟨_, List.cons_ne_nil _ _, ?_, hspec, ?_⟩
      · intro s hs
        obtain ⟨r, -, rfl⟩ := List.mem_map.mp (show s ∈ (r₀ :: rs₀).map showRange from hs)
        exact not_mem_showRange r
      · rw [show showRange r₀ :: rs₀.map showRange = (r₀ :: rs₀).map showRange from rfl,
          parts_showRange, List.forall₂_map_left_iff, List.forall₂_same]
        exact fun r hr => spells_showRange (hrs r hr).1 (hrs r hr).2

example : failSlots (.ok "200-209, +7 - 9,,".toList) = .ok [(200, 209), (7, 9)] := by
  decide +kernel

end Zequencer
