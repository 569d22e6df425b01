/-
# What a recovery scan finds, and where recovery resumes

A recovery scans the log, and reads the head later if the scan has not found the slot it
is to resume at.  It misses nothing if some slot was committed past everything done, or if
none has been committed in between.
-/
import Zequencer.Log.Numbering
import Zequencer.Source.Prove

namespace Zequencer

/-! ### What the scan finds -/

/-- The largest number of a list, if it has any. -/
def IsNewest (l : List ℕ) : Option ℕ → Prop
  | none => l = []
  | some newest => newest ∈ l ∧ ∀ slot ∈ l, slot ≤ newest

lemma IsNewest.eq_none_iff {l : List ℕ} {newest : Option ℕ} (h : IsNewest l newest) :
    newest = none ↔ l = [] := by
  cases newest with
  | none => exact iff_of_true rfl h
  | some d =>
    refine iff_of_false (Option.some_ne_none d) ?_
    rintro rfl
    simp [IsNewest] at h

/-- After an initial stretch of slots comes the next one. -/
lemma IsNewest.next_of_range {m : ℕ} {newest : Option ℕ} (h : IsNewest (List.range m) newest) :
    (newest.elim 0 fun d => d + 1) = m := by
  cases newest with
  | none =>
    have hm : m = 0 := by simpa [IsNewest] using h
    exact hm.symm
  | some d =>
    obtain ⟨hmem, hle⟩ := h
    rw [List.mem_range] at hmem
    have hlast := hle (m - 1) (List.mem_range.mpr (by omega))
    show d + 1 = m
    omega

section Scan

variable {done? : Entry → Option ℕ} {log : Log}

lemma scanLog_append (log : Log) (e : Entry) :
    scanLog done? (log ++ [e]) = (scanLog done? log).entry done? log.length e := by
  have hread : (log ++ [e]).readFrom 0 = log.readFrom 0 ++ [(log.length, e)] := by
    simp [Log.readFrom, List.zipIdx_append]
  rw [scanLog, hread, List.foldl_append]
  rfl

lemma isNewest_scanLog (log : Log) (hdone : ∀ c, done? (.slotCommitted c) = none) :
    IsNewest (log.filterMap done?) (scanLog done? log).doneThrough := by
  induction log using List.reverseRecOn with
  | nil => rfl
  | append_singleton log e ih =>
    rw [scanLog_append, List.filterMap_append]
    cases hd : done? e with
    | none =>
      have hkeep : ((scanLog done? log).entry done? log.length e).doneThrough =
          (scanLog done? log).doneThrough := by
        cases e <;> simp [Scanned.entry, hd]
      rw [hkeep]
      simpa [hd] using ih
    | some slot =>
      have hnew : ((scanLog done? log).entry done? log.length e).doneThrough =
          some ((scanLog done? log).doneThrough.elim slot fun d => max d slot) := by
        cases e with
        | slotCommitted c => simp [hdone] at hd
        | _ => simp [Scanned.entry, hd]
      rw [hnew, List.filterMap_cons_some hd, List.filterMap_nil]
      cases hs : (scanLog done? log).doneThrough with
      | none =>
        rw [hs] at ih
        have hempty : log.filterMap done? = [] := ih
        simp [IsNewest, hempty]
      | some d =>
        rw [hs] at ih
        obtain ⟨hmem, hle⟩ := ih
        refine ⟨?_, fun slot' hslot' => ?_⟩
        · rcases max_choice d slot with hmax | hmax
          · simp [hmax, hmem]
          · simp [hmax]
        · rcases List.mem_append.mp hslot' with hold | hold
          · exact (hle slot' hold).trans (le_max_left d slot)
          · obtain rfl := List.mem_singleton.mp hold
            exact le_max_right d slot'

lemma lookup_scanLog (h : Log.Numbered log) {slot p : ℕ} :
    (scanLog done? log).slotPositions.lookup slot = some p ↔
      ∃ c, log[p]? = some (.slotCommitted c) ∧ c.slot = slot := by
  induction log using List.reverseRecOn generalizing p with
  | nil => simp [scanLog, Log.readFrom]
  | append_singleton log e ih =>
    have ih := ih h.of_append (p := p)
    rw [scanLog_append]
    simp only [getElem?_append_singleton_eq_some]
    by_cases he : e.committed? = none
    · have hkeep : ((scanLog done? log).entry done? log.length e).slotPositions =
          (scanLog done? log).slotPositions := by
        cases e with
        | slotCommitted c => simp [Entry.committed?] at he
        | _ => unfold Scanned.entry; dsimp only; split <;> rfl
      have hne : ∀ c, e ≠ .slotCommitted c := by
        rintro c rfl
        simp [Entry.committed?] at he
      simp [hkeep, ih, hne]
    · obtain ⟨c, hc⟩ := Option.ne_none_iff_exists'.mp he
      obtain rfl := Entry.committed?_eq_some.mp hc
      have hlast : (log ++ [Entry.slotCommitted c])[log.length]? = some (.slotCommitted c) := by
        simp
      have hpositions : ((scanLog done? log).entry done? log.length
          (.slotCommitted c)).slotPositions =
            (scanLog done? log).slotPositions.insert c.slot log.length := rfl
      rw [hpositions, HashMap.lookup_insert_ite]
      by_cases hs : slot = c.slot
      · rw [if_pos hs]
        constructor
        · intro hp
          obtain rfl := Option.some.inj hp
          exact ⟨c, Or.inr ⟨rfl, rfl⟩, hs.symm⟩
        · rintro ⟨c', hc' | ⟨rfl, -⟩, hs'⟩
          · -- the slots below have smaller numbers
            have hc'' : (log ++ [Entry.slotCommitted c])[p]? = some (.slotCommitted c') := by
              rw [getElem?_append_singleton_eq_some]
              exact Or.inl hc'
            have hlt := (h.slot_lt_committedBelow (q := log.length) hc'').mpr
              (List.getElem?_eq_some_iff.mp hc').1
            rw [hs', hs, h.slot_eq hlast] at hlt
            exact absurd hlt (lt_irrefl _)
          · rfl
      · rw [if_neg hs, ih]
        constructor
        · rintro ⟨c', hc', hs'⟩
          exact ⟨c', Or.inl hc', hs'⟩
        · rintro ⟨c', hc' | ⟨-, hcc'⟩, hs'⟩
          · exact ⟨c', hc', hs'⟩
          · obtain rfl := Entry.slotCommitted.inj hcc'
            exact absurd hs'.symm hs

lemma lookup_scanLog_eq_none (h : Log.Numbered log) {slot : ℕ} :
    (scanLog done? log).slotPositions.lookup slot = none ↔ log.commits.length ≤ slot := by
  constructor
  · intro hnone
    by_contra hlt
    obtain ⟨p, c, hp, hc⟩ := h.exists_of_lt (not_le.mp hlt)
    rw [(lookup_scanLog h).mpr ⟨c, hp, hc⟩] at hnone
    simp at hnone
  · intro hle
    cases hl : (scanLog done? log).slotPositions.lookup slot with
    | none => rfl
    | some p =>
      obtain ⟨c, hp, rfl⟩ := (lookup_scanLog h).mp hl
      have hlt := h.slot_lt (Log.mem_commits_of_getElem? hp)
      omega

lemma nextSlot_scanLog_le (hdone : ∀ c, done? (.slotCommitted c) = none) {slot : ℕ} :
    (scanLog done? log).nextSlot ≤ slot ↔ ∀ d ∈ log.filterMap done?, d < slot := by
  have hnewest := isNewest_scanLog log hdone
  unfold Scanned.nextSlot
  cases hd : (scanLog done? log).doneThrough with
  | none =>
    rw [hd] at hnewest
    have hempty : log.filterMap done? = [] := hnewest
    simp [hempty]
  | some newest =>
    rw [hd] at hnewest
    obtain ⟨hmem, hle⟩ := hnewest
    show newest + 1 ≤ slot ↔ _
    constructor
    · intro hslot d hd
      have hle' := hle d hd
      omega
    · exact fun h => h newest hmem

/-- The scan misses the next slot when every slot is at or below something done. -/
lemma lookup_nextSlot_eq_none (h : Log.Numbered log)
    (hdone : ∀ c, done? (.slotCommitted c) = none) :
    (scanLog done? log).slotPositions.lookup (scanLog done? log).nextSlot = none ↔
      ¬ ∃ c ∈ log.commits, ∀ d ∈ log.filterMap done?, d < c.slot := by
  rw [lookup_scanLog_eq_none h]
  constructor
  · rintro hle ⟨c, hc, hlt⟩
    have hslot := h.slot_lt hc
    have hnext := (nextSlot_scanLog_le hdone).mpr hlt
    omega
  · intro hnone
    by_contra hlt
    obtain ⟨p, c, hp, hc⟩ := h.exists_of_lt (not_le.mp hlt)
    exact hnone ⟨c, Log.mem_commits_of_getElem? hp, (nextSlot_scanLog_le hdone).mp hc.ge⟩

end Scan

/-! ### Where to resume -/

/-- Where a recovery resumes: at the commit of the next slot, if the scan has found it, else
at the head, which is read later. -/
def Scanned.resume (s : Scanned) (head : ℕ) : ℕ := (s.slotPositions.lookup s.nextSlot).getD head

/-- Between the scan of `log` and the reading of the head of `log'` nothing is missed: some
slot was committed past everything done, or none has been committed since. -/
def ScanCovers (done? : Entry → Option ℕ) (log log' : Log) : Prop :=
  (∃ c ∈ log.commits, ∀ d ∈ log.filterMap done?, d < c.slot) ∨ ∀ c ∈ log'.commits, c ∈ log.commits

section Resume

variable {done? : Entry → Option ℕ} {log rest : Log}

lemma ScanCovers.refl : ScanCovers done? log log := Or.inr fun _ hc => hc

lemma nextSlot_scanLog_le_length {log' : Log} (h : Log.Numbered log')
    (hdone : ∀ c, done? (.slotCommitted c) = none)
    (hcommitted : ∀ d ∈ log.filterMap done?, ∃ c ∈ log'.commits, c.slot = d) :
    (scanLog done? log).nextSlot ≤ log'.commits.length := by
  refine (nextSlot_scanLog_le hdone).mpr fun d hd => ?_
  obtain ⟨c, hc, rfl⟩ := hcommitted d hd
  exact h.slot_lt hc

/-- A recovery that misses nothing resumes where the slots done end. -/
lemma ScanCovers.committedBelow_resume (h : ScanCovers done? log (log ++ rest))
    (hnum : Log.Numbered (log ++ rest)) (hdone : ∀ c, done? (.slotCommitted c) = none)
    (hcommitted : ∀ d ∈ log.filterMap done?, ∃ c ∈ Log.commits (log ++ rest), c.slot = d) :
    (scanLog done? log).resume (log ++ rest).length ≤ (log ++ rest).length ∧
      Log.committedBelow (log ++ rest) ((scanLog done? log).resume (log ++ rest).length) =
        (scanLog done? log).nextSlot := by
  have hnumLog := hnum.of_append
  unfold Scanned.resume
  cases hl : (scanLog done? log).slotPositions.lookup (scanLog done? log).nextSlot with
  | some p =>
    obtain ⟨c, hp, hc⟩ := (lookup_scanLog hnumLog).mp hl
    have hlt := (List.getElem?_eq_some_iff.mp hp).1
    have hp' : (log ++ rest)[p]? = some (.slotCommitted c) := by
      rwa [List.getElem?_append_left hlt]
    exact ⟨(List.getElem?_eq_some_iff.mp hp').1.le, (hnum.slot_eq hp').symm.trans hc⟩
  | none =>
    refine ⟨le_rfl, ?_⟩
    show Log.committedBelow (log ++ rest) (log ++ rest).length = _
    rw [Log.committedBelow, Log.countBelow_of_length_le le_rfl]
    -- the scan has seen every slot, and all of them are done
    have hnew : ∀ c ∈ Log.commits (log ++ rest), c ∈ log.commits :=
      h.resolve_left ((lookup_nextSlot_eq_none hnumLog hdone).mp hl)
    have hle := (lookup_scanLog_eq_none hnumLog).mp hl
    have hge := nextSlot_scanLog_le_length hnum hdone hcommitted
    have hlen : (Log.commits (log ++ rest)).length ≤ log.commits.length := by
      by_contra hlt
      obtain ⟨p, c, hp, hc⟩ := hnum.exists_of_lt (not_le.mp hlt)
      have hslot := hnumLog.slot_lt (hnew c (Log.mem_commits_of_getElem? hp))
      omega
    exact le_antisymm (hlen.trans hle) hge

/-- Any other recovery resumes at the head, past the next slot. -/
lemma resume_of_not_covers (h : ¬ ScanCovers done? log (log ++ rest))
    (hnum : Log.Numbered (log ++ rest)) (hdone : ∀ c, done? (.slotCommitted c) = none)
    (hcommitted : ∀ d ∈ log.filterMap done?, ∃ c ∈ log.commits, c.slot = d) :
    (scanLog done? log).resume (log ++ rest).length = (log ++ rest).length ∧
      (scanLog done? log).nextSlot < (Log.commits (log ++ rest)).length := by
  have hnumLog := hnum.of_append
  obtain ⟨hpast, hnew⟩ := not_or.mp h
  have hl := (lookup_nextSlot_eq_none hnumLog hdone).mpr hpast
  refine ⟨by rw [Scanned.resume, hl, Option.getD_none], ?_⟩
  have hge := nextSlot_scanLog_le_length hnumLog hdone hcommitted
  refine hge.trans_lt ?_
  rw [Log.commits_append, List.length_append]
  have hrest : Log.commits rest ≠ [] := by
    intro hnil
    refine hnew fun c hc => ?_
    rwa [Log.commits_append, hnil, List.append_nil] at hc
  have hpos := List.length_pos_iff.mpr hrest
  omega

end Resume

end Zequencer
