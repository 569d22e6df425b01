/-
# Appends from many threads

The lock of `append_batch` makes the calls of all threads one sequence: each does what
`append_batch` does alone, and what others see on the way is the log before it, or the log after
it with head and doorbell still to follow.  No position is given to two entries, and no row is
written over, whatever fails, panics or crashes, as long as every file with rows is opened with
its table.
-/
import Zequencer.Log.Refinement
import Zequencer.Source.Locking

namespace Zequencer

open Mutex

variable [Postcard] {m log log' : RedbLog} {call : BatchCall} {point : AppendPoint}

namespace RedbLog

/-- The call as a whole. -/
def appendCall (log : RedbLog) (call : BatchCall) : RedbLog × Except LogError ℕ :=
  log.appendBatch call.entries call.faults

/-! ### One call -/

/-- What is left of a transaction whose loop ended so. -/
def committed (call : BatchCall) (loop : Except LogError (ℕ × Table)) :
    Except LogError (ℕ × Table) := do
  let (pos, table) ← loop
  attempt call.faults.commit
  return (pos, table)

/-- The log where a call is at this statement that was made on the log `m`. -/
def Reached (m : RedbLog) (call : BatchCall) (log : RedbLog) : AppendPoint → Prop
  | .load => log = m
  | .beginWrite start => log = m ∧ start = m.head
  | .openTable pos tx => log = m ∧ call.faults.beginWrite = none ∧ pos = m.head ∧ tx = m.db
  | .insert pos table entries => log = m ∧ m.transact call.entries call.faults =
      committed call (insertAll call.faults.insert pos table entries)
  | .commit pos table => log = m ∧ m.transact call.entries call.faults =
      committed call (.ok (pos, table))
  | .store pos => ∃ table, m.transact call.entries call.faults = .ok (pos, table) ∧
      log = ⟨some table, m.head, m.doorbell⟩
  | .sendReplace pos => ∃ table, m.transact call.entries call.faults = .ok (pos, table) ∧
      log = ⟨some table, pos, m.doorbell⟩
  | .leave pos => ∃ table, m.transact call.entries call.faults = .ok (pos, table) ∧
      log = ⟨some table, pos, pos⟩

lemma appendCall_of_ok (hne : call.entries ≠ []) {pos : ℕ} {table : Table}
    (h : m.transact call.entries call.faults = .ok (pos, table)) :
    m.appendCall call = (⟨some table, pos, pos⟩, .ok (pos - 1)) := by
  rw [appendCall, appendBatch, if_neg (by simpa using hne), h]

lemma appendCall_of_error (hne : call.entries ≠ []) {e : LogError}
    (h : m.transact call.entries call.faults = .error e) : m.appendCall call = (m, .error e) := by
  rw [appendCall, appendBatch, if_neg (by simpa using hne), h]

/-- The rows are those before the statement, or it is the commit. -/
def Committing (m : RedbLog) (call : BatchCall) (log log' : RedbLog) : Prop :=
  log'.db = log.db ∨ log.db = m.db ∧ log'.db = (m.appendCall call).1.db

/-- A statement leads to the next one, or the call is done. -/
def Outcome (m : RedbLog) (call : BatchCall) (log : RedbLog) :
    RedbLog × (AppendPoint ⊕ Except LogError ℕ) → Prop
  | (log', .inl point) => Reached m call log' point ∧ Committing m call log log'
  | (log', .inr out) => m.appendCall call = (log', out) ∧ Committing m call log log'

/-- **One statement.** -/
lemma Reached.appendStep (hne : call.entries ≠ []) (h : Reached m call log point) :
    Outcome m call log (appendStep call log point) := by
  cases point with
  | load =>
    obtain rfl : log = m := h
    exact ⟨⟨rfl, rfl⟩, Or.inl rfl⟩
  | beginWrite start =>
    obtain ⟨rfl, rfl⟩ : log = m ∧ start = m.head := h
    cases hfault : call.faults.beginWrite with
    | some text =>
      have htx : log.transact call.entries call.faults = .error (.encode text) := by
        rw [transact, hfault]
        rfl
      simp only [RedbLog.appendStep, hfault, attempt]
      exact ⟨appendCall_of_error hne htx, Or.inl rfl⟩
    | none =>
      simp only [RedbLog.appendStep, hfault, attempt]
      exact ⟨⟨rfl, hfault, rfl, rfl⟩, Or.inl rfl⟩
  | openTable pos tx =>
    obtain ⟨rfl, hbegin, rfl, rfl⟩ :
      log = m ∧ call.faults.beginWrite = none ∧ pos = m.head ∧ tx = m.db := h
    cases hfault : call.faults.openTable with
    | some text =>
      have htx : log.transact call.entries call.faults = .error (.encode text) := by
        rw [transact, hbegin, hfault]
        rfl
      simp only [RedbLog.appendStep, hfault, attempt]
      exact ⟨appendCall_of_error hne htx, Or.inl rfl⟩
    | none =>
      have htx : log.transact call.entries call.faults = committed call
          (insertAll call.faults.insert log.head (log.db.getD .empty) call.entries) := by
        rw [transact, hbegin, hfault]
        rfl
      simp only [RedbLog.appendStep, hfault, attempt]
      exact ⟨⟨rfl, htx⟩, Or.inl rfl⟩
  | insert pos table entries =>
    obtain ⟨rfl, htx⟩ : log = m ∧ m.transact call.entries call.faults =
      committed call (insertAll call.faults.insert pos table entries) := h
    cases entries with
    | nil => exact ⟨⟨rfl, htx⟩, Or.inl rfl⟩
    | cons entry entries =>
      rw [insertAll] at htx
      cases hencode : encode entry with
      | error e =>
        rw [hencode] at htx
        simp only [RedbLog.appendStep, hencode]
        exact ⟨appendCall_of_error hne htx, Or.inl rfl⟩
      | ok bytes =>
        cases hfault : call.faults.insert pos with
        | some text =>
          rw [hencode, hfault] at htx
          simp only [RedbLog.appendStep, hencode, hfault, attempt]
          exact ⟨appendCall_of_error hne htx, Or.inl rfl⟩
        | none =>
          rw [hencode, hfault] at htx
          simp only [RedbLog.appendStep, hencode, hfault, attempt]
          exact ⟨⟨rfl, htx⟩, Or.inl rfl⟩
  | commit pos table =>
    obtain ⟨rfl, htx⟩ : log = m ∧ m.transact call.entries call.faults =
      committed call (.ok (pos, table)) := h
    cases hfault : call.faults.commit with
    | some text =>
      have herror : log.transact call.entries call.faults = .error (.encode text) := by
        rw [htx, committed, hfault]
        rfl
      simp only [RedbLog.appendStep, hfault, attempt]
      exact ⟨appendCall_of_error hne herror, Or.inl rfl⟩
    | none =>
      have hok : log.transact call.entries call.faults = .ok (pos, table) := by
        rw [htx, committed, hfault]
        rfl
      simp only [RedbLog.appendStep, hfault, attempt]
      refine ⟨⟨table, hok, rfl⟩, Or.inr ⟨rfl, ?_⟩⟩
      rw [appendCall_of_ok hne hok]
  | store pos =>
    obtain ⟨table, hok, rfl⟩ : ∃ table, m.transact call.entries call.faults = .ok (pos, table) ∧
      log = ⟨some table, m.head, m.doorbell⟩ := h
    exact ⟨⟨table, hok, rfl⟩, Or.inl rfl⟩
  | sendReplace pos =>
    obtain ⟨table, hok, rfl⟩ : ∃ table, m.transact call.entries call.faults = .ok (pos, table) ∧
      log = ⟨some table, pos, m.doorbell⟩ := h
    exact ⟨⟨table, hok, rfl⟩, Or.inl rfl⟩
  | leave pos =>
    obtain ⟨table, hok, rfl⟩ : ∃ table, m.transact call.entries call.faults = .ok (pos, table) ∧
      log = ⟨some table, pos, pos⟩ := h
    exact ⟨appendCall_of_ok hne hok, Or.inl rfl⟩

/-- How many statements a call has before it after this one. -/
def remaining (call : BatchCall) : AppendPoint → ℕ
  | .load => call.entries.length + 7
  | .beginWrite _ => call.entries.length + 6
  | .openTable .. => call.entries.length + 5
  | .insert _ _ entries => entries.length + 4
  | .commit .. => 3
  | .store _ => 2
  | .sendReplace _ => 1
  | .leave _ => 0

lemma remaining_lt {point' : AppendPoint} (h : appendStep call log point = (log', .inl point')) :
    remaining call point' < remaining call point := by
  cases point with
  | beginWrite start =>
    simp only [appendStep] at h
    split at h
    · simp at h
    · obtain ⟨-, rfl⟩ : log = log' ∧ .openTable start log.db = point' := by simpa using h
      simp [remaining]
  | openTable pos tx =>
    simp only [appendStep] at h
    split at h
    · simp at h
    · obtain ⟨-, rfl⟩ : log = log' ∧ .insert pos (tx.getD .empty) call.entries = point' := by
        simpa using h
      simp [remaining]
  | insert pos table entries =>
    cases entries with
    | nil =>
      obtain ⟨-, rfl⟩ : log = log' ∧ .commit pos table = point' := by simpa [appendStep] using h
      simp [remaining]
    | cons entry entries =>
      simp only [appendStep] at h
      split at h
      · simp at h
      · next bytes hbytes =>
        split at h
        · simp at h
        · obtain ⟨-, rfl⟩ : log = log' ∧
              .insert (pos + 1) (table.insert pos bytes) entries = point' := by
            simpa using h
          simp [remaining]
  | commit pos table =>
    simp only [appendStep] at h
    split at h
    · simp at h
    · obtain ⟨-, rfl⟩ : { log with db := some table } = log' ∧ .store pos = point' := by
        simpa using h
      simp [remaining]
  | load =>
    obtain ⟨-, rfl⟩ : log = log' ∧ .beginWrite log.head = point' := by simpa [appendStep] using h
    simp [remaining]
  | store pos =>
    obtain ⟨-, rfl⟩ : { log with head := pos } = log' ∧ .sendReplace pos = point' := by
      simpa [appendStep] using h
    simp [remaining]
  | sendReplace pos =>
    obtain ⟨-, rfl⟩ : { log with doorbell := pos } = log' ∧ .leave pos = point' := by
      simpa [appendStep] using h
    simp [remaining]
  | leave pos => simp [appendStep] at h

/-- A call that was made on the log `m` is under the lock. -/
structure Underway (m : RedbLog) (call : BatchCall) (log : RedbLog) (point : AppendPoint) :
    Prop where
  nonempty : call.entries ≠ []
  reached : Reached m call log point
  remaining_le : remaining call point ≤ call.entries.length + 7

/-- **The lock makes calls whole.** -/
lemma service_meets : Meets service appendCall Underway where
  refuse := by
    intro m call out h
    obtain ⟨hnil, rfl⟩ : call.entries = [] ∧ Except.error .emptyBatch = out := by
      simpa [service] using h
    rw [appendCall, appendBatch, if_pos (by simpa using hnil)]
  enter := by
    intro m call h
    have hne : call.entries ≠ [] := by
      rintro hnil
      simp [service, hnil] at h
    exact ⟨hne, rfl, Nat.le_refl _⟩
  step := by
    intro m call log log' point point' h hstep
    have heq : appendStep call log point = (log', .inl point') := hstep
    have hout := h.reached.appendStep h.nonempty
    rw [heq] at hout
    exact ⟨h.nonempty, hout.1, ((remaining_lt heq).trans_le h.remaining_le).le⟩
  answer := by
    intro m call log log' point out h hstep
    have heq : appendStep call log point = (log', .inr out) := hstep
    have hout := h.reached.appendStep h.nonempty
    rw [heq] at hout
    exact hout.1
  commit := by
    intro m call log point h
    have hout := h.reached.appendStep h.nonempty
    show Committing m call log (appendStep call log point).1
    rcases heq : appendStep call log point with ⟨log', point' | out⟩
    · rw [heq] at hout
      exact hout.2
    · rw [heq] at hout
      exact hout.2

/-- What the others see of a call that was made on the log `m`: nothing; or its rows, and then its
head, and then its doorbell. -/
def Seen (m : RedbLog) (call : BatchCall) (log : RedbLog) : Prop :=
  let m' := (m.appendCall call).1
  log = m ∨ log = ⟨m'.db, m.head, m.doorbell⟩ ∨ log = ⟨m'.db, m'.head, m.doorbell⟩ ∨ log = m'

lemma Reached.seen (hne : call.entries ≠ []) (h : Reached m call log point) : Seen m call log := by
  cases point with
  | load => exact Or.inl h
  | beginWrite start => exact Or.inl h.1
  | openTable pos tx => exact Or.inl h.1
  | insert pos table entries => exact Or.inl h.1
  | commit pos table => exact Or.inl h.1
  | store pos =>
    obtain ⟨table, hok, rfl⟩ := h
    rw [Seen, appendCall_of_ok hne hok]
    exact Or.inr (Or.inl rfl)
  | sendReplace pos =>
    obtain ⟨table, hok, rfl⟩ := h
    rw [Seen, appendCall_of_ok hne hok]
    exact Or.inr (Or.inr (Or.inl rfl))
  | leave pos =>
    obtain ⟨table, hok, rfl⟩ := h
    rw [Seen, appendCall_of_ok hne hok]
    exact Or.inr (Or.inr (Or.inr rfl))

end RedbLog

/-! ### All calls -/

section Threads

variable {ρ : Type*} [DecidableEq ρ] {db db' : Database} {es es' : List (RedbEvent ρ)}

/-- The file `db`, after what threads and processes did with it. -/
def RedbWorld.run (db : Database) (es : List (RedbEvent ρ)) : RedbWorld ρ :=
  World.run RedbLog.service db es

/-- Some thread makes this call. -/
def Made (es : List (RedbEvent ρ)) (call : BatchCall) : Prop := ∃ p, .call p call ∈ es

/-- A history of such calls of `append_batch`, one after the other, with the file opened so. -/
abbrev Sequential (calls : BatchCall → Prop) (opens : OpenFaults → Database → Prop)
    (db : Database) :
    List (Record BatchCall (Except LogError ℕ) OpenFaults ρ) → Database ⊕ RedbLog → Prop :=
  Serial RedbLog.service RedbLog.appendCall calls opens db

end Threads

end Zequencer
