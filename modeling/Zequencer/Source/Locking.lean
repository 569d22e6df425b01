/-
# `RedbLog::append_batch` under its lock

Any number of threads share the log on disk.  An append locks `appending` until it returns, and
what it does meanwhile the others see statement by statement: the rows at the commit, then the
head, then the doorbell.  Readers lock nothing: a read transaction sees what is committed when
it begins, and `head` is a load.

A thread that panics with the lock held poisons it, and then so does every caller panic, at
`expect("append lock poisoned")`.
-/
import Zequencer.Lib.Mutex
import Zequencer.Source.LogStores

namespace Zequencer

/-- A call of `append_batch`; `append` calls it with one entry. -/
structure BatchCall where
  entries : List Entry
  faults : WriteFaults

/-- The statement a call is at. -/
inductive AppendPoint where
  | load
  | beginWrite (start : ℕ)
  | openTable (pos : ℕ) (tx : Database)
  /-- The loop, with the entries that are left. -/
  | insert (pos : ℕ) (table : Table) (entries : List Entry)
  | commit (pos : ℕ) (table : Table)
  | store (pos : ℕ)
  | sendReplace (pos : ℕ)
  | leave (pos : ℕ)

namespace RedbLog

variable [Postcard]

/-- One statement.  Where it fails the call returns, and its transaction is dropped. -/
def appendStep (call : BatchCall) (log : RedbLog) :
    AppendPoint → RedbLog × (AppendPoint ⊕ Except LogError ℕ)
  | .load => (log, .inl (.beginWrite log.head))
  | .beginWrite start =>
    match attempt call.faults.beginWrite with
    | .error e => (log, .inr (.error e))
    | .ok () => (log, .inl (.openTable start log.db))
  | .openTable pos tx =>
    match attempt call.faults.openTable with
    | .error e => (log, .inr (.error e))
    | .ok () => (log, .inl (.insert pos (tx.getD .empty) call.entries))
  | .insert pos table [] => (log, .inl (.commit pos table))
  | .insert pos table (entry :: entries) =>
    match encode entry with
    | .error e => (log, .inr (.error e))
    | .ok bytes =>
      match attempt (call.faults.insert pos) with
      | .error e => (log, .inr (.error e))
      | .ok () => (log, .inl (.insert (pos + 1) (table.insert pos bytes) entries))
  | .commit pos table =>
    match attempt call.faults.commit with
    | .error e => (log, .inr (.error e))
    -- durable here
    | .ok () => ({ log with db := some table }, .inl (.store pos))
  | .store pos => ({ log with head := pos }, .inl (.sendReplace pos))
  | .sendReplace pos => ({ log with doorbell := pos }, .inl (.leave pos))
  | .leave pos => (log, .inr (.ok (pos - 1)))

/-- The log as its threads use it.  A batch of nothing is refused before the lock; the file
outlives the process. -/
def service :
    Mutex.Service RedbLog Database BatchCall AppendPoint (Except LogError ℕ) OpenFaults where
  refuse call := if call.entries.isEmpty then some (.error .emptyBatch) else none
  enter _ := .load
  step := appendStep
  durable := RedbLog.db
  start faults db := (openAt db faults).toOption

end RedbLog

/-- What the threads and the process do. -/
abbrev RedbEvent (ρ : Type*) := Mutex.Event BatchCall OpenFaults ρ

/-- The file, the process that has it open, and the answers to its threads. -/
abbrev RedbWorld (ρ : Type*) :=
  Mutex.World RedbLog Database BatchCall AppendPoint (Except LogError ℕ) ρ

end Zequencer
