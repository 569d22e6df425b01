/-
# The log on disk is the log in memory

Without faults, and where postcard gives every entry back, `RedbLog` answers every sequence of
operations as `MemLog` does, however often the file is closed and opened again.
-/
import Zequencer.Lib.Machine
import Zequencer.Log.Reading

namespace Zequencer

/-! ### Operations -/

/-- What a caller may ask of a log. -/
inductive LogOp where
  | append (entry : Entry)
  | appendBatch (entries : List Entry)
  | head
  | readFrom (cursor : ℕ)
  /-- Close the log and open it again. -/
  | reopen

/-- The entries an operation writes. -/
def LogOp.entries : LogOp → List Entry
  | .append entry => [entry]
  | .appendBatch entries => entries
  | _ => []

/-- What the caller gets. -/
inductive LogAnswer where
  | position (result : Except LogError ℕ)
  | head (pos : ℕ)
  | entries (result : Except LogError (List (ℕ × Entry)))
  | reopened (result : Except LogError Unit)
  | panicked
deriving DecidableEq

/-- The log in memory has no file: it stays as it is. -/
def MemLog.step (log : MemLog) : LogOp → MemLog × LogAnswer
  | .append entry => ((log.append entry).1, .position (log.append entry).2)
  | .appendBatch entries => ((log.appendBatch entries).1, .position (log.appendBatch entries).2)
  | .head => (log, .head log.head)
  | .readFrom cursor => (log, .entries (log.readFrom cursor))
  | .reopen => (log, .reopened (.ok ()))

section Refinement

variable [Postcard]

/-- No call of redb fails. -/
def RedbLog.step (log : RedbLog) : LogOp → RedbLog × LogAnswer
  | .append entry => ((log.append entry {}).1, .position (log.append entry {}).2)
  | .appendBatch entries =>
    ((log.appendBatch entries {}).1, .position (log.appendBatch entries {}).2)
  | .head => (log, .head log.head)
  | .readFrom cursor => (log, (log.readFrom cursor {}).elim .panicked .entries)
  | .reopen =>
    match RedbLog.openAt log.db {} with
    | .ok log => (log, .reopened (.ok ()))
    | .error e => (log, .reopened (.error e))

/-- Postcard gives the entry back. -/
def RoundTrips (entry : Entry) : Prop :=
  ∃ bytes, Postcard.toStdvec entry = .ok bytes ∧ Postcard.fromBytes bytes = some entry

lemma RoundTrips.decode_encode {entry : Entry} (h : RoundTrips entry) :
    ∃ bytes, encode entry = .ok bytes ∧ decode bytes = some (.ok entry) := by
  obtain ⟨bytes, hto, hfrom⟩ := h
  refine ⟨leBytes 2 SCHEMA_VERSION ++ bytes, by rw [encode, hto], ?_⟩
  have hlen : 2 ≤ (leBytes 2 SCHEMA_VERSION ++ bytes).length := by simp
  rw [RedbLog.decode_of_le_length hlen, RedbLog.stored?, List.take_left' (length_leBytes 2 _),
    List.drop_left' (length_leBytes 2 _), if_pos rfl, hfrom]
  rfl

/-! ### The simulation -/

/-- The log on disk holds exactly these entries. -/
structure Holds (log : RedbLog) (entries : Log) : Prop where
  rows : Encodes log.db.rows 0 entries
  head : log.head = entries.length
  readable : ∀ entry ∈ entries, RoundTrips entry

variable {log : RedbLog} {entries : Log}

lemma Encodes.append {rows rows' : List (ℕ × List UInt8)} {pos : ℕ} {entries' : Log}
    (h : Encodes rows pos entries) (h' : Encodes rows' (pos + entries.length) entries') :
    Encodes (rows ++ rows') pos (entries ++ entries') := by
  rw [Encodes, encoded, List.zipIdx_append, List.map_append, List.map_append]
  exact congrArg₂ (· ++ ·) h h'

lemma Holds.next_eq (h : Holds log entries) : log.db.next = entries.length := by
  by_cases hne : entries = []
  · have hrows : log.db.rows = [] := by
      have hlen := h.rows.length_eq
      rw [hne, List.length_nil] at hlen
      exact List.eq_nil_of_length_eq_zero hlen
    rw [Database.next_of_rows_eq_nil hrows, hne, List.length_nil]
  · rw [Database.next_of_encodes (List.nil_append _).symm h.rows hne, Nat.zero_add]

lemma Holds.synced (h : Holds log entries) : log.Synced := h.head.trans h.next_eq.symm

lemma Encodes.decode_eq {rows : List (ℕ × List UInt8)} {pos : ℕ} (h : Encodes rows pos entries)
    (hreadable : ∀ entry ∈ entries, RoundTrips entry) :
    rows.map (fun row => (row.1, decode row.2)) =
      (entries.zipIdx pos).map fun e => (e.2, some (.ok e.1)) := by
  induction entries generalizing rows pos with
  | nil =>
    obtain rfl := List.eq_nil_of_length_eq_zero h.length_eq
    rfl
  | cons entry entries ih =>
    obtain ⟨bytes, hencode, hdecode⟩ := (hreadable entry List.mem_cons_self).decode_encode
    cases rows with
    | nil => simp [Encodes, encoded] at h
    | cons row rows =>
      obtain rfl : row = (pos, bytes) := by
        have hhead := congrArg List.head? h
        simp only [encoded, List.zipIdx_cons, List.map_cons, List.head?_cons, hencode,
          Option.some.injEq, Prod.mk.injEq, Except.ok.injEq] at hhead
        exact Prod.ext hhead.1 hhead.2
      have htail := ih ((Encodes.cons_iff hencode).mp h)
        fun entry' hentry' => hreadable entry' (List.mem_cons_of_mem entry hentry')
      rw [List.map_cons, List.zipIdx_cons, List.map_cons, hdecode, htail]

lemma Holds.stores (h : Holds log entries) : Stores log.db entries := by
  rw [Stores, h.rows.decode_eq h.readable, Log.readFrom, Nat.zero_min, List.drop_zero,
    List.map_map]
  simp only [Function.comp_def, Nat.zero_add]

lemma insertAll_eq_ok_of_encode {entries : List Entry}
    (h : ∀ entry ∈ entries, ∃ bytes, encode entry = .ok bytes) (pos : ℕ) (table : Table) :
    ∃ r, RedbLog.insertAll (fun _ => none) pos table entries = .ok r := by
  induction entries generalizing pos table with
  | nil => exact ⟨_, rfl⟩
  | cons entry entries ih =>
    obtain ⟨bytes, hbytes⟩ := h entry List.mem_cons_self
    obtain ⟨r, hr⟩ := ih (fun entry' hentry' => h entry' (List.mem_cons_of_mem entry hentry'))
      (pos + 1) (table.insert pos bytes)
    refine ⟨r, ?_⟩
    rw [RedbLog.insertAll, hbytes]
    exact hr

lemma Holds.appendBatch (h : Holds log entries) {entries' : List Entry} (hne : entries' ≠ [])
    (hreadable : ∀ entry ∈ entries', RoundTrips entry) :
    ∃ log', log.appendBatch entries' {} =
        (log', .ok ((entries ++ entries').length - 1)) ∧ Holds log' (entries ++ entries') := by
  rcases RedbLog.appendBatch_cases h.synced entries' {} with
    ⟨e, herr⟩ | ⟨log', rows, hok, -, hrows, hencodes, hhead, -⟩
  · have hencode : ∀ entry ∈ entries', ∃ bytes, encode entry = .ok bytes := by
      intro entry hentry
      obtain ⟨bytes, hbytes, -⟩ := (hreadable entry hentry).decode_encode
      exact ⟨bytes, hbytes⟩
    obtain ⟨r, hr⟩ := insertAll_eq_ok_of_encode hencode log.head (log.db.getD .empty)
    have htx : log.transact entries' {} = .ok r := by
      rw [RedbLog.transact]
      simp only [hr]
      rfl
    have hempty : entries'.isEmpty = false := by simpa using hne
    rw [RedbLog.appendBatch, hempty, htx] at herr
    exact absurd (Prod.mk.inj herr).2 (by simp)
  · refine ⟨log', by rw [hok, h.head, List.length_append], ?_, ?_, ?_⟩
    · rw [hrows]
      refine h.rows.append ?_
      rwa [Nat.zero_add, ← h.head]
    · rw [hhead, h.head, List.length_append]
    · intro entry hentry
      rcases List.mem_append.mp hentry with hentry | hentry
      · exact h.readable entry hentry
      · exact hreadable entry hentry

lemma Holds.openAt (h : Holds log entries) :
    ∃ log', RedbLog.openAt log.db {} = .ok log' ∧ Holds log' entries := by
  have hopen : RedbLog.openAt log.db {} = .ok ⟨log.db, log.db.next, log.db.next⟩ := by
    cases log.db with
    | none => rfl
    | some table => rfl
  exact ⟨_, hopen, h.rows, h.next_eq, h.readable⟩

/-- What the caller of an append sees on both logs, and what they hold after it. -/
lemma Holds.append_eq {mem : MemLog} (h : Holds log mem.entries) (entries' : List Entry)
    (hreadable : ∀ entry ∈ entries', RoundTrips entry) :
    (log.appendBatch entries' {}).2 = (mem.appendBatch entries').2 ∧
      Holds (log.appendBatch entries' {}).1 (mem.appendBatch entries').1.entries := by
  by_cases hne : entries' = []
  · subst hne
    exact ⟨rfl, h⟩
  · obtain ⟨log', hok, hholds⟩ := h.appendBatch hne hreadable
    have hempty : entries'.isEmpty = false := by simpa using hne
    rw [hok, MemLog.appendBatch, hempty]
    exact ⟨rfl, hholds⟩

/-- **One operation.**  Both logs answer the same, and hold the same after it. -/
lemma simulates :
    Machine.Simulates RedbLog.step MemLog.step (fun log mem => Holds log mem.entries)
      (fun op => ∀ entry ∈ op.entries, RoundTrips entry) where
  answer := by
    intro log mem op hop h
    cases op with
    | append entry =>
      exact congrArg LogAnswer.position (h.append_eq [entry] hop).1
    | appendBatch entries => exact congrArg LogAnswer.position (h.append_eq entries hop).1
    | head => exact congrArg LogAnswer.head h.head
    | readFrom cursor =>
      have hread : log.readFrom cursor {} = some (.ok (mem.entries.readFrom cursor)) := by
        rw [RedbLog.readFrom_of_stores h.stores cursor rfl rfl rfl]
        simp
      show (log.readFrom cursor {}).elim LogAnswer.panicked LogAnswer.entries = _
      rw [hread]
      rfl
    | reopen =>
      obtain ⟨log', hopen, -⟩ := h.openAt
      show (RedbLog.step log .reopen).2 = .reopened (.ok ())
      rw [RedbLog.step, hopen]
  state := by
    intro log mem op hop h
    cases op with
    | append entry => exact (h.append_eq [entry] hop).2
    | appendBatch entries => exact (h.append_eq entries hop).2
    | head => exact h
    | readFrom cursor => exact h
    | reopen =>
      obtain ⟨log', hopen, hholds⟩ := h.openAt
      show Holds (RedbLog.step log .reopen).1 mem.entries
      rw [RedbLog.step, hopen]
      exact hholds

/-- **The durable log refines the in-memory log.**  From a fresh file on, every sequence of
operations is answered alike, wherever it is closed and opened again, and the keys stored are
exactly those below the head. -/
theorem durable_log_refines (ops : List LogOp)
    (hops : ∀ op ∈ ops, ∀ entry ∈ op.entries, RoundTrips entry) :
    ∃ log, RedbLog.openAt none {} = .ok log ∧
      (Machine.run RedbLog.step log ops).2 = (Machine.run MemLog.step .new ops).2 ∧
      (Machine.run RedbLog.step log ops).1.db.rows.map Prod.fst =
        List.range (Machine.run RedbLog.step log ops).1.head := by
  have hfresh : Holds ⟨none, 0, 0⟩ MemLog.new.entries := ⟨rfl, rfl, by simp [MemLog.new]⟩
  obtain ⟨hanswers, hholds⟩ := simulates.run hfresh ops hops
  refine ⟨⟨none, 0, 0⟩, rfl, hanswers, ?_⟩
  rw [hholds.rows.keys_eq, hholds.head, List.range_eq_range']

end Refinement

/-- Batches of every kind, a reopened file, and reads below, at and past the head. -/
def mixedOps : List LogOp :=
  [.append firstFailure, .appendBatch [], .reopen, .appendBatch [secondFailure, firstFailure],
    .head, .readFrom 1, .readFrom 3, .readFrom 9]

theorem durable_log_refines_mixedOps :
    ∃ log, RedbLog.openAt none {} = .ok log ∧
      (Machine.run (@RedbLog.step fixturePostcard) log mixedOps).2 =
        (Machine.run MemLog.step .new mixedOps).2 ∧
      (Machine.run (@RedbLog.step fixturePostcard) log mixedOps).1.db.rows.map Prod.fst =
        List.range (Machine.run (@RedbLog.step fixturePostcard) log mixedOps).1.head := by
  have hfirst : @RoundTrips fixturePostcard firstFailure := ⟨[4, 0, 0], by decide, by decide⟩
  have hsecond : @RoundTrips fixturePostcard secondFailure := ⟨[4, 1, 0], by decide, by decide⟩
  refine @durable_log_refines fixturePostcard mixedOps ?_
  simp [mixedOps, LogOp.entries, hfirst, hsecond]

end Zequencer
