/-
# The log on disk only grows

A database file is opened, appended to, closed and opened again, and any call of redb may
fail.  As long as opening recovers the head from the table, every append writes past all rows
there are: rows are only added.  Opening takes any failure to open the table for a table that
does not exist, and the rows are then written over from position 0.
-/
import Zequencer.Source.LogStores

namespace Zequencer

/-! ### Rows -/

/-- The rows, in the order of their positions. -/
def Database.rows (db : Database) : List (ℕ × List UInt8) := db.elim [] SortedMap.entries

/-- One past the last key, `0` if there is none. -/
def Database.next (db : Database) : ℕ := (db.bind SortedMap.lastKey?).elim 0 fun k => k + 1

lemma Database.next_of_rows_eq_nil {db : Database} (h : db.rows = []) : db.next = 0 := by
  cases db with
  | none => rfl
  | some table =>
    have hnil : table.entries = [] := h
    simp [Database.next, SortedMap.lastKey?, hnil]

lemma Database.next_of_rows_eq_concat {db : Database} {rows : List (ℕ × List UInt8)}
    {row : ℕ × List UInt8} (h : db.rows = rows ++ [row]) : db.next = row.1 + 1 := by
  cases db with
  | none => simp [Database.rows] at h
  | some table =>
    have hrows : table.entries = rows ++ [row] := h
    simp [Database.next, SortedMap.lastKey?, hrows]

lemma Database.lt_next {db : Database} {row : ℕ × List UInt8} (h : row ∈ db.rows) :
    row.1 < db.next := by
  cases db with
  | none => simp [Database.rows] at h
  | some table =>
    cases hlast : table.lastKey? with
    | none =>
      have hnil : table.entries = [] := by simpa [SortedMap.lastKey?] using hlast
      exact absurd (hnil ▸ h : row ∈ []) List.not_mem_nil
    | some k =>
      have hle : row.1 ≤ k := SortedMap.le_of_lastKey? hlast h
      have hnext : Database.next (some table) = k + 1 := by simp [Database.next, hlast]
      omega

/-! ### Calls that fail -/

lemma bind_eq_ok {ε α β : Type} {x : Except ε α} {f : α → Except ε β} {b : β} :
    (x >>= f) = .ok b ↔ ∃ a, x = .ok a ∧ f a = .ok b := by
  cases x with
  | error e => simp [bind, Except.bind]
  | ok a => simp [bind, Except.bind]

lemma attempt_eq_ok {fault : Option String} {u : Unit} : attempt fault = .ok u ↔ fault = none := by
  cases fault with
  | none => simp [attempt]
  | some text => simp [attempt]

section Write

variable [Postcard]

/-- What the rows of these entries have to be, from a position on. -/
def encoded (pos : ℕ) (entries : List Entry) : List (ℕ × Except LogError (List UInt8)) :=
  (entries.zipIdx pos).map fun e => (e.2, encode e.1)

/-- The rows hold exactly these entries, from a position on. -/
def Encodes (rows : List (ℕ × List UInt8)) (pos : ℕ) (entries : List Entry) : Prop :=
  rows.map (fun row => (row.1, Except.ok row.2)) = encoded pos entries

lemma Encodes.cons_iff {rows : List (ℕ × List UInt8)} {pos : ℕ} {entry : Entry}
    {entries : List Entry} {bytes : List UInt8} (h : encode entry = .ok bytes) :
    Encodes ((pos, bytes) :: rows) pos (entry :: entries) ↔ Encodes rows (pos + 1) entries := by
  simp [Encodes, encoded, h]

lemma Encodes.length_eq {rows : List (ℕ × List UInt8)} {pos : ℕ} {entries : List Entry}
    (h : Encodes rows pos entries) : rows.length = entries.length := by
  simpa [encoded] using congrArg List.length h

lemma Encodes.keys_eq {rows : List (ℕ × List UInt8)} {pos : ℕ} {entries : List Entry}
    (h : Encodes rows pos entries) : rows.map Prod.fst = List.range' pos entries.length := by
  have hkeys := congrArg (List.map Prod.fst) h
  rw [List.map_map, encoded, List.map_map] at hkeys
  exact hkeys.trans (List.zipIdx_map_snd pos entries)

lemma Encodes.mem {rows : List (ℕ × List UInt8)} {pos i : ℕ} {entries : List Entry} {entry : Entry}
    (h : Encodes rows pos entries) (hi : entries[i]? = some entry) :
    ∃ bytes, encode entry = .ok bytes ∧ (pos + i, bytes) ∈ rows := by
  have hmem : (pos + i, encode entry) ∈ encoded pos entries := by
    rw [encoded, List.mem_map]
    refine ⟨(entry, pos + i), List.mk_mem_zipIdx_iff_le_and_getElem?_sub.mpr ?_, rfl⟩
    exact ⟨Nat.le_add_right pos i, by rwa [Nat.add_sub_cancel_left]⟩
  rw [← h, List.mem_map] at hmem
  obtain ⟨⟨k, bytes⟩, hrow, heq⟩ := hmem
  obtain ⟨rfl, hbytes⟩ := Prod.mk.inj heq
  exact ⟨bytes, hbytes.symm, hrow⟩

lemma Database.next_of_encodes {db : Database} {old rows : List (ℕ × List UInt8)} {pos : ℕ}
    {entries : List Entry} (hdb : db.rows = old ++ rows) (h : Encodes rows pos entries)
    (hne : entries ≠ []) : db.next = pos + entries.length := by
  have hlen := h.length_eq
  have hrows : rows ≠ [] := by
    intro hnil
    rw [hnil, List.length_nil] at hlen
    exact hne (List.eq_nil_of_length_eq_zero hlen.symm)
  obtain ⟨init, last, rfl⟩ := (List.eq_nil_or_concat rows).resolve_left hrows
  rw [List.length_concat] at hlen
  have hkey : last.1 = pos + init.length := by
    have hkeys := congrArg (fun l => l[init.length]?) h.keys_eq
    simpa [← hlen, List.getElem?_range'] using hkeys
  have hall : db.rows = (old ++ init) ++ [last] := by
    rw [hdb, List.concat_eq_append, List.append_assoc]
  rw [Database.next_of_rows_eq_concat hall]
  omega

/-! ### One append -/

namespace RedbLog

lemma appendBatch_of_error {log : RedbLog} {entries : List Entry} {faults : WriteFaults}
    {e : LogError} (h : (log.appendBatch entries faults).2 = .error e) :
    (log.appendBatch entries faults).1 = log := by
  rw [appendBatch] at h ⊢
  split_ifs at h ⊢ with hempty
  · rfl
  · cases htx : log.transact entries faults with
    | error e => rfl
    | ok r => simp [htx] at h

lemma insertAll_eq_ok {fault : ℕ → Option String} {pos pos' : ℕ} {table table' : Table}
    {entries : List Entry} (hpos : ∀ row ∈ table.entries, row.1 < pos)
    (h : insertAll fault pos table entries = .ok (pos', table')) :
    pos' = pos + entries.length ∧
      ∃ rows, table'.entries = table.entries ++ rows ∧ Encodes rows pos entries := by
  induction entries generalizing pos table with
  | nil =>
    obtain ⟨rfl, rfl⟩ : pos = pos' ∧ table = table' := by simpa [insertAll] using h
    exact ⟨rfl, [], (List.append_nil _).symm, rfl⟩
  | cons entry entries ih =>
    rw [insertAll, bind_eq_ok] at h
    obtain ⟨bytes, hbytes, h⟩ := h
    rw [bind_eq_ok] at h
    obtain ⟨-, -, h⟩ := h
    have hinsert := SortedMap.entries_insert hpos bytes
    have hnext : ∀ row ∈ (table.insert pos bytes).entries, row.1 < pos + 1 := by
      intro row hrow
      rw [hinsert, List.mem_append, List.mem_singleton] at hrow
      rcases hrow with hrow | rfl
      · exact (hpos row hrow).trans (Nat.lt_succ_self pos)
      · exact Nat.lt_succ_self pos
    obtain ⟨hpos', rows, hrows, hencodes⟩ := ih hnext h
    refine ⟨by rw [hpos', List.length_cons]; omega, (pos, bytes) :: rows, ?_, ?_⟩
    · rw [hrows, hinsert, List.append_assoc, List.singleton_append]
    · exact (Encodes.cons_iff hbytes).mpr hencodes

/-- The head is one past the last row. -/
def Synced (log : RedbLog) : Prop := log.head = log.db.next

lemma transact_eq_ok {log : RedbLog} (hlog : log.Synced) {entries : List Entry}
    {faults : WriteFaults} {pos : ℕ} {table : Table}
    (h : log.transact entries faults = .ok (pos, table)) :
    pos = log.head + entries.length ∧
      ∃ rows, table.entries = log.db.rows ++ rows ∧ Encodes rows log.head entries := by
  rw [transact, bind_eq_ok] at h
  obtain ⟨-, -, h⟩ := h
  rw [bind_eq_ok] at h
  obtain ⟨-, -, h⟩ := h
  rw [bind_eq_ok] at h
  obtain ⟨⟨pos', table'⟩, hinsert, h⟩ := h
  rw [bind_eq_ok] at h
  obtain ⟨-, -, h⟩ := h
  obtain ⟨rfl, rfl⟩ : pos' = pos ∧ table' = table := by simpa [pure, Except.pure] using h
  have hold : (log.db.getD .empty).entries = log.db.rows := by
    cases log.db with
    | none => rfl
    | some table => rfl
  rw [← hold]
  refine insertAll_eq_ok (fun row hrow => ?_) hinsert
  rw [hold] at hrow
  exact hlog ▸ Database.lt_next hrow

/-- An append fails and changes nothing, or adds the rows of its entries at the head. -/
lemma appendBatch_cases {log : RedbLog} (hlog : log.Synced) (entries : List Entry)
    (faults : WriteFaults) :
    (∃ e, log.appendBatch entries faults = (log, .error e)) ∨
      ∃ log' rows, log.appendBatch entries faults =
          (log', .ok (log.head + entries.length - 1)) ∧ entries ≠ [] ∧
        log'.db.rows = log.db.rows ++ rows ∧ Encodes rows log.head entries ∧
        log'.head = log.head + entries.length ∧ log'.Synced := by
  rw [appendBatch]
  split_ifs with hempty
  · exact Or.inl ⟨_, rfl⟩
  · cases h : log.transact entries faults with
    | error e => exact Or.inl ⟨e, rfl⟩
    | ok r =>
      obtain ⟨pos, table⟩ := r
      obtain ⟨hpos, rows, hrows, hencodes⟩ := transact_eq_ok hlog h
      have hne : entries ≠ [] := by simpa using hempty
      have hdb : Database.rows (some table) = log.db.rows ++ rows := hrows
      have hnext := Database.next_of_encodes hdb hencodes hne
      exact Or.inr ⟨⟨some table, pos, pos⟩, rows, by rw [hpos], hne, hrows, hencodes, hpos,
        hpos.trans hnext.symm⟩

omit [Postcard] in
/-- The head is recovered from a table that opens, and where there are no rows. -/
lemma recoverHead_eq_ok {db : Database} {faults : OpenFaults} {head : ℕ}
    (h : recoverHead db faults = .ok head) (htable : faults.openTable = none ∨ db.rows = []) :
    head = db.next := by
  rw [recoverHead, bind_eq_ok] at h
  obtain ⟨-, -, h⟩ := h
  cases db with
  | none =>
    have hfail : ∃ e, Database.openTable none faults.openTable = .error e := by
      cases faults.openTable with
      | none => exact ⟨_, rfl⟩
      | some text => exact ⟨_, rfl⟩
    obtain ⟨e, he⟩ := hfail
    rw [he] at h
    exact (Except.ok.inj h).symm
  | some table =>
    cases hfault : faults.openTable with
    | none =>
      rw [hfault] at h
      simp only [Database.openTable, bind_eq_ok] at h
      obtain ⟨-, -, h⟩ := h
      exact (Except.ok.inj h).symm
    | some text =>
      rw [hfault] at h
      rw [Database.next_of_rows_eq_nil (htable.resolve_left (by simp [hfault]))]
      exact (Except.ok.inj h).symm

omit [Postcard] in
lemma openAt_eq_ok {db : Database} {faults : OpenFaults} {log : RedbLog}
    (h : openAt db faults = .ok log) :
    faults.create = none ∧ faults.beginRead = none ∧ log.db = db ∧
      recoverHead db faults = .ok log.head := by
  rw [openAt, bind_eq_ok] at h
  obtain ⟨_, hcreate, h⟩ := h
  rw [bind_eq_ok] at h
  obtain ⟨head, hhead, h⟩ := h
  obtain rfl : (⟨db, head, head⟩ : RedbLog) = log := Except.ok.inj h
  have hread := hhead
  rw [recoverHead, bind_eq_ok] at hread
  obtain ⟨_, hread, -⟩ := hread
  exact ⟨attempt_eq_ok.mp hcreate, attempt_eq_ok.mp hread, rfl, hhead⟩

omit [Postcard] in
/-- Where the table does not open, the log is opened at position 0. -/
lemma openAt_of_openTable_fault {db : Database} {faults : OpenFaults}
    (hcreate : faults.create = none) (hread : faults.beginRead = none)
    (htable : faults.openTable ≠ none) : openAt db faults = .ok ⟨db, 0, 0⟩ := by
  obtain ⟨text, htext⟩ := Option.ne_none_iff_exists'.mp htable
  simp [openAt, recoverHead, attempt, hcreate, hread, Database.openTable, htext, bind,
    Except.bind, pure, Except.pure]

end RedbLog

end Write

/-! ### Opened and closed -/

/-- The file between its users, or the log that has it open. -/
inductive Store where
  | closed (db : Database)
  | opened (log : RedbLog)

/-- A call on the file, with the faults it runs into. -/
inductive StoreEvent where
  | openAt (faults : OpenFaults)
  | append (entry : Entry) (faults : WriteFaults)
  | appendBatch (entries : List Entry) (faults : WriteFaults)
  | close

/-- What the caller gets. -/
inductive StoreAnswer where
  | opened
  | position (pos : ℕ)
  | failed (e : LogError)
  /-- Nothing: the log was closed, or there was nothing to close, append to or open. -/
  | nothing
deriving DecidableEq

/-- The entries an event is to write. -/
def StoreEvent.entries : StoreEvent → List Entry
  | .append entry _ => [entry]
  | .appendBatch entries _ => entries
  | _ => []

namespace Store

/-- What is on disk. -/
def db : Store → Database
  | .closed db => db
  | .opened log => log.db

/-- The store after an append, and the answer. -/
def appended : RedbLog × Except LogError ℕ → Store × StoreAnswer
  | (log, .ok pos) => (.opened log, .position pos)
  | (log, .error e) => (.opened log, .failed e)

variable [Postcard]

def step : Store → StoreEvent → Store × StoreAnswer
  | .closed db, .openAt faults =>
    match RedbLog.openAt db faults with
    | .ok log => (.opened log, .opened)
    | .error e => (.closed db, .failed e)
  | .opened log, .append entry faults => appended (log.append entry faults)
  | .opened log, .appendBatch entries faults => appended (log.appendBatch entries faults)
  | .opened log, .close => (.closed log.db, .nothing)
  | s, _ => (s, .nothing)

/-- The store after these events, on a file with this content. -/
def run (db : Database) (es : List StoreEvent) : Store :=
  es.foldl (fun s e => (s.step e).1) (.closed db)

lemma run_concat (db : Database) (es : List StoreEvent) (e : StoreEvent) :
    run db (es ++ [e]) = ((run db es).step e).1 := by
  rw [run, List.foldl_append]
  rfl

/-- What a step can be. -/
inductive Move (s : Store) (e : StoreEvent) : Store × StoreAnswer → Prop
  | opening (db : Database) (faults : OpenFaults) (log : RedbLog) (closed : s = .closed db)
      (event : e = .openAt faults) (ok : RedbLog.openAt db faults = .ok log) :
      Move s e (.opened log, .opened)
  | appending (log log' : RedbLog) (faults : WriteFaults) (pos : ℕ) (opened : s = .opened log)
      (ok : log.appendBatch e.entries faults = (log', .ok pos)) :
      Move s e (.opened log', .position pos)
  | failing (err : LogError) : Move s e (s, .failed err)
  | closing (log : RedbLog) (opened : s = .opened log) : Move s e (.closed log.db, .nothing)
  | idle : Move s e (s, .nothing)

lemma move_appended {log : RedbLog} {e : StoreEvent} (faults : WriteFaults) :
    Move (.opened log) e (appended (log.appendBatch e.entries faults)) := by
  cases h : log.appendBatch e.entries faults with
  | mk log' r =>
    cases r with
    | ok pos => exact .appending log log' faults pos rfl h
    | error err =>
      have hsame := RedbLog.appendBatch_of_error (e := err) (by rw [h])
      rw [h] at hsame
      exact hsame ▸ .failing err

lemma move_step (s : Store) (e : StoreEvent) : Move s e (s.step e) := by
  cases s with
  | closed db =>
    cases e with
    | openAt faults =>
      cases h : RedbLog.openAt db faults with
      | ok log => simpa [step, h] using Move.opening db faults log rfl rfl h
      | error err => simpa [step, h] using Move.failing err
    | append => exact .idle
    | appendBatch => exact .idle
    | close => exact .idle
  | opened log =>
    cases e with
    | openAt => exact .idle
    | append entry faults => exact move_appended (e := .append entry faults) faults
    | appendBatch entries faults => exact move_appended (e := .appendBatch entries faults) faults
    | close => exact .closing log rfl

/-- The head of an open log is one past the last row. -/
def Synced (s : Store) : Prop := ∀ log, s = .opened log → log.Synced

/-- Where the event opens a file with rows, the table opens too. -/
def TableOpens (s : Store) (e : StoreEvent) : Prop :=
  ∀ db faults, s = .closed db → e = .openAt faults → faults.create = none →
    faults.beginRead = none → db.rows ≠ [] → faults.openTable = none

variable {s : Store} {e : StoreEvent} {r : Store × StoreAnswer} {db : Database}
  {es es' : List StoreEvent}

/-! ### What one step keeps -/

lemma exists_rows_of_appending {log log' : RedbLog} {entries : List Entry} {faults : WriteFaults}
    {pos : ℕ} (hlog : log.Synced) (ok : log.appendBatch entries faults = (log', .ok pos)) :
    ∃ rows, log'.db.rows = log.db.rows ++ rows ∧ Encodes rows (pos + 1 - entries.length) entries ∧
      log'.Synced := by
  rcases RedbLog.appendBatch_cases hlog entries faults with
    ⟨err, herr⟩ | ⟨log'', rows, hok, hne, hrows, hencodes, -, hsynced⟩
  · rw [ok] at herr
    exact absurd (Prod.mk.inj herr).2 (by simp)
  · obtain ⟨rfl, hresult⟩ := Prod.mk.inj (ok.symm.trans hok)
    obtain rfl := Except.ok.inj hresult
    have hlen := List.length_pos_iff.mpr hne
    have hfirst : log.head + entries.length - 1 + 1 - entries.length = log.head := by omega
    refine ⟨rows, hrows, ?_, hsynced⟩
    rwa [hfirst]

/-- While the head is past all rows, a step only adds rows. -/
lemma Move.rows_mono (h : Move s e r) (hs : s.Synced) : s.db.rows <+: r.1.db.rows := by
  cases h with
  | opening db faults log closed event ok =>
    rw [closed, Store.db, Store.db, (RedbLog.openAt_eq_ok ok).2.2.1]
  | appending log log' faults pos opened ok =>
    obtain ⟨rows, hrows, -⟩ := exists_rows_of_appending (hs log opened) ok
    rw [opened]
    exact ⟨rows, hrows.symm⟩
  | failing => exact List.prefix_rfl
  | closing log opened => rw [opened, Store.db, Store.db]
  | idle => exact List.prefix_rfl

lemma Move.synced (h : Move s e r) (hs : s.Synced) (hopen : s.TableOpens e) : r.1.Synced := by
  cases h with
  | opening db faults log closed event ok =>
    rintro log' ⟨⟩
    obtain ⟨hcreate, hread, hdb, hhead⟩ := RedbLog.openAt_eq_ok ok
    have htable : faults.openTable = none ∨ db.rows = [] := by
      by_cases hrows : db.rows = []
      · exact Or.inr hrows
      · exact Or.inl (hopen db faults closed event hcreate hread hrows)
    rw [RedbLog.Synced, hdb]
    exact RedbLog.recoverHead_eq_ok hhead htable
  | appending log log' faults pos opened ok =>
    rintro log'' ⟨⟩
    obtain ⟨-, -, -, hsynced⟩ := exists_rows_of_appending (hs log opened) ok
    exact hsynced
  | failing => exact hs
  | closing log opened => rintro log' ⟨⟩
  | idle => exact hs

lemma Move.written (h : Move s e r) (hs : s.Synced) {pos i : ℕ} {entry : Entry}
    (hpos : r.2 = .position pos) (hi : e.entries[i]? = some entry) :
    ∃ bytes, encode entry = .ok bytes ∧
      (pos + 1 - e.entries.length + i, bytes) ∈ r.1.db.rows := by
  cases h with
  | appending log log' faults pos' opened ok =>
    obtain rfl : pos' = pos := StoreAnswer.position.inj hpos
    obtain ⟨rows, hrows, hencodes, -⟩ := exists_rows_of_appending (hs log opened) ok
    obtain ⟨bytes, hbytes, hmem⟩ := hencodes.mem hi
    refine ⟨bytes, hbytes, ?_⟩
    show _ ∈ log'.db.rows
    rw [hrows]
    exact List.mem_append_right _ hmem
  | opening => simp at hpos
  | failing => simp at hpos
  | closing => simp at hpos
  | idle => simp at hpos

lemma Move.eq_of_failed (h : Move s e r) {err : LogError} (herr : r.2 = .failed err) :
    r.1 = s := by
  cases h with
  | failing => rfl
  | opening => simp at herr
  | appending => simp at herr
  | closing => simp at herr
  | idle => simp at herr

lemma Move.exists_of_opened (h : Move s e r) (hopened : r.2 = .opened) :
    ∃ log, r.1 = .opened log := by
  cases h with
  | opening db faults log => exact ⟨log, rfl⟩
  | failing => simp at hopened
  | appending => simp at hopened
  | closing => simp at hopened
  | idle => simp at hopened

/-! ### Runs -/

/-- Along the run every file with rows that is opened has its table opened. -/
def TablesOpen (db : Database) (es : List StoreEvent) : Prop :=
  ∀ es' e, es' ++ [e] <+: es → (run db es').TableOpens e

lemma TablesOpen.of_prefix (h : TablesOpen db es) (hes : es' <+: es) : TablesOpen db es' :=
  fun es'' e hes'' => h es'' e (hes''.trans hes)

lemma synced_run (h : TablesOpen db es) : (run db es).Synced := by
  induction es using List.reverseRecOn with
  | nil => rintro log ⟨⟩
  | append_singleton es e ih =>
    rw [run_concat]
    exact (move_step _ e).synced (ih (h.of_prefix (List.prefix_append es [e])))
      (h es e List.prefix_rfl)

lemma rows_mono_run (h : TablesOpen db es) (hes : es' <+: es) :
    (run db es').db.rows <+: (run db es).db.rows := by
  obtain ⟨rest, rfl⟩ := hes
  induction rest using List.reverseRecOn with
  | nil => rw [List.append_nil]
  | append_singleton rest e ih =>
    rw [← List.append_assoc] at h ⊢
    have hinit := h.of_prefix (List.prefix_append (es' ++ rest) [e])
    rw [run_concat]
    exact (ih hinit).trans ((move_step _ e).rows_mono (synced_run hinit))

/-- The log is append-only along a run: what the answers promise is kept. -/
structure AppendOnly (db : Database) (es : List StoreEvent) : Prop where
  /-- What a successful append wrote is there, at its positions, ever after. -/
  durable : ∀ es' e es'' pos, es' ++ e :: es'' <+: es → ((run db es').step e).2 = .position pos →
    ∀ i entry, e.entries[i]? = some entry → ∃ bytes, encode entry = .ok bytes ∧
      (pos + 1 - e.entries.length + i, bytes) ∈ (run db (es' ++ e :: es'')).db.rows
  /-- What fails changes neither table nor head nor doorbell. -/
  failed : ∀ es' e err, es' ++ [e] <+: es → ((run db es').step e).2 = .failed err →
    ((run db es').step e).1 = run db es'
  /-- What opens has its head one past the table's last key. -/
  recovered : ∀ es' e, es' ++ [e] <+: es → ((run db es').step e).2 = .opened →
    ∃ log, ((run db es').step e).1 = .opened log ∧ log.head = log.db.next

/-- **When the log on disk is append-only.**  Whatever else fails, it is, exactly as long as no
file with rows is opened whose table does not open. -/
theorem append_only_iff (db : Database) (es : List StoreEvent) :
    AppendOnly db es ↔ TablesOpen db es := by
  constructor
  · intro h es' e hes db' faults hclosed hevent hcreate hread hrows
    by_contra htable
    have hopen : RedbLog.openAt db' faults = .ok ⟨db', 0, 0⟩ :=
      RedbLog.openAt_of_openTable_fault hcreate hread htable
    have hstep : (run db es').step e = (.opened ⟨db', 0, 0⟩, .opened) := by
      rw [hclosed, hevent, step, hopen]
    obtain ⟨log, hlog, hhead⟩ := h.recovered es' e hes (by rw [hstep])
    rw [hstep] at hlog
    obtain rfl := Store.opened.inj hlog
    obtain ⟨row, hrow⟩ := List.exists_mem_of_ne_nil _ hrows
    have hlt := Database.lt_next hrow
    simp only at hhead
    omega
  · intro h
    refine ⟨?durable, ?failed, ?recovered⟩
    case durable =>
      intro es' e es'' pos hes hpos i entry hi
      have hlater := h.of_prefix hes
      have hprefix : es' ++ [e] <+: es' ++ e :: es'' := ⟨es'', by simp⟩
      have hstays := rows_mono_run hlater hprefix
      rw [run_concat] at hstays
      have hsynced := synced_run (hlater.of_prefix (List.prefix_append es' (e :: es'')))
      obtain ⟨bytes, hbytes, hmem⟩ := (move_step _ e).written hsynced hpos hi
      exact ⟨bytes, hbytes, hstays.subset hmem⟩
    case failed => exact fun es' e err _ herr => (move_step _ e).eq_of_failed herr
    case recovered =>
      intro es' e hes hopened
      obtain ⟨log, hlog⟩ := (move_step _ e).exists_of_opened hopened
      have hsynced := synced_run (h.of_prefix hes)
      rw [run_concat] at hsynced
      exact ⟨log, hlog, hsynced log hlog⟩

/-- An entry is appended, the file closed, and opened again while its table does not open. -/
def reopenedBlind : List StoreEvent :=
  [.openAt {}, .append firstFailure {}, .close, .openAt { openTable := some "I/O error" },
    .append secondFailure {}]

omit [Postcard] in
/-- The second append takes the position of the first, and its row. -/
theorem append_only_reopenedBlind :
    (@run fixturePostcard none (reopenedBlind.take 2)).db.rows = [(0, [1, 0, 4, 0, 0])] ∧
      (@run fixturePostcard none reopenedBlind).db.rows = [(0, [1, 0, 4, 1, 0])] ∧
      ¬ @AppendOnly fixturePostcard none reopenedBlind := by
  have hrows : (@run fixturePostcard none reopenedBlind).db.rows = [(0, [1, 0, 4, 1, 0])] := by
    decide +kernel
  refine ⟨by decide +kernel, hrows, fun h => ?_⟩
  obtain ⟨bytes, hbytes, hmem⟩ := @AppendOnly.durable fixturePostcard none reopenedBlind h
    [.openAt {}] (.append firstFailure {}) (reopenedBlind.drop 2) 0 List.prefix_rfl
    (by decide +kernel) 0 firstFailure rfl
  have hfirst : @encode fixturePostcard firstFailure = .ok [1, 0, 4, 0, 0] := by decide +kernel
  obtain rfl := Except.ok.inj (hfirst.symm.trans hbytes)
  have hmem' : (0, [1, 0, 4, 0, 0]) ∈ (@run fixturePostcard none reopenedBlind).db.rows := hmem
  rw [hrows] at hmem'
  exact absurd hmem' (by decide)

end Store

end Zequencer
