/-
# What reading the rows returns

Reading leaves out the rows whose iteration fails, without a trace, and stops at the first row
that does not decode.  So it is free of gaps exactly where no row fails, and it reports a
corrupt row exactly where the row is long enough to hold the schema version: a shorter one is
split past its end.
-/
import Zequencer.Log.Durable

namespace Zequencer

section Reading

variable [Postcard]

/-! ### Rows that hold entries -/

/-- The rows are those of these entries, position by position, and each decodes to its
entry. -/
def Stores (db : Database) (entries : Log) : Prop :=
  db.rows.map (fun row => (row.1, decode row.2)) =
    (entries.readFrom 0).map fun e => (e.1, some (.ok e.2))

instance (db : Database) (entries : Log) : Decidable (Stores db entries) :=
  inferInstanceAs (Decidable (db.rows.map (fun row => (row.1, decode row.2)) =
    (entries.readFrom 0).map fun e => (e.1, some (.ok e.2))))

omit [Postcard] in
lemma Log.readFrom_eq_filter (log : Log) (cursor : ℕ) :
    log.readFrom cursor = (log.readFrom 0).filter fun e => cursor ≤ e.1 := by
  obtain ⟨start, hstart⟩ : ∃ start, start = min cursor log.length := ⟨_, rfl⟩
  have hall : log.readFrom 0 = ((log.take start).zipIdx.map fun e => (e.2, e.1)) ++
      (log.drop start).zipIdx.map fun e => (start + e.2, e.1) := by
    have hlen : (log.take start).length = start := by
      rw [List.length_take, hstart]
      omega
    rw [Log.readFrom, Nat.zero_min, List.drop_zero]
    conv_lhs => rw [← List.take_append_drop start log]
    rw [List.zipIdx_append, List.map_append, hlen, Nat.zero_add,
      List.zipIdx_eq_map_add (l := log.drop start), List.map_map]
    simp only [Nat.zero_add, Function.comp_def]
  have hbelow : ((log.take start).zipIdx.map fun e => (e.2, e.1)).filter
      (fun e => cursor ≤ e.1) = [] := by
    rw [List.filter_eq_nil_iff]
    intro e he
    obtain ⟨⟨entry, i⟩, hi, rfl⟩ := List.mem_map.mp he
    have hlt := List.snd_lt_of_mem_zipIdx hi
    rw [List.length_take] at hlt
    simp only [decide_eq_true_eq]
    omega
  rw [hall, List.filter_append, hbelow, List.nil_append, Log.readFrom, ← hstart, eq_comm,
    List.filter_eq_self]
  intro e he
  obtain ⟨⟨entry, i⟩, hi, rfl⟩ := List.mem_map.mp he
  have hlt := List.snd_lt_of_mem_zipIdx hi
  rw [List.length_drop] at hlt
  simp only [decide_eq_true_eq]
  omega

omit [Postcard] in
lemma filter_key {β γ : Type*} (s : ℕ → Bool) (f : β → γ) (l : List (ℕ × β)) :
    (l.filter fun x => s x.1).map (fun x => (x.1, f x.2)) =
      (l.map fun x => (x.1, f x.2)).filter fun x => s x.1 := by
  rw [List.filter_map]
  rfl

namespace RedbLog

lemma collect_of_decode {rows : List (ℕ × List UInt8)} {out : List (ℕ × Entry)}
    (h : rows.map (fun row => (row.1, decode row.2)) = out.map fun e => (e.1, some (.ok e.2))) :
    collect rows = some (.ok out) := by
  induction rows generalizing out with
  | nil =>
    obtain rfl : out = [] := by simpa using h.symm
    rfl
  | cons row rows ih =>
    cases out with
    | nil => simp at h
    | cons e out =>
      rw [List.map_cons, List.map_cons] at h
      obtain ⟨hhead, htail⟩ := List.cons.inj h
      obtain ⟨hpos, hdecode⟩ := Prod.mk.inj hhead
      rw [collect, hdecode]
      simp only [ih htail, Option.bind_eq_bind, Option.bind_some]
      rw [hpos]
      rfl

/-- What a read returns whose transaction does not fail: the entries whose rows do not. -/
lemma readFrom_of_stores {log : RedbLog} {entries : Log} (h : Stores log.db entries) (cursor : ℕ)
    {faults : ReadFaults} (hread : faults.beginRead = none) (htable : faults.openTable = none)
    (hrange : faults.range = none) :
    log.readFrom cursor faults =
      some (.ok ((entries.readFrom cursor).filter fun e => (faults.row e.1).isNone)) := by
  rw [readFrom, hread, htable]
  cases hdb : log.db with
  | none =>
    rw [hdb] at h
    have hnil : entries.readFrom 0 = [] := by simpa [Database.rows] using h.symm
    rw [Log.readFrom_eq_filter, hnil]
    rfl
  | some table =>
    rw [hdb] at h
    simp only [attempt, Database.openTable, hrange]
    refine collect_of_decode ?_
    have hstores : table.entries.map (fun row => (row.1, decode row.2)) =
        (entries.readFrom 0).map fun e => (e.1, some (.ok e.2)) := h
    rw [Log.readFrom_eq_filter, SortedMap.range,
      filter_key (fun pos => (faults.row pos).isNone) decode,
      filter_key (fun pos => decide (cursor ≤ pos)) decode, hstores,
      filter_key (fun pos => (faults.row pos).isNone) fun e => (some (.ok e) : Option (Except _ _)),
      filter_key (fun pos => decide (cursor ≤ pos)) fun e => (some (.ok e) : Option (Except _ _))]

/-- A read either fails or returns these entries. -/
def NoGap (entries : List (ℕ × Entry)) (result : Option (Except LogError (List (ℕ × Entry)))) :
    Prop :=
  (∃ e, result = some (.error e)) ∨ result = some (.ok entries)

/-- **When reading is free of gaps.**  Over what the appends write, a read returns an error or
all entries from the cursor on, exactly where its transaction fails or no row from the cursor
on does. -/
theorem read_without_gap_iff (log : RedbLog) (entries : Log) (h : Stores log.db entries)
    (cursor : ℕ) (faults : ReadFaults) :
    NoGap (entries.readFrom cursor) (log.readFrom cursor faults) ↔
      faults.beginRead ≠ none ∨ faults.openTable ≠ none ∨ faults.range ≠ none ∨
        ∀ pos, cursor ≤ pos → pos < entries.length → faults.row pos = none := by
  have hempty : log.db = none → entries = [] := by
    intro hdb
    have hnil : (entries.readFrom 0).length = 0 := by
      rw [Stores, hdb] at h
      simpa [Database.rows] using (congrArg List.length h).symm
    rw [Log.length_readFrom] at hnil
    exact List.eq_nil_of_length_eq_zero hnil
  by_cases hread : faults.beginRead = none
  swap
  · obtain ⟨text, htext⟩ := Option.ne_none_iff_exists'.mp hread
    exact iff_of_true (Or.inl ⟨.encode text, by rw [readFrom, htext]; rfl⟩) (Or.inl hread)
  by_cases htable : faults.openTable = none
  swap
  · obtain ⟨text, htext⟩ := Option.ne_none_iff_exists'.mp htable
    exact iff_of_true (Or.inl ⟨.encode text, by rw [readFrom, hread, htext]; rfl⟩)
      (Or.inr (Or.inl htable))
  by_cases hrange : faults.range = none
  swap
  · obtain ⟨text, htext⟩ := Option.ne_none_iff_exists'.mp hrange
    refine iff_of_true ?_ (Or.inr (Or.inr (Or.inl hrange)))
    cases hdb : log.db with
    | none =>
      -- no table yet, so no range either
      refine Or.inr ?_
      rw [readFrom, hread, htable, hdb, hempty hdb, Log.readFrom_eq_nil (Nat.zero_le cursor)]
      rfl
    | some table => exact Or.inl ⟨.encode text, by rw [readFrom, hread, htable, hdb, htext]; rfl⟩
  rw [readFrom_of_stores h cursor hread htable hrange]
  constructor
  · rintro (⟨e, he⟩ | hall)
    · exact absurd (Option.some.inj he) (by simp)
    · refine Or.inr (Or.inr (Or.inr fun pos hle hlt => ?_))
      rw [Option.some.injEq, Except.ok.injEq, List.filter_eq_self] at hall
      have hmem : (pos, entries[pos]) ∈ entries.readFrom cursor :=
        Log.mem_readFrom.mpr ⟨hle, List.getElem?_eq_getElem hlt⟩
      exact Option.isNone_iff_eq_none.mp (hall _ hmem)
  · rintro (hfault | hfault | hfault | hrows)
    · exact absurd hread hfault
    · exact absurd htable hfault
    · exact absurd hrange hfault
    · refine Or.inr (congrArg (fun l => some (Except.ok l)) (List.filter_eq_self.mpr ?_))
      intro e he
      obtain ⟨hle, hget⟩ := Log.mem_readFrom.mp he
      exact Option.isNone_iff_eq_none.mpr
        (hrows e.1 hle (List.getElem?_eq_some_iff.mp hget).1)

omit [Postcard] in
/-- A log of the two fixtures. -/
def twoRows : RedbLog where
  db := some ((SortedMap.empty.insert 0 [1, 0, 4, 0, 0]).insert 1 [1, 0, 4, 1, 0])
  head := 2
  doorbell := 2

omit [Postcard] in
/-- Every row fails to be read. -/
def everyRowFails : ReadFaults := { row := fun _ => some "I/O error" }

omit [Postcard] in
theorem read_without_gap_iff_twoRows :
    NoGap (Log.readFrom [firstFailure, secondFailure] 1)
        (@readFrom fixturePostcard twoRows 1 everyRowFails) ↔
      everyRowFails.beginRead ≠ none ∨ everyRowFails.openTable ≠ none ∨
        everyRowFails.range ≠ none ∨ ∀ pos, 1 ≤ pos → pos < 2 → everyRowFails.row pos = none :=
  @read_without_gap_iff fixturePostcard twoRows [firstFailure, secondFailure] (by decide +kernel) 1
    everyRowFails

omit [Postcard] in
/-- The first row fails, and the second is returned as if it were all there is. -/
theorem read_without_gap_twoRows :
    @readFrom fixturePostcard twoRows 0
        { row := fun pos => if pos = 0 then some "I/O error" else none } =
      some (.ok [(1, secondFailure)]) ∧
    ¬ NoGap (Log.readFrom [firstFailure, secondFailure] 0)
      (@readFrom fixturePostcard twoRows 0
        { row := fun pos => if pos = 0 then some "I/O error" else none }) := by
  have hread : @readFrom fixturePostcard twoRows 0
        { row := fun pos => if pos = 0 then some "I/O error" else none } =
      some (.ok [(1, secondFailure)]) := by
    decide +kernel
  refine ⟨hread, ?_⟩
  rw [hread]
  rintro (⟨e, he⟩ | hall)
  · exact absurd (Option.some.inj he) (by simp)
  · exact absurd hall (by decide +kernel)

/-! ### Corrupt rows -/

/-- The entry a row holds: after the schema version, a serialised entry. -/
def stored? (bytes : List UInt8) : Option Entry :=
  if bytes.take 2 = leBytes 2 SCHEMA_VERSION then Postcard.fromBytes (bytes.drop 2) else none

/-- The first row that holds no entry. -/
def corrupt? (rows : List (ℕ × List UInt8)) : Option (ℕ × List UInt8) :=
  rows.find? fun row => stored? row.2 = none

/-- What is to be said of these rows: the first that holds no entry, or all the entries. -/
def report (rows : List (ℕ × List UInt8)) : Except LogError (List (ℕ × Entry)) :=
  match corrupt? rows with
  | some row => .error (.decode row.1)
  | none => .ok (rows.filterMap fun row => (stored? row.2).map fun entry => (row.1, entry))

lemma stored?_of_length_lt {bytes : List UInt8} (h : bytes.length < 2) : stored? bytes = none := by
  rw [stored?, if_neg]
  intro heq
  have hlen := congrArg List.length heq
  rw [List.length_take, length_leBytes] at hlen
  omega

lemma decode_of_le_length {bytes : List UInt8} (h : 2 ≤ bytes.length) :
    decode bytes = some ((stored? bytes).elim (.error ()) .ok) := by
  have hlen : (bytes.take 2).length = 2 := by rw [List.length_take]; omega
  have hver : leValue (bytes.take 2) = SCHEMA_VERSION ↔
      bytes.take 2 = leBytes 2 SCHEMA_VERSION := by
    constructor
    · intro heq
      have hback := leBytes_leValue (bytes.take 2)
      rw [hlen, heq] at hback
      exact hback.symm
    · intro heq
      rw [heq, leValue_leBytes]
      rfl
  rw [decode, if_neg (not_lt.mpr h), stored?]
  dsimp only
  by_cases hv : bytes.take 2 = leBytes 2 SCHEMA_VERSION
  · rw [if_pos hv, if_neg (not_not.mpr (hver.mpr hv))]
    cases Postcard.fromBytes (bytes.drop 2) with
    | none => rfl
    | some entry => rfl
  · rw [if_neg hv, if_pos (mt hver.mp hv)]
    rfl

lemma decode_of_length_lt {bytes : List UInt8} (h : bytes.length < 2) : decode bytes = none := by
  rw [decode, if_pos h]

/-- Collecting reports the rows, unless the first that holds no entry cannot be split. -/
lemma collect_eq (rows : List (ℕ × List UInt8)) :
    collect rows =
      if ∀ row ∈ corrupt? rows, 2 ≤ row.2.length then some (report rows) else none := by
  induction rows with
  | nil => rfl
  | cons row rows ih =>
    obtain ⟨pos, bytes⟩ := row
    cases hstored : stored? bytes with
    | some entry =>
      have hlen : 2 ≤ bytes.length := by
        by_contra hlt
        simp [stored?_of_length_lt (not_le.mp hlt)] at hstored
      have hfirst : corrupt? ((pos, bytes) :: rows) = corrupt? rows :=
        List.find?_cons_of_neg (by simp [hstored])
      have hreport : report ((pos, bytes) :: rows) =
          (report rows).map fun out => (pos, entry) :: out := by
        rw [report, report, hfirst]
        cases corrupt? rows with
        | some row => rfl
        | none => simp [hstored, Except.map]
      rw [collect, decode_of_le_length hlen, hstored, hfirst, hreport, ih]
      split_ifs with hall
      · rfl
      · rfl
    | none =>
      have hfirst : corrupt? ((pos, bytes) :: rows) = some (pos, bytes) :=
        List.find?_cons_of_pos (by simp [hstored])
      rw [hfirst, report, hfirst, collect]
      by_cases hlen : 2 ≤ bytes.length
      · rw [decode_of_le_length hlen, hstored, if_pos (by simpa using hlen)]
        rfl
      · rw [decode_of_length_lt (not_le.mp hlen), if_neg (by simpa using hlen)]
        rfl

/-- The rows from a position on. -/
def rowsFrom (log : RedbLog) (cursor : ℕ) : List (ℕ × List UInt8) :=
  log.db.elim [] fun table => table.range cursor

lemma readFrom_eq_collect (log : RedbLog) (cursor : ℕ) :
    log.readFrom cursor {} = collect (log.rowsFrom cursor) := by
  rw [readFrom, rowsFrom]
  cases log.db with
  | none => rfl
  | some table =>
    simp only [attempt, Database.openTable, Option.elim_some, Option.isNone_none]
    rw [List.filter_true]

/-- **When corrupt rows are reported.**  `decode` is right about a byte string exactly when
that is long enough for the schema version, and panics otherwise.  A read reports the lowest
row from the cursor on that holds no entry, or returns all entries if there is none, exactly
when that row, if there is one, is long enough. -/
theorem corrupt_rows_reported_iff :
    (∀ bytes, decode bytes = some ((stored? bytes).elim (.error ()) .ok) ↔ 2 ≤ bytes.length) ∧
    ∀ (log : RedbLog) (cursor : ℕ),
      log.readFrom cursor {} = some (report (log.rowsFrom cursor)) ↔
        ∀ row ∈ corrupt? (log.rowsFrom cursor), 2 ≤ row.2.length := by
  constructor
  · intro bytes
    constructor
    · intro h
      by_contra hlen
      simp [decode_of_length_lt (not_le.mp hlen)] at h
    · exact decode_of_le_length
  · intro log cursor
    rw [readFrom_eq_collect, collect_eq]
    split_ifs with hall
    · exact iff_of_true rfl hall
    · exact iff_of_false (by simp) hall

omit [Postcard] in
/-- A row of one byte, which is not even half a schema version. -/
theorem truncatedRow_not_reported :
    @readFrom fixturePostcard ⟨some (SortedMap.empty.insert 0 [1]), 1, 1⟩ 0 {} = none ∧
      @decode fixturePostcard [1] = none ∧
      @report fixturePostcard [(0, [1])] = .error (.decode 0) := by
  decide +kernel

end RedbLog

end Reading

end Zequencer
