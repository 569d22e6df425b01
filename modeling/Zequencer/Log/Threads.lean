/-
# What the log keeps for its threads

Positions are given once and rows stay, whatever fails, panics or crashes, as long as every file
with rows is opened with its table.  A reader needs no lock: it sees whole batches, all those
that were answered before, and no less than the head or the doorbell promised.
-/
import Zequencer.Log.Locking

namespace Zequencer

open Mutex

variable [Postcard] {m log : RedbLog} {call : BatchCall} {db db' : Database}

/-! ### What one call keeps -/

/-- Head and doorbell are one past the last row. -/
structure RedbLog.Settled (log : RedbLog) : Prop where
  synced : log.Synced
  doorbell : log.doorbell = log.head

/-- Where the file has rows and its table does not open, opening fails, too. -/
def OpensTable (faults : OpenFaults) (db : Database) : Prop :=
  faults.create = none → faults.beginRead = none → db.rows ≠ [] → faults.openTable = none

namespace RedbLog

lemma doorbell_appendCall (m : RedbLog) (call : BatchCall) : (m.appendCall call).1 = m ∨
    (m.appendCall call).1.doorbell = (m.appendCall call).1.head := by
  rw [appendCall, appendBatch]
  split_ifs with hempty
  · exact Or.inl rfl
  · cases m.transact call.entries call.faults with
    | error e => exact Or.inl rfl
    | ok r => exact Or.inr rfl

/-- A call fails and changes nothing, or it adds the rows of its entries at the head. -/
lemma Settled.appendCall (h : m.Settled) (call : BatchCall) :
    (∃ e, m.appendCall call = (m, .error e)) ∨
      ∃ m' rows, m.appendCall call = (m', .ok (m.head + call.entries.length - 1)) ∧
        call.entries ≠ [] ∧ m'.db.rows = m.db.rows ++ rows ∧ Encodes rows m.head call.entries ∧
        m.head < m'.head ∧ m'.Settled := by
  rcases appendBatch_cases h.synced call.entries call.faults with
    herror | ⟨m', rows, hok, hne, hrows, hencodes, hhead, hsynced⟩
  · exact Or.inl herror
  · have hlen := List.length_pos_iff.mpr hne
    refine Or.inr ⟨m', rows, hok, hne, hrows, hencodes, by omega, hsynced, ?_⟩
    have heq : m.appendCall call = (m', .ok (m.head + call.entries.length - 1)) := hok
    have hdoorbell := m.doorbell_appendCall call
    rw [heq] at hdoorbell
    rcases hdoorbell with hsame | hdoorbell
    · have hhead' : m'.head = m.head := congrArg RedbLog.head hsame
      omega
    · exact hdoorbell

lemma Settled.settled_appendCall (h : m.Settled) (call : BatchCall) :
    (m.appendCall call).1.Settled := by
  rcases h.appendCall call with ⟨e, heq⟩ | ⟨m', rows, heq, -, -, -, -, hsettled⟩
  · rwa [heq]
  · rwa [heq]

lemma Settled.rows_appendCall (h : m.Settled) (call : BatchCall) :
    m.db.rows <+: (m.appendCall call).1.db.rows := by
  rcases h.appendCall call with ⟨e, heq⟩ | ⟨m', rows, heq, -, hrows, -⟩
  · rw [heq]
  · rw [heq]
    exact ⟨rows, hrows.symm⟩

omit [Postcard] in
lemma db_of_openAt {faults : OpenFaults} (h : (openAt db faults).toOption = some m) : m.db = db := by
  cases hopen : openAt db faults with
  | error e => simp [hopen, Except.toOption] at h
  | ok log =>
    obtain rfl : log = m := by simpa [hopen, Except.toOption] using h
    exact (openAt_eq_ok hopen).2.2.1

omit [Postcard] in
lemma settled_of_openAt {faults : OpenFaults} (htable : OpensTable faults db)
    (h : (openAt db faults).toOption = some m) : m.Settled := by
  cases hopen : openAt db faults with
  | error e => simp [hopen, Except.toOption] at h
  | ok log =>
    obtain rfl : log = m := by simpa [hopen, Except.toOption] using h
    obtain ⟨hcreate, hread, hdb, hhead⟩ := openAt_eq_ok hopen
    have hopens : faults.openTable = none ∨ db.rows = [] := by
      by_cases hrows : db.rows = []
      · exact Or.inr hrows
      · exact Or.inl (htable hcreate hread hrows)
    refine ⟨?_, ?_⟩
    · rw [Synced, hdb]
      exact recoverHead_eq_ok hhead hopens
    · rw [openAt, bind_eq_ok] at hopen
      obtain ⟨-, -, hopen⟩ := hopen
      rw [bind_eq_ok] at hopen
      obtain ⟨head, -, hopen⟩ := hopen
      obtain rfl : (⟨db, head, head⟩ : RedbLog) = log := Except.ok.inj hopen
      rfl

/-- What is seen of a call: the doorbell follows the head, and the head the rows. -/
lemma Seen.bounds (hm : m.Settled) (h : Seen m call log) :
    log.doorbell ≤ log.head ∧ log.head ≤ log.db.next := by
  have hdoorbell := hm.doorbell
  have hhead : m.head = m.db.next := hm.synced
  have hle : m.head ≤ (m.appendCall call).1.head := by
    rcases hm.appendCall call with ⟨e, heq⟩ | ⟨m', rows, heq, -, -, -, hlt, -⟩
    · rw [heq]
    · rw [heq]
      exact hlt.le
  have hdoorbell' := (hm.settled_appendCall call).doorbell
  have hhead' : (m.appendCall call).1.head = (m.appendCall call).1.db.next :=
    (hm.settled_appendCall call).synced
  rcases h with rfl | rfl | rfl | rfl
  · exact ⟨hdoorbell.le, hhead.le⟩
  · exact ⟨hdoorbell.le, hle.trans hhead'.le⟩
  · exact ⟨hdoorbell.le.trans hle, hhead'.le⟩
  · exact ⟨hdoorbell'.le, hhead'.le⟩

end RedbLog

/-! ### Rows stay -/

/-- The rows hold these entries, the last of them at this position. -/
structure Stored (db : Database) (entries : List Entry) (pos : ℕ) : Prop where
  nonempty : entries ≠ []
  fits : entries.length ≤ pos + 1
  rows : ∀ i entry, entries[i]? = some entry → ∃ bytes, encode entry = .ok bytes ∧
    (pos + 1 - entries.length + i, bytes) ∈ db.rows

lemma Stored.mono {entries : List Entry} {pos : ℕ} (h : Stored db entries pos)
    (hrows : db.rows <+: db'.rows) : Stored db' entries pos where
  nonempty := h.nonempty
  fits := h.fits
  rows := by
    intro i entry hi
    obtain ⟨bytes, hbytes, hmem⟩ := h.rows i entry hi
    exact ⟨bytes, hbytes, hrows.subset hmem⟩

lemma Stored.lt_next {entries : List Entry} {pos : ℕ} (h : Stored db entries pos) :
    pos < db.next := by
  have hlen := List.length_pos_iff.mpr h.nonempty
  have hfits := h.fits
  obtain ⟨bytes, -, hmem⟩ := h.rows (entries.length - 1) entries[entries.length - 1]
    (List.getElem?_eq_getElem (by omega))
  have hlt := Database.lt_next hmem
  simp only at hlt
  omega

lemma RedbLog.Settled.stored (h : m.Settled) {m' : RedbLog} {pos : ℕ}
    (hok : m.appendCall call = (m', .ok pos)) :
    Stored m'.db call.entries pos ∧ m.db.next = pos + 1 - call.entries.length := by
  rcases h.appendCall call with ⟨e, heq⟩ | ⟨m'', rows, heq, hne, hrows, hencodes, -⟩
  · simp [heq] at hok
  · obtain ⟨rfl, hpos⟩ := Prod.mk.inj (heq.symm.trans hok)
    obtain rfl := Except.ok.inj hpos
    have hlen := List.length_pos_iff.mpr hne
    have hfirst : m.head + call.entries.length - 1 + 1 - call.entries.length = m.head := by omega
    refine ⟨⟨hne, by omega, fun i entry hi => ?_⟩, by rw [hfirst]; exact h.synced.symm⟩
    obtain ⟨bytes, hbytes, hmem⟩ := hencodes.mem hi
    rw [hfirst, hrows]
    exact ⟨bytes, hbytes, List.mem_append_right _ hmem⟩

section Threads

variable {ρ : Type*} [DecidableEq ρ] {es es' : List (RedbEvent ρ)}

/-- What is on disk. -/
def RedbWorld.file (w : RedbWorld ρ) : Database := w.process.left RedbLog.service

/-- Along the run every file with rows is opened with its table, or not at all. -/
def Reopens (db : Database) (es : List (RedbEvent ρ)) : Prop :=
  ∀ es' faults db', es' ++ [.start faults] <+: es →
    (RedbWorld.run db es').process = .down db' → OpensTable faults db'

lemma Reopens.along (h : Reopens db es) :
    Along RedbLog.service (Made es) OpensTable db es := by
  intro es' e hes
  cases e with
  | start faults => exact fun db' hdown => h es' faults db' hes hdown
  | call p call => exact ⟨p, hes.subset (by simp)⟩
  | _ => trivial

variable {calls : BatchCall → Prop}
  {history : List (Record BatchCall (Except LogError ℕ) OpenFaults ρ)}

omit [DecidableEq ρ] in
lemma settled_of_sequential (h : Sequential calls OpensTable db history (.inr m)) : m.Settled :=
  h.keeps (J := RedbLog.Settled) (fun _ call _ hm => hm.settled_appendCall call)
    (fun _ _ _ hopens hstart => RedbLog.settled_of_openAt hopens hstart) m rfl

omit [DecidableEq ρ] in
lemma rows_of_sequential (h : Sequential calls OpensTable db history (.inr m)) (call : BatchCall) :
    m.db.rows <+: (m.appendCall call).1.db.rows :=
  (settled_of_sequential h).rows_appendCall call

/-- The entries of a call that succeeded are stored at the positions it was told. -/
def Told (a : Answer BatchCall (Except LogError ℕ) ρ) (db : Database) : Prop :=
  ∀ pos, a.out = .ok pos → Stored db a.op.entries pos

/-- Where both calls succeeded, all positions of the first are below those of the second. -/
def Below (a b : Answer BatchCall (Except LogError ℕ) ρ) : Prop :=
  ∀ pos pos', a.out = .ok pos → b.out = .ok pos' → pos < pos' + 1 - b.op.entries.length

omit [DecidableEq ρ] in
lemma told_of_sequential (h : Sequential calls OpensTable db history (.inr m)) {m' : RedbLog}
    {a : Answer BatchCall (Except LogError ℕ) ρ} (heq : m.appendCall a.op = (m', a.out)) :
    Told a m'.db ∧ ∀ b, Told b m.db → Below b a := by
  have hsettled := settled_of_sequential h
  constructor
  · intro pos hpos
    rw [hpos] at heq
    exact (hsettled.stored heq).1
  · intro b hb pos pos' hpos hpos'
    rw [hpos'] at heq
    rw [← (hsettled.stored heq).2]
    exact (hb pos hpos).lt_next

omit [DecidableEq ρ] in
lemma bounds_of_placed {lock : Lock BatchCall AppendPoint ρ}
    (h : Placed RedbLog.service RedbLog.appendCall calls OpensTable db RedbLog.Underway history
      (.up log lock)) : log.doorbell ≤ log.head ∧ log.head ≤ log.db.next ∧
      (lock = .free → log.head = log.db.next ∧ log.doorbell = log.head) := by
  rcases lock with _ | ⟨p, call, point⟩ | _
  · have hsettled := settled_of_sequential h
    exact ⟨hsettled.doorbell.le, hsettled.synced.le, fun _ =>
      ⟨hsettled.synced, hsettled.doorbell⟩⟩
  · obtain ⟨m, hserial, -, hamid⟩ := h
    have hseen := hamid.at_.reached.seen hamid.at_.nonempty
    obtain ⟨hdoorbell, hhead⟩ := hseen.bounds (settled_of_sequential hserial)
    exact ⟨hdoorbell, hhead, nofun⟩
  · obtain ⟨m, call, point, hserial, -, hamid⟩ := h
    have hseen := hamid.at_.reached.seen hamid.at_.nonempty
    obtain ⟨hdoorbell, hhead⟩ := hseen.bounds (settled_of_sequential hserial)
    exact ⟨hdoorbell, hhead, nofun⟩

omit [DecidableEq ρ] in
lemma rows_advance : Advances ρ RedbLog.service RedbLog.appendCall calls OpensTable db
    fun db db' => db.rows <+: db'.rows where
  refl _ := List.prefix_rfl
  trans _ _ _ := List.IsPrefix.trans
  call _ _ call hserial _ := rows_of_sequential hserial call
  start _ _ _ _ hstart := RedbLog.db_of_openAt hstart

/-- What there is to see of the log never shrinks. -/
lemma rows_mono_threads (h : Reopens db es) (hes : es' <+: es) :
    (RedbWorld.run db es').file.rows <+: (RedbWorld.run db es).file.rows :=
  left_run RedbLog.service_meets rows_advance h.along hes

lemma answered_threads (h : Reopens db es) :
    (∀ a ∈ (RedbWorld.run db es).answered, Told a (RedbWorld.run db es).file) ∧
      (RedbWorld.run db es).answered.Pairwise Below :=
  answered_run RedbLog.service_meets rows_advance
    (fun _ _ _ _ hserial _ heq => told_of_sequential hserial heq)
    (fun _ _ _ hrows ha pos hpos => (ha pos hpos).mono hrows) h.along

lemma bounds_threads (h : Reopens db es) {lock : Lock BatchCall AppendPoint ρ}
    (hup : (RedbWorld.run db es).process = .up log lock) :
    log.doorbell ≤ log.head ∧ log.head ≤ log.db.next ∧
      (lock = .free → log.head = log.db.next ∧ log.doorbell = log.head) := by
  obtain ⟨history, -, hplaced⟩ := explained_run RedbLog.service_meets h.along
  have hprocess : (World.run RedbLog.service db es).process = .up log lock := hup
  rw [hprocess] at hplaced
  exact bounds_of_placed hplaced

/-- What is told of the log stays true. -/
structure KeepsAppends (db : Database) (es : List (RedbEvent ρ)) : Prop where
  /-- Rows stay. -/
  rows : ∀ es', es' <+: es → (RedbWorld.run db es').file.rows <+: (RedbWorld.run db es).file.rows
  told : ∀ a ∈ (RedbWorld.run db es).answered, Told a (RedbWorld.run db es).file
  below : (RedbWorld.run db es).answered.Pairwise Below
  /-- The doorbell follows the head, and the head the rows. -/
  bounds : ∀ log lock, (RedbWorld.run db es).process = .up log lock →
    log.doorbell ≤ log.head ∧ log.head ≤ log.db.next ∧
      (lock = .free → log.head = log.db.next ∧ log.doorbell = log.head)

/-- **Nothing is written over.**  However the statements of threads that append are interleaved,
whatever fails, panics or crashes, as long as every file with rows is opened with its table:
rows stay, the entries of an answered call are at the positions it was told, and these are past
all that were told before. -/
theorem appends_never_overwrite (db : Database) (es : List (RedbEvent ρ)) (h : Reopens db es) :
    KeepsAppends db es := by
  obtain ⟨htold, hbelow⟩ := answered_threads h
  exact ⟨fun es' hes => rows_mono_threads h hes, htold, hbelow, fun _ _ hup =>
    bounds_threads h hup⟩

lemma reopens_of_forall (h : ∀ faults, .start faults ∈ es → faults.openTable = none) :
    Reopens db es :=
  fun _ faults _ hes _ _ _ _ => h faults (hes.subset (by simp))

/-- Thread 1 waits for thread 0, and the process dies after its commit; nobody is told of the
positions 1 and 2. -/
def crashAfterCommit : List (RedbEvent ℕ) :=
  [.start {}, .call 0 ⟨[firstFailure], {}⟩, .call 1 ⟨[secondFailure, firstFailure], {}⟩] ++
    List.replicate 9 (.step 0) ++ [.call 1 ⟨[secondFailure, firstFailure], {}⟩] ++
    List.replicate 7 (.step 1) ++ [.crash, .start {}, .call 0 ⟨[secondFailure], {}⟩] ++
    List.replicate 9 (.step 0)

omit [Postcard] in
lemma reopens_crashAfterCommit : @Reopens fixturePostcard _ _ none crashAfterCommit := by
  refine @reopens_of_forall fixturePostcard _ _ _ _ fun faults hfaults => ?_
  obtain rfl : faults = {} := by simpa [crashAfterCommit] using hfaults
  rfl

omit [Postcard] in
theorem appends_never_overwrite_crashAfterCommit :
    (@RedbWorld.run fixturePostcard _ _ none crashAfterCommit).answered.map Answer.out =
        [.ok 0, .ok 3] ∧
      @KeepsAppends fixturePostcard _ _ none crashAfterCommit :=
  ⟨by decide +kernel, @appends_never_overwrite fixturePostcard _ _ none _ reopens_crashAfterCommit⟩

/-! ### What readers see -/

/-- The file holds exactly these entries. -/
structure HoldsFile (db : Database) (entries : Log) : Prop where
  rows : Encodes db.rows 0 entries
  readable : ∀ entry ∈ entries, RoundTrips entry

namespace HoldsFile

variable {entries entries' : Log}

omit [DecidableEq ρ] in
lemma new : HoldsFile none [] := ⟨rfl, by simp⟩

lemma holds (h : HoldsFile db entries) : Holds ⟨db, entries.length, 0⟩ entries :=
  ⟨h.rows, rfl, h.readable⟩

lemma stores (h : HoldsFile db entries) : Stores db entries := h.holds.stores

lemma next_eq (h : HoldsFile db entries) : db.next = entries.length := h.holds.next_eq

lemma append (h : HoldsFile db entries) {rows : List (ℕ × List UInt8)}
    (hrows : db'.rows = db.rows ++ rows) (hencodes : Encodes rows db.next call.entries)
    (hreadable : ∀ entry ∈ call.entries, RoundTrips entry) :
    HoldsFile db' (entries ++ call.entries) where
  rows := by
    rw [hrows]
    refine h.rows.append ?_
    rwa [Nat.zero_add, ← h.next_eq]
  readable := by
    intro entry hentry
    rcases List.mem_append.mp hentry with hentry | hentry
    · exact h.readable entry hentry
    · exact hreadable entry hentry

lemma prefix_of_rows (h : HoldsFile db entries) (h' : HoldsFile db' entries')
    (hrows : db.rows <+: db'.rows) : entries <+: entries' := by
  have hall : ∀ log : Log, ((log.readFrom 0).map fun e =>
      (e.1, (some (.ok e.2) : Option (Except Unit Entry)))).filterMap
        (fun e => e.2.bind Except.toOption) = log := by
    intro log
    rw [List.filterMap_map]
    simp [Log.readFrom, Function.comp_def, Except.toOption]
  have hdecoded := (hrows.map fun row => (row.1, decode row.2)).filterMap
    fun e => e.2.bind Except.toOption
  have hstores : db.rows.map (fun row => (row.1, decode row.2)) = _ := h.stores
  have hstores' : db'.rows.map (fun row => (row.1, decode row.2)) = _ := h'.stores
  rwa [hstores, hstores', hall, hall] at hdecoded

lemma getElem?_of_stored (h : HoldsFile db entries) {pos : ℕ} (hstored : Stored db call.entries pos)
    (hreadable : ∀ entry ∈ call.entries, RoundTrips entry) {i : ℕ} {entry : Entry}
    (hi : call.entries[i]? = some entry) :
    entries[pos + 1 - call.entries.length + i]? = some entry := by
  obtain ⟨bytes, hencode, hmem⟩ := hstored.rows i entry hi
  obtain ⟨bytes', hencode', hdecode⟩ := (hreadable entry (List.mem_of_getElem? hi)).decode_encode
  obtain rfl := Except.ok.inj (hencode.symm.trans hencode')
  have hrow := List.mem_map_of_mem (f := fun row : ℕ × List UInt8 => (row.1, decode row.2)) hmem
  have hstores : db.rows.map (fun row => (row.1, decode row.2)) = _ := h.stores
  rw [hstores] at hrow
  obtain ⟨⟨k, entry'⟩, hentry', heq⟩ := List.mem_map.mp hrow
  obtain ⟨rfl, hsame⟩ := Prod.mk.inj heq
  rw [hdecode] at hsame
  obtain rfl := Except.ok.inj (Option.some.inj hsame)
  exact (Log.mem_readFrom.mp hentry').2

end HoldsFile

/-- The file holds whole batches of calls that were made. -/
def HoldsBatches (calls : BatchCall → Prop) (db : Database) : Prop :=
  ∃ batches : List (List Entry), HoldsFile db batches.flatten ∧
    ∀ b ∈ batches, ∃ call, calls call ∧ call.entries = b

lemma HoldsBatches.appendCall (hm : m.Settled) (h : HoldsBatches calls m.db) (hcall : calls call)
    (hreadable : ∀ entry ∈ call.entries, RoundTrips entry) :
    HoldsBatches calls (m.appendCall call).1.db := by
  rcases hm.appendCall call with ⟨e, heq⟩ | ⟨m', rows, heq, -, hrows, hencodes, -⟩
  · rwa [heq]
  · rw [heq]
    obtain ⟨batches, hholds, hmade⟩ := h
    have hhead : m.head = m.db.next := hm.synced
    rw [hhead] at hencodes
    refine ⟨batches ++ [call.entries], ?_, fun b hb => ?_⟩
    · rw [List.flatten_append, List.flatten_singleton]
      exact hholds.append hrows hencodes hreadable
    · rcases List.mem_append.mp hb with hb | hb
      · exact hmade b hb
      · exact ⟨call, hcall, (List.mem_singleton.mp hb).symm⟩

/-- What the world shows of a log of these entries. -/
structure Shows (es : List (RedbEvent ρ)) (entries : Log) : Prop where
  /-- A reader sees them all. -/
  read : ∀ log lock, (RedbWorld.run none es).process = .up log lock → ∀ cursor,
    log.readFrom cursor {} = some (.ok (entries.readFrom cursor))
  /-- Neither the head nor the doorbell promises more. -/
  bounds : ∀ log lock, (RedbWorld.run none es).process = .up log lock →
    log.doorbell ≤ log.head ∧ log.head ≤ entries.length
  /-- Whoever was told of a position finds its entries there. -/
  told : ∀ a ∈ (RedbWorld.run none es).answered, ∀ pos, a.out = .ok pos →
    ∀ i entry, a.op.entries[i]? = some entry →
      entries[pos + 1 - a.op.entries.length + i]? = some entry
  /-- No batch is seen in part. -/
  whole : ∃ batches : List (List Entry), entries = batches.flatten ∧
    ∀ b ∈ batches, ∃ call, Made es call ∧ call.entries = b

lemma made_of_answered (h : Reopens db es) :
    ∀ a ∈ (RedbWorld.run db es).answered, Made es a.op :=
  (answered_run (Q := fun a _ => Made es a.op) (C := fun _ _ => True) RedbLog.service_meets
    rows_advance (fun _ _ _ _ _ hmade _ => ⟨hmade, fun _ _ => trivial⟩)
    (fun _ _ _ _ hmade => hmade) h.along).1

lemma holdsBatches_threads (h : Reopens none es)
    (hreadable : ∀ call, Made es call → ∀ entry ∈ call.entries, RoundTrips entry) :
    HoldsBatches (Made es) (RedbWorld.run none es).file := by
  obtain ⟨history, -, hplaced⟩ := explained_run RedbLog.service_meets h.along
  have hadvances : Advances ρ RedbLog.service RedbLog.appendCall (Made es) OpensTable none
      fun db db' => HoldsBatches (Made es) db → HoldsBatches (Made es) db' :=
    { refl := fun _ => id
      trans := fun _ _ _ h h' => h' ∘ h
      call := fun _ _ call hserial hmade hm =>
        hm.appendCall (settled_of_sequential hserial) hmade (hreadable call hmade)
      start := fun _ _ _ _ hstart => RedbLog.db_of_openAt hstart }
  exact hplaced.advanced hadvances ⟨[], .new, by simp⟩

lemma exists_shows (h : Reopens none es)
    (hreadable : ∀ call, Made es call → ∀ entry ∈ call.entries, RoundTrips entry) :
    ∃ entries, HoldsFile (RedbWorld.run none es).file entries ∧ Shows es entries := by
  obtain ⟨batches, hholds, hmade⟩ := holdsBatches_threads h hreadable
  have hfile : ∀ log lock, (RedbWorld.run none es).process = .up log lock →
      (RedbWorld.run none es).file = log.db := by
    intro log lock hup
    rw [RedbWorld.file, hup]
    rfl
  refine ⟨_, hholds, ?read, ?bounds, ?told, batches, rfl, hmade⟩
  case read =>
    intro log lock hup cursor
    rw [hfile log lock hup] at hholds
    rw [RedbLog.readFrom_of_stores hholds.stores cursor rfl rfl rfl]
    simp
  case bounds =>
    intro log lock hup
    rw [hfile log lock hup] at hholds
    obtain ⟨hdoorbell, hhead, -⟩ := bounds_threads h hup
    exact ⟨hdoorbell, hhead.trans hholds.next_eq.le⟩
  case told =>
    intro a ha pos hpos i entry hi
    exact hholds.getElem?_of_stored ((answered_threads h).1 a ha pos hpos)
      (hreadable a.op (made_of_answered h a ha)) hi

lemma Reopens.of_prefix (h : Reopens db es) (hes : es' <+: es) : Reopens db es' :=
  fun es'' faults db' hes'' => h es'' faults db' (hes''.trans hes)

omit [Postcard] [DecidableEq ρ] in
lemma Made.of_prefix (h : Made es' call) (hes : es' <+: es) : Made es call :=
  ⟨h.choose, hes.subset h.choose_spec⟩

/-- **Readers see whole batches, and never fewer.**  However the statements of threads that
append are interleaved: at every moment there is a log, made of whole batches, that every reader
sees, with all that was told before and all that head and doorbell promise; and at every later
moment it starts with this one. -/
theorem reads_are_prefixes (es es' : List (RedbEvent ρ)) (hes : es' <+: es) (h : Reopens none es)
    (hreadable : ∀ call, Made es call → ∀ entry ∈ call.entries, RoundTrips entry) :
    ∃ entries' entries, Shows es' entries' ∧ Shows es entries ∧ entries' <+: entries := by
  obtain ⟨entries', hholds', hshows'⟩ := exists_shows (h.of_prefix hes)
    fun call hmade => hreadable call (hmade.of_prefix hes)
  obtain ⟨entries, hholds, hshows⟩ := exists_shows h hreadable
  exact ⟨entries', entries, hshows', hshows,
    hholds'.prefix_of_rows hholds (rows_mono_threads h hes)⟩

omit [Postcard] in
/-- Between the commit and the crash readers see what nobody was told of. -/
theorem reads_are_prefixes_crashAfterCommit :
    ∃ entries' entries, @Shows fixturePostcard _ _ (crashAfterCommit.take 20) entries' ∧
      @Shows fixturePostcard _ _ crashAfterCommit entries ∧ entries' <+: entries := by
  have hfirst : @RoundTrips fixturePostcard firstFailure := ⟨[4, 0, 0], by decide, by decide⟩
  have hsecond : @RoundTrips fixturePostcard secondFailure := ⟨[4, 1, 0], by decide, by decide⟩
  refine @reads_are_prefixes fixturePostcard _ _ crashAfterCommit _ (List.take_prefix 20 _)
    reopens_crashAfterCommit ?_
  rintro call ⟨p, hcall⟩
  have hcalls : call = ⟨[firstFailure], {}⟩ ∨ call = ⟨[secondFailure, firstFailure], {}⟩ ∨
      call = ⟨[secondFailure], {}⟩ := by
    simp [crashAfterCommit] at hcall
    tauto
  rcases hcalls with rfl | rfl | rfl
  · simpa using hfirst
  · simpa using ⟨hsecond, hfirst⟩
  · simpa using hsecond

end Threads

end Zequencer
