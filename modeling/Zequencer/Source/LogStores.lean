/-
# The two logs

`MemLog`, a vector behind a lock, and `RedbLog`, rows of bytes in a table of a redb
database.  Of redb the model takes an ordered map and transactions that take effect at their
commit or not at all.  Any call of redb may fail: which ones do, and with which text, comes
with each operation.  The serialisation of an entry is a library's.
-/
import Zequencer.Lib.SortedMap
import Zequencer.Source.Log

namespace Zequencer

/-! ### In memory -/

/-- The log in memory. -/
structure MemLog where
  entries : Log
  /-- The position rung last. -/
  doorbell : ℕ
deriving DecidableEq

namespace MemLog

def new : MemLog := ⟨[], 0⟩

/-- What happens under the write lock, and the position of the last entry written. -/
def write (log : MemLog) (entries : List Entry) : MemLog × ℕ :=
  ({ log with entries := log.entries ++ entries }, (log.entries ++ entries).length - 1)

/-- `send_replace`, after the lock is dropped. -/
def ring (log : MemLog) (pos : ℕ) : MemLog := { log with doorbell := pos }

def append (log : MemLog) (entry : Entry) : MemLog × Except LogError ℕ :=
  let (log, pos) := log.write [entry]
  (log.ring pos, .ok pos)

def appendBatch (log : MemLog) (entries : List Entry) : MemLog × Except LogError ℕ :=
  if entries.isEmpty then (log, .error .emptyBatch)
  else
    let (log, last) := log.write entries
    (log.ring last, .ok last)

def readFrom (log : MemLog) (cursor : ℕ) : Except LogError (List (ℕ × Entry)) :=
  .ok (log.entries.readFrom cursor)

def head (log : MemLog) : ℕ := log.entries.head

end MemLog

/-! ### The rows on disk -/

/-- The serialisation of entries. -/
class Postcard where
  toStdvec : Entry → Except String (List UInt8)
  fromBytes : List UInt8 → Option Entry

def SCHEMA_VERSION : ℕ := 1

/-- The schema version, then the serialised entry. -/
def encode [Postcard] (entry : Entry) : Except LogError (List UInt8) :=
  match Postcard.toStdvec entry with
  | .ok bytes => .ok (leBytes 2 SCHEMA_VERSION ++ bytes)
  | .error text => .error (.encode text)

/-- `none` where `split_at` panics. -/
def decode [Postcard] (bytes : List UInt8) : Option (Except Unit Entry) :=
  if bytes.length < 2 then none
  else
    let ver := bytes.take 2
    let rest := bytes.drop 2
    some (
      if leValue ver ≠ SCHEMA_VERSION then .error ()
      else match Postcard.fromBytes rest with
        | some entry => .ok entry
        | none => .error ())

/-- The rows of `ENTRIES`, by position. -/
abbrev Table := SortedMap ℕ (List UInt8)

/-- What is committed.  The first append creates the table. -/
abbrev Database := Option Table

/-- Why `open_table` failed. -/
inductive TableError where
  | tableDoesNotExist
  | storage (text : String)
deriving DecidableEq

/-- `open_table` of a read transaction. -/
def Database.openTable (db : Database) (fault : Option String) : Except TableError Table :=
  match fault with
  | some text => .error (.storage text)
  | none =>
    match db with
    | some table => .ok table
    | none => .error .tableDoesNotExist

/-- A call that fails or not; its error becomes `LogError::Encode`. -/
def attempt (fault : Option String) : Except LogError Unit :=
  match fault with
  | some text => .error (.encode text)
  | none => .ok ()

/-- The calls of `open` that fail. -/
structure OpenFaults where
  create : Option String := none
  beginRead : Option String := none
  openTable : Option String := none
  last : Option String := none

/-- The calls of `append_batch` that fail; an insert by its position. -/
structure WriteFaults where
  beginWrite : Option String := none
  openTable : Option String := none
  insert : ℕ → Option String := fun _ => none
  commit : Option String := none

/-- The calls of `read_from` that fail; a row of the iteration by its position. -/
structure ReadFaults where
  beginRead : Option String := none
  openTable : Option String := none
  range : Option String := none
  row : ℕ → Option String := fun _ => none

/-! ### On disk -/

/-- The log over a file, with the head kept in memory. -/
structure RedbLog where
  db : Database
  /-- Exclusive: the position the next append takes. -/
  head : ℕ
  doorbell : ℕ

namespace RedbLog

/-- Recover the head from the table's last key. -/
def recoverHead (db : Database) (faults : OpenFaults) : Except LogError ℕ := do
  attempt faults.beginRead
  match db.openTable faults.openTable with
  | .ok table => do
    attempt faults.last
    return table.lastKey?.elim 0 fun k => k + 1
  -- table doesn't exist yet
  | .error _ => return 0

/-- `RedbLog::open`. -/
def openAt (db : Database) (faults : OpenFaults) : Except LogError RedbLog := do
  attempt faults.create
  let head ← recoverHead db faults
  return ⟨db, head, head⟩

/-- The loop of `append_batch` over the table of its transaction. -/
def insertAll [Postcard] (fault : ℕ → Option String) :
    ℕ → Table → List Entry → Except LogError (ℕ × Table)
  | pos, table, [] => .ok (pos, table)
  | pos, table, entry :: entries => do
    let bytes ← encode entry
    attempt (fault pos)
    insertAll fault (pos + 1) (table.insert pos bytes) entries

/-- The write transaction of `append_batch`, from its begin to its commit. -/
def transact [Postcard] (log : RedbLog) (entries : List Entry) (faults : WriteFaults) :
    Except LogError (ℕ × Table) := do
  attempt faults.beginWrite
  attempt faults.openTable
  let (pos, table) ← insertAll faults.insert log.head (log.db.getD .empty) entries
  attempt faults.commit
  return (pos, table)

def appendBatch [Postcard] (log : RedbLog) (entries : List Entry) (faults : WriteFaults) :
    RedbLog × Except LogError ℕ :=
  if entries.isEmpty then (log, .error .emptyBatch)
  else match log.transact entries faults with
    -- the transaction is dropped, and head and doorbell are not touched
    | .error e => (log, .error e)
    | .ok (pos, table) => (⟨some table, pos, pos⟩, .ok (pos - 1))

def append [Postcard] (log : RedbLog) (entry : Entry) (faults : WriteFaults) :
    RedbLog × Except LogError ℕ :=
  log.appendBatch [entry] faults

/-- Decode row by row and stop at the first that does not decode: `collect` into a
`Result`. -/
def collect [Postcard] : List (ℕ × List UInt8) → Option (Except LogError (List (ℕ × Entry)))
  | [] => some (.ok [])
  | (pos, bytes) :: rows => do
    match ← decode bytes with
    | .error () => some (.error (.decode pos))
    | .ok entry => return (← collect rows).map fun out => (pos, entry) :: out

/-- `none` where it panics. -/
def readFrom [Postcard] (log : RedbLog) (cursor : ℕ) (faults : ReadFaults) :
    Option (Except LogError (List (ℕ × Entry))) :=
  match attempt faults.beginRead with
  | .error e => some (.error e)
  | .ok () =>
    match log.db.openTable faults.openTable with
    -- the log is empty until the first append
    | .error .tableDoesNotExist => some (.ok [])
    | .error (.storage text) => some (.error (.encode text))
    | .ok table =>
      match attempt faults.range with
      | .error e => some (.error e)
      | .ok () =>
        -- `filter_map(|r| r.ok())`
        collect ((table.range cursor).filter fun row => (faults.row row.1).isNone)

end RedbLog

/-! ### Fixtures -/

def firstFailure : Entry := .attestFailed ⟨0, ""⟩

def secondFailure : Entry := .attestFailed ⟨1, ""⟩

/-- Postcard, on the entries that runs over the fixtures store: the index of the variant, the
slot, and the length of the empty reason. -/
@[reducible] def fixturePostcard : Postcard where
  toStdvec entry :=
    if entry = firstFailure then .ok [4, 0, 0]
    else if entry = secondFailure then .ok [4, 1, 0]
    else .error "not a fixture"
  fromBytes bytes :=
    if bytes = [4, 0, 0] then some firstFailure
    else if bytes = [4, 1, 0] then some secondFailure
    else none

end Zequencer
