/-
# The sequencer

The guarantee window, the ordering policy, slot commitments, recovery, and the task that
closes slots: `Sequencer::run` as a stage of the log.  Arithmetic on `u64` wraps, as it
does in the release build.

A task that returns an error is gone as a crashed one is, so a failing append of the
sequencer is the event `crash`.
-/
import Mathlib.Data.List.Sort
import Zequencer.Lib.SortedMap
import Zequencer.Lib.Stage
import Zequencer.Source.Log

namespace Zequencer

/-- A span of time: whole seconds and nanoseconds below one second. -/
structure Duration where
  secs : UInt64
  nanos : Fin 1000000000
deriving DecidableEq

def Duration.ZERO : Duration := ⟨0, ⟨0, by decide⟩⟩

/-- Whole milliseconds, rounded down. -/
def Duration.asMillis (d : Duration) : ℕ := d.secs.toNat * 1000 + d.nanos.val / 1000000

/-- The inclusion promise made at admission. -/
structure GuaranteeConfig where
  slotDuration : Duration
  maxSlots : UInt32
deriving DecidableEq

/-- The product is taken in `u128`, where it cannot overflow, and cast to `u64`. -/
def GuaranteeConfig.windowSize (g : GuaranteeConfig) : UInt64 :=
  UInt64.ofNat (g.slotDuration.asMillis * g.maxSlots.toNat)

/-- The moment the promise made to an intent arriving at `nowMs` runs out. -/
def GuaranteeConfig.deadlineFor (g : GuaranteeConfig) (nowMs : UInt64) : UInt64 :=
  nowMs + g.windowSize

/-- An admitted intent that waits for a slot. -/
structure Pending where
  id : IntentId
  market : Market
  submitter : Address
  nonce : UInt64
  priorityFee : UInt64
  receivedAt : UInt64
deriving DecidableEq

def Pending.new (id : IntentId) (intent : Intent) (receivedAt : UInt64) : Pending where
  id := id
  market := intent.market
  submitter := intent.submitter
  nonce := intent.nonce
  priorityFee := intent.priorityFee
  receivedAt := receivedAt

/-- Rules 2-4 of the policy.  Lower sorts first. -/
def Pending.rank (p : Pending) : ℕᵒᵈ ×ₗ ℕ ×ₗ IntentId :=
  toLex (OrderDual.toDual p.priorityFee.toNat, toLex (p.receivedAt.toNat, p.id))

/-! ### The ordering policy -/

/-- The winner among the heads of the queues: its rank and its submitter. -/
def winningHead (queues : SortedMap Address (List Pending)) :
    Option ((ℕᵒᵈ ×ₗ ℕ ×ₗ IntentId) ×ₗ Address) :=
  (queues.entries.filterMap fun e => e.2.head?.map fun p => toLex (p.rank, e.1)).min?

/-- The merge loop of `order_domain`: take whichever head wins, until there is none.  The
fuel bounds the number of takes. -/
def mergeHeads : ℕ → SortedMap Address (List Pending) → List IntentId
  | 0, _ => []
  | fuel + 1, queues =>
    match winningHead queues with
    | none => []
    | some next =>
      let addr := (ofLex next).2
      match queues.find? addr with
      | some (p :: rest) =>
        p.id :: mergeHeads fuel
          (if rest.isEmpty then queues.erase addr else queues.upsert addr fun _ => rest)
      -- the two `expect`s: the address came from the map, with a head
      | _ => []

/-- One ordering domain: each submitter holds a nonce-ordered queue.  The sort is stable. -/
def orderDomain (intents : List Pending) : List IntentId :=
  let queues := SortedMap.groupBy Pending.submitter intents
  mergeHeads intents.length
    (queues.mapValues fun q => q.insertionSort fun a b => a.nonce ≤ b.nonce)

/-- Order one slot: domains in market order, intents within each by policy. -/
def orderSlot (pending : List Pending) : List IntentId :=
  (SortedMap.groupBy Pending.market pending).values.flatMap orderDomain

/-! ### Slot close -/

/-- Split a buffer at slot close into what still has a live guarantee and what the
sequencer failed to reach in time. -/
def partitionExpired (g : GuaranteeConfig) (nowMs : UInt64) :
    List Pending → List Pending × List (IntentId × UInt64)
  | [] => ([], [])
  | p :: buffer =>
    let (keep, expired) := partitionExpired g nowMs buffer
    let deadline := g.deadlineFor p.receivedAt
    if deadline < nowMs then (keep, (p.id, deadline) :: expired) else (p :: keep, expired)

/-- What `commit` feeds to the hash: slot, length and ids. -/
def commitPreimage (slot : ℕ) (intents : List IntentId) : List UInt8 :=
  leBytes 8 slot ++ leBytes 8 intents.length ++ intents.flatMap fun id => id.bytes.toList

def commit [Keccak256] (slot : ℕ) (intents : List IntentId) : Commitment :=
  ⟨Keccak256.digest (commitPreimage slot intents)⟩

/-- The preimage tells slot numbers of 64 bits and lists of ids apart. -/
lemma commitPreimage_inj {slot slot' : ℕ} {intents intents' : List IntentId}
    (hslot : slot < 2 ^ 64) (hslot' : slot' < 2 ^ 64)
    (h : commitPreimage slot intents = commitPreimage slot' intents') :
    slot = slot' ∧ intents = intents' := by
  have hid : Function.Injective fun id : IntentId => id.bytes.toList := by
    rintro ⟨a⟩ ⟨b⟩ hab
    exact congrArg IntentId.mk (Vector.toList_inj.mp hab)
  rw [commitPreimage, commitPreimage, List.append_assoc, List.append_assoc] at h
  obtain ⟨hbytes, hrest⟩ := List.append_inj h (by simp)
  obtain ⟨-, hids⟩ := List.append_inj hrest (by simp)
  exact ⟨leBytes_inj hslot hslot' hbytes,
    flatMap_injective (by decide) (fun id => Vector.length_toList) hid hids⟩

/-! ### Recovery -/

/-- Why the sequencer stopped. -/
inductive SeqError where
  | log (e : LogError)
  | corruptLog (cursor head : ℕ)
deriving DecidableEq

/-- One entry of the loop of `recover`: the newest slot fixes cursor and next slot. -/
def recoverEntry (s : ℕ × ℕ) : Entry → ℕ × ℕ
  | .slotCommitted c => (c.consumedUpTo, c.slot + 1)
  | _ => s

/-- The loop of `recover` over everything read from the log. -/
def recoverScan (log : Log) : ℕ × ℕ := log.foldl recoverEntry (0, 0)

/-- `recover`, on what the scan found and the head read after it. -/
def recover (scanned : ℕ × ℕ) (head : ℕ) : Except SeqError (ℕ × ℕ) :=
  if head < scanned.1 then .error (.corruptLog scanned.1 head) else .ok scanned

/-! ### The task -/

/-- Where the task of the sequencer stands between two effects. -/
inductive SequencerTask where
  /-- Not running. -/
  | down
  /-- `recover` has scanned the log and not read the head yet. -/
  | recovering (scanned : ℕ × ℕ)
  /-- In `select!`. -/
  | waiting (buffer : List Pending) (cursor nextSlot : ℕ)
  /-- Closing a slot: the misses still to record, and what goes into the slot. -/
  | closing (closedAt : UInt64) (expired : List (IntentId × UInt64)) (live : List Pending)
      (cursor nextSlot : ℕ)
  /-- `interval` has panicked, on a period of zero. -/
  | timerPanicked
deriving DecidableEq

/-- What may happen to the sequencer. -/
inductive SequencerEvent where
  /-- Start the task: subscribe, and scan the log. -/
  | scan
  /-- Read the head, which ends `recover`. -/
  | readHead
  /-- The doorbell arm, over the first `n` entries past the cursor. -/
  | doorbell (n : ℕ)
  /-- The boundary arm, with the clock reading. -/
  | tick (closedAt : UInt64)
  /-- The next append of a slot close. -/
  | append
  | crash
deriving DecidableEq

/-- The doorbell arm: buffer the intents of a batch, entry by entry. -/
def drain (batch : List (ℕ × Entry)) (buffer : List Pending) (cursor : ℕ) :
    List Pending × ℕ :=
  batch.foldl (fun s e =>
    (match e.2 with
      | .intentReceived r => s.1 ++ [Pending.new r.intentId r.intent r.receivedAt]
      | _ => s.1,
     e.1 + 1)) (buffer, cursor)

/-- The entry that closes a slot. -/
def slotEntry [Keccak256] (closedAt : UInt64) (live : List Pending) (cursor nextSlot : ℕ) :
    SlotCommitted where
  slot := nextSlot
  commitment := commit nextSlot (orderSlot live)
  intents := orderSlot live
  consumedUpTo := cursor
  committedAtMs := closedAt

/-- `Sequencer::run`, one event at a time. -/
def sequencerStep [Keccak256] (g : GuaranteeConfig) (log : Log) :
    SequencerTask → SequencerEvent → SequencerTask × Option Entry
  | .down, .scan => (.recovering (recoverScan log), none)
  | .recovering scanned, .readHead =>
    match recover scanned log.head with
    | .ok (cursor, nextSlot) =>
      (if g.slotDuration = .ZERO then .timerPanicked else .waiting [] cursor nextSlot, none)
    | .error _ => (.down, none)
  | .waiting buffer cursor nextSlot, .doorbell n =>
    let (buffer, cursor) := drain ((log.readFrom cursor).take n) buffer cursor
    (.waiting buffer cursor nextSlot, none)
  | .waiting buffer cursor nextSlot, .tick closedAt =>
    let (live, expired) := partitionExpired g closedAt buffer
    (.closing closedAt expired live cursor nextSlot, none)
  | .closing closedAt expired live cursor nextSlot, .append =>
    match expired with
    -- the misses are recorded before the slot
    | (id, deadline) :: expired =>
      (.closing closedAt expired live cursor nextSlot,
        some (.intentExpired ⟨id, deadline, closedAt⟩))
    | [] =>
      (.waiting [] cursor (nextSlot + 1),
        some (.slotCommitted (slotEntry closedAt live cursor nextSlot)))
  | _, .crash => (.down, none)
  | task, _ => (task, none)

/-- The sequencer as a stage of the log. -/
def sequencer [Keccak256] (g : GuaranteeConfig) :
    Stage Entry SequencerTask SequencerEvent where
  init := .down
  step := sequencerStep g

/-! ### Fixtures -/

/-- The guarantee of the tests: a window of one second. -/
def testGuarantee : GuaranteeConfig := ⟨⟨0, 5000000⟩, 200⟩

/-- Keccak-256, on the byte strings that runs over the fixtures hash. -/
@[reducible] def fixtureKeccak : Keccak256 where
  digest bytes :=
    if bytes = (dummy 0).encoding then
      Bytes.ofNat 32 0x84d00be013f73c5ffd5d6379e6ca0fb0fb2473aea6bde8b388ff42c59b5cbcab
    else if bytes = commitPreimage 0 [] then
      Bytes.ofNat 32 0xf490de2920c8a35fabeb13208852aa28c76f9be9b03a4dd2b3c075f7a26923b4
    else if bytes = commitPreimage 1 [] then
      Bytes.ofNat 32 0x97550c84a9e30d01461a29ac1c54c29e82c1925ee78b2ee1776d9e20c0183334
    else if bytes = commitPreimage 0 [⟨Bytes.ofNat 32
        0x84d00be013f73c5ffd5d6379e6ca0fb0fb2473aea6bde8b388ff42c59b5cbcab⟩] then
      Bytes.ofNat 32 0xd42136c922013d0238f892ef8d9e23214263d6518e09963b0f68363deb271b7c
    else Bytes.ofNat 32 0

end Zequencer
