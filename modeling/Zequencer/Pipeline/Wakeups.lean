/-
# Nobody sleeps through an entry

The four tasks as consumers of the in-memory log and its doorbell, each in any number, beside
any number of appenders.  A task that waits with no unseen ring has its cursor past every entry
that was rung for, and a task that was started wakes for what it finds in the log.
-/
import Zequencer.Lib.Doorbell
import Zequencer.Prover.Moves
import Zequencer.Projection.Rows
import Zequencer.Source.LogStores

namespace Zequencer

open Doorbell

/-! ### The end of a batch -/

/-- Where the cursor is once a batch is worked off. -/
def batchEnd (cursor : ℕ) (batch : List (ℕ × Entry)) : ℕ :=
  (batch.getLast?.map fun e => e.1 + 1).getD cursor

lemma batchEnd_cons (cursor pos : ℕ) (e : Entry) (batch : List (ℕ × Entry)) :
    batchEnd cursor ((pos, e) :: batch) = batchEnd (pos + 1) batch := by
  rw [batchEnd, batchEnd, List.getLast?_cons]
  cases batch.getLast? with
  | none => rfl
  | some last => rfl

lemma length_le_batchEnd (log : Log) (cursor : ℕ) :
    log.length ≤ batchEnd cursor ((log.readFrom cursor).take log.length) := by
  rw [batchEnd, cursor_getLast?_readFrom, List.length_take, List.length_drop]
  omega

lemma drain_snd (batch : List (ℕ × Entry)) (buffer : List Pending) (cursor : ℕ) :
    (drain batch buffer cursor).2 = batchEnd cursor batch := by
  induction batch generalizing buffer cursor with
  | nil => rfl
  | cons e batch ih =>
    obtain ⟨pos, e⟩ := e
    rw [batchEnd_cons, drain, List.foldl_cons]
    exact ih _ _

lemma cursor_applyBatch (p : Projections) (batch : List (ℕ × Entry)) :
    (p.applyBatch batch).cursor = batchEnd p.cursor batch := by
  induction batch generalizing p with
  | nil => rfl
  | cons e batch ih =>
    obtain ⟨pos, e⟩ := e
    rw [batchEnd_cons, Projections.applyBatch, List.foldl_cons]
    exact ih (p.apply pos e)

/-! ### The four tasks

A task that returns an error or is dropped stops as a consumer, so its event `crash` does
nothing here; reading after the doorbell is not one of its own events. -/

section Consumers

variable [Keccak256]

/-- `select!` waits on the doorbell and on the boundary; closing a slot appends. -/
def sequencerConsumer (g : GuaranteeConfig) : Consumer Entry SequencerTask SequencerEvent where
  init := .down
  step log s
    | .doorbell _ | .crash => (s, none)
    | e => sequencerStep g log s e
  cursor?
    | .waiting _ cursor _ => some cursor
    | _ => none
  read log s := (sequencerStep g log s (.doorbell log.length)).1
  phase
    | .down | .recovering _ => .starting
    | .waiting _ cursor _ | .closing _ _ _ cursor _ => .looping cursor
    | .timerPanicked => .ended
  phase_of_cursor := by
    intro s r h
    cases s with
    | waiting buffer cursor nextSlot => exact congrArg Phase.looping (Option.some.inj h)
    | _ => simp at h
  phase_step := by
    intro log s e
    cases s with
    | down => trivial
    | recovering scanned => trivial
    | waiting buffer cursor nextSlot => cases e <;> exact Or.inl rfl
    | closing closedAt expired live cursor nextSlot =>
      cases e with
      | append => cases expired <;> exact Or.inl rfl
      | _ => exact Or.inl rfl
    | timerPanicked => cases e <;> rfl
  phase_read := by
    intro log s r h
    cases s with
    | waiting buffer cursor nextSlot =>
      exact ⟨_, length_le_batchEnd log cursor, congrArg Phase.looping (drain_snd _ buffer cursor)⟩
    | _ => simp at h

def attesterConsumer : Consumer Entry AttesterTask AttesterEvent where
  init := .down
  step log s
    | .doorbell _ | .crash => (s, none)
    | e => attesterStep log s e
  cursor?
    | .waiting cursor => some cursor
    | _ => none
  read log s := (attesterStep log s (.doorbell log.length)).1
  phase
    | .down | .recovering _ => .starting
    | .waiting cursor => .looping cursor
    | .draining cursor batch => .looping (batchEnd cursor batch)
    | .ruled pos _ batch => .looping (batchEnd (pos + 1) batch)
  phase_of_cursor := by
    intro s r h
    cases s with
    | waiting cursor => exact congrArg Phase.looping (Option.some.inj h)
    | _ => simp at h
  phase_step := by
    intro log s e
    cases s with
    | down => trivial
    | recovering scanned => trivial
    | waiting cursor => cases e <;> exact Or.inl rfl
    | draining cursor batch =>
      cases e with
      | process answer =>
        cases batch with
        | nil => exact Or.inl rfl
        | cons e batch =>
          obtain ⟨pos, e⟩ := e
          have hend := (batchEnd_cons cursor pos e batch).symm
          cases e <;> exact Or.inl (congrArg Phase.looping hend)
      | _ => exact Or.inl rfl
    | ruled pos cursor batch => cases e <;> exact Or.inl rfl
  phase_read := by
    intro log s r h
    cases s with
    | waiting cursor => exact ⟨_, length_le_batchEnd log cursor, rfl⟩
    | _ => simp at h

end Consumers

/-- How far the prover is: the cursor moves when a batch is read. -/
def proverPhase : ProverTask → Phase
  | .down | .recovering _ => .starting
  | .waiting v | .draining v _ | .proving v _ _ _ _ => .looping v.cursor
  | .stopped _ | .panicked | .timerPanicked => .ended

lemma leads_flush (v : ProverVars) (k : AfterFlush) :
    (Phase.looping v.cursor).Leads (proverPhase (flush v k)) := by
  by_cases hp : v.pending = []
  · rw [flush_eq_panicked.mpr hp]
    exact Or.inr rfl
  · rw [flush_of_ne_nil k hp]
    exact Or.inl rfl

lemma leads_sizeCheck (cfg : BatchConfig) (v : ProverVars) (batch : List Entry) :
    (Phase.looping v.cursor).Leads (proverPhase (sizeCheck cfg v batch)) := by
  rcases sizeCheck_cases cfg v batch with ⟨-, h⟩ | ⟨-, h⟩
  · rw [h]
    exact Or.inl rfl
  · rw [h]
    exact leads_flush v (.atNext batch)

lemma EntryMove.leads {cfg : BatchConfig} {v : ProverVars} {e : Entry} {batch : List Entry}
    {task : ProverTask} (h : EntryMove cfg v e batch task) :
    (Phase.looping v.cursor).Leads (proverPhase task) := by
  cases h with
  | pass => exact leads_sizeCheck cfg v batch
  | commit c => exact leads_sizeCheck cfg _ batch
  | stale => exact Or.inl rfl
  | gap => exact Or.inr rfl
  | missing => exact Or.inr rfl
  | attested a s => exact leads_sizeCheck cfg _ batch
  | failed f => exact leads_sizeCheck cfg _ batch
  | failedFlush f => exact leads_flush _ (.atSizeCheck batch)

/-- `select!` waits on the doorbell and on the flush timer; every flush appends. -/
def proverConsumer (cfg : BatchConfig) : Consumer Entry ProverTask ProverEvent where
  init := .down
  step log s
    | .doorbell _ | .crash => (s, none)
    | e => proverStep cfg log s e
  cursor?
    | .waiting v => some v.cursor
    | _ => none
  read log s := (proverStep cfg log s (.doorbell log.length)).1
  phase := proverPhase
  phase_of_cursor := by
    intro s r h
    cases s with
    | waiting v => exact congrArg Phase.looping (Option.some.inj h)
    | _ => simp at h
  phase_step := by
    intro log s e
    cases s with
    | down => trivial
    | recovering scanned => trivial
    | waiting v =>
      cases e with
      | tick =>
        show (Phase.looping v.cursor).Leads
          (proverPhase (if v.pending.isEmpty then .waiting v else flush v .select))
        split_ifs
        · exact Or.inl rfl
        · exact leads_flush v .select
      | _ => exact Or.inl rfl
    | draining v batch =>
      cases e with
      | process =>
        cases batch with
        | nil => exact Or.inl rfl
        | cons e batch => exact (processEntry_move cfg v e batch).leads
      | _ => exact Or.inl rfl
    | proving v fromSlot toSlot taken k =>
      cases e with
      | proved answer =>
        cases k with
        | select => exact Or.inl rfl
        | atSizeCheck batch => exact leads_sizeCheck cfg v batch
        | atNext batch => exact Or.inl rfl
      | _ => exact Or.inl rfl
    | stopped err => cases e <;> rfl
    | panicked | timerPanicked => cases e <;> rfl
  phase_read := by
    intro log s r h
    cases s with
    | waiting v => exact ⟨_, length_le_batchEnd log v.cursor, rfl⟩
    | _ => simp at h

/-- Reading its own cursor and reading the log are one step: nobody else moves the cursor. -/
def projectorConsumer (g : GuaranteeConfig) :
    Consumer Entry (Projections × ProjectorTask) ProjectorEvent where
  init := (Projections.new g, .waiting)
  step log s
    | .apply => (projectorStep g log s .apply, none)
    | _ => (s, none)
  cursor?
    | (p, .waiting) => some p.cursor
    | _ => none
  read log s := projectorStep g log (projectorStep g log s .doorbell) (.readTail none)
  phase
    | (p, .waiting) => .looping p.cursor
    | (_, .reading cursor) => .looping cursor
    | (p, .holding batch) => .looping (batchEnd p.cursor batch)
  phase_of_cursor := by
    rintro ⟨p, task⟩ r h
    cases task with
    | waiting => exact congrArg Phase.looping (Option.some.inj h)
    | _ => simp at h
  phase_step := by
    rintro log ⟨p, task⟩ e
    cases task with
    | waiting => cases e <;> exact Or.inl rfl
    | reading cursor => cases e <;> exact Or.inl rfl
    | holding batch =>
      cases e with
      | apply => exact Or.inl (congrArg Phase.looping (cursor_applyBatch p batch))
      | _ => exact Or.inl rfl
  phase_read := by
    rintro log ⟨p, task⟩ r h
    cases task with
    | waiting =>
      refine ⟨_, length_le_batchEnd log p.cursor, ?_⟩
      rw [List.take_of_length_le (by simp)]
      rfl
    | _ => simp at h

/-! ### Any number of each -/

/-- Which task a consumer is, with its configuration. -/
inductive ConsumerKind where
  | sequencer (g : GuaranteeConfig)
  | attester
  | prover (cfg : BatchConfig)
  | projector (g : GuaranteeConfig)

namespace ConsumerKind

def Task : ConsumerKind → Type
  | .sequencer _ => SequencerTask
  | .attester => AttesterTask
  | .prover _ => ProverTask
  | .projector _ => Projections × ProjectorTask

def Event : ConsumerKind → Type
  | .sequencer _ => SequencerEvent
  | .attester => AttesterEvent
  | .prover _ => ProverEvent
  | .projector _ => ProjectorEvent

def consumer [Keccak256] : (k : ConsumerKind) → Consumer Entry k.Task k.Event
  | .sequencer g => sequencerConsumer g
  | .attester => attesterConsumer
  | .prover cfg => proverConsumer cfg
  | .projector g => projectorConsumer g

end ConsumerKind

section World

variable [Keccak256] {A C : Type} [DecidableEq A] [DecidableEq C]

/-- The log, its doorbell and everyone around them, after a schedule. -/
def doorbellWorld (kind : C → ConsumerKind)
    (es : List (Event Entry A fun c => (kind c).Event)) : World Entry A fun c => (kind c).Task :=
  World.run (fun c => (kind c).consumer) (World.init fun c => (kind c).consumer) es

/-- The log of the world, with the value of its doorbell. -/
def memLog {σ : C → Type} (w : World Entry A σ) : MemLog := ⟨w.log, w.value⟩

/-- An appender writes as `MemLog` does under its lock. -/
lemma memLog_write (kind : C → ConsumerKind) (w : World Entry A fun c => (kind c).Task) (a : A)
    (entries : List Entry) (h : w.appender a = []) :
    memLog (w.next (fun c => (kind c).consumer) (.write a entries)) =
      ((memLog w).write entries).1 := by
  rw [World.next, if_pos h]
  rfl

lemma memLog_ring (kind : C → ConsumerKind) (w : World Entry A fun c => (kind c).Task) (a : A)
    (positions : List ℕ) (last : ℕ) (h : w.appender a = positions ++ [last]) :
    memLog (w.next (fun c => (kind c).consumer) (.ring a)) = (memLog w).ring last := by
  have hne : ¬ w.appender a = [] := by simp [h]
  rw [World.next, if_neg hne, memLog, memLog, MemLog.ring]
  simp only [World.setAppender, World.sendReplace, h, List.getLast?_concat, Option.getD_some]

/-- **No consumer sleeps through an entry.**  After every schedule of any number of appenders
and of any number of each task: a task that waits with no unseen ring has its cursor past every
entry rung for; and a task that subscribes and marks its receiver has an unseen ring until it has
waited once, so wherever it waits then it is woken, and reads everything there is. -/
theorem no_consumer_sleeps_through (kind : C → ConsumerKind)
    (es : List (Event Entry A fun c => (kind c).Event)) (c : C) :
    (∀ r, Asleep (fun c => (kind c).consumer) (doorbellWorld kind es) c r →
      ∀ pos ∈ (doorbellWorld kind es).rung, pos < r) ∧
    ∀ es₁ es₂, ((doorbellWorld kind es).party c).receiver = .unsubscribed →
      (∀ e ∈ es₁, e ≠ .markChanged c ∧ e ≠ .stop c) →
      (∀ e ∈ es₂, e ≠ .changed c ∧ e ≠ .stop c) →
      let started := es ++ .subscribe c :: (es₁ ++ .markChanged c :: es₂)
      Unseen (doorbellWorld kind started) c ∧
      ∀ r, (kind c).consumer.cursor? ((doorbellWorld kind started).party c).state = some r →
        ((doorbellWorld kind started).party c).unrung = [] →
        ∃ reached, (doorbellWorld kind started).log.length ≤ reached ∧
          (kind c).consumer.phase ((doorbellWorld kind
            (started ++ [.changed c, .read c])).party c).state = .looping reached := by
  have hinv : ∀ es : List (Event Entry A fun c => (kind c).Event),
      Inv (fun c => (kind c).consumer) (doorbellWorld kind es) := fun es => Inv.run Inv.init es
  refine ⟨fun r hasleep => (hinv es).lt_of_asleep hasleep, ?_⟩
  intro es₁ es₂ hfree hbefore hafter started
  have hunseen : Unseen (doorbellWorld kind started) c := by
    rw [doorbellWorld, World.run_append]
    exact unseen_of_subscribe (hinv es) hfree es₁ es₂ hbefore hafter
  refine ⟨hunseen, fun r hcursor hunrung => ?_⟩
  have hwoken := Unseen.woken (K := fun c => (kind c).consumer) hunseen hunrung hcursor
  rwa [doorbellWorld, ← World.run_append] at hwoken

/-- An entry is written and rung for, and then a sequencer is started. -/
def startOnBacklog : List (Event Entry Unit fun _ : Unit => SequencerEvent) :=
  [.write () [firstFailure], .ring (), .subscribe (), .markChanged (), .act () .scan,
    .act () .readHead]

omit [Keccak256] in
/-- The sequencer is woken without any further append, and is then asleep past the entry. -/
theorem no_consumer_sleeps_through_startOnBacklog :
    let world := @doorbellWorld fixtureKeccak Unit Unit _ _ fun _ => .sequencer testGuarantee
    let asleep := world (startOnBacklog ++ [.changed (), .read ()])
    Unseen (world startOnBacklog) () ∧
      (∃ reached, (world startOnBacklog).log.length ≤ reached ∧
        (@sequencerConsumer fixtureKeccak testGuarantee).phase (asleep.party ()).state =
          .looping reached) ∧
      asleep.rung = [0] ∧ ∀ pos ∈ asleep.rung, pos < 1 := by
  intro world asleep
  obtain ⟨hunseen, hwoken⟩ := (@no_consumer_sleeps_through fixtureKeccak Unit Unit _ _
    (fun _ => .sequencer testGuarantee) [.write () [firstFailure], .ring ()] ()).2 []
      [.act () SequencerEvent.scan, .act () SequencerEvent.readHead] (by decide +kernel)
      (by simp) (by simp)
  have hasleep := (@no_consumer_sleeps_through fixtureKeccak Unit Unit _ _
    (fun _ => .sequencer testGuarantee) (startOnBacklog ++ [.changed (), .read ()]) ()).1 1
      ⟨by decide +kernel, by decide +kernel⟩
  exact ⟨hunseen, hwoken 0 (by decide +kernel) (by decide +kernel), by decide +kernel, hasleep⟩

end World

end Zequencer
