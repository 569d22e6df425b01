/-
# One disposition for each intent

A disposition of an intent is its place in a slot, or its recorded miss.  The sequencer
records the misses of a close one by one before the slot, and recovery resumes from the
last slot; so a crash in the middle of a close leaves misses in the log for intents that
the restarted sequencer buffers again.  Closing over such an intent is the only way to a
second disposition.
-/
import Zequencer.Sequencer.Replay

namespace Zequencer

/-! ### Dispositions -/

/-- The ids an entry disposes of, with repetitions. -/
def Entry.disposes : Entry → List IntentId
  | .slotCommitted c => c.intents
  | .intentExpired x => [x.intentId]
  | _ => []

/-- The ids disposed of so far, one occurrence for each disposition. -/
def Log.disposed (log : Log) : List IntentId := log.flatMap Entry.disposes

lemma Log.disposed_append (log log' : Log) :
    Log.disposed (log ++ log') = log.disposed ++ Log.disposed log' :=
  List.flatMap_append

lemma Log.disposed_singleton (e : Entry) : Log.disposed [e] = e.disposes := by
  simp [Log.disposed]

lemma Entry.disposes_of_none {e : Entry} (hx : e.expired? = none) (hc : e.committed? = none) :
    e.disposes = [] := by
  cases e <;> first | rfl | simp [Entry.expired?, Entry.committed?] at hx hc

lemma Log.mem_disposed {log : Log} {id : IntentId} (h : id ∈ log.disposed) :
    (∃ x ∈ log.expiries, x.intentId = id) ∨ id ∈ log.commits.flatMap SlotCommitted.intents := by
  obtain ⟨e, he, hid⟩ := List.mem_flatMap.mp h
  cases e with
  | intentExpired x =>
    have hx : id = x.intentId := by simpa [Entry.disposes] using hid
    exact Or.inl ⟨x, Log.mem_expiries.mpr he, hx.symm⟩
  | slotCommitted c =>
    exact Or.inr (List.mem_flatMap.mpr ⟨c, Log.mem_commits.mpr he, hid⟩)
  | _ => simp [Entry.disposes] at hid

/-! ### The buffer against the log -/

/-- The intents waiting for the next close. -/
def SequencerTask.buffer : SequencerTask → List Pending
  | .waiting buffer _ _ => buffer
  | _ => []

/-- The intents that go into the slot being closed. -/
def SequencerTask.live : SequencerTask → List Pending
  | .closing _ _ live _ _ => live
  | _ => []

/-- The ids that a close in progress is still to dispose of. -/
def SequencerTask.undisposed : SequencerTask → List IntentId
  | .closing _ expired live _ _ => expired.map Prod.fst ++ live.map Pending.id
  | _ => []

lemma partitionExpired_perm (g : GuaranteeConfig) (nowMs : UInt64) (buffer : List Pending) :
    ((partitionExpired g nowMs buffer).2.map Prod.fst ++
      (partitionExpired g nowMs buffer).1.map Pending.id).Perm (buffer.map Pending.id) := by
  induction buffer with
  | nil => exact List.Perm.refl _
  | cons p buffer ih =>
    rw [partitionExpired]
    by_cases h : g.deadlineFor p.receivedAt < nowMs
    · simpa [h] using ih
    · simp only [if_neg h, List.map_cons]
      exact List.perm_middle.trans (ih.cons p.id)

section Disposition

variable [Keccak256] {g : GuaranteeConfig} {log : Log}

/-- What waits between the last slot and the cursor is in no slot yet, and waits once. -/
lemma Replayable.intents_append_buffered_nodup (h : Replayable g log)
    (hids : (log.received.map IntentReceived.intentId).Nodup) {cursor : ℕ}
    (hcursor : log.lastConsumed ≤ cursor) :
    (log.commits.flatMap SlotCommitted.intents ++
      (log.buffered log.lastConsumed cursor).map Pending.id).Nodup := by
  obtain ⟨kept, hsub, hperm⟩ := h.intents_perm
  have hbuffered : (log.buffered log.lastConsumed cursor).map Pending.id =
      (log.window log.lastConsumed cursor).received.map IntentReceived.intentId := by
    rw [Log.buffered, List.map_map]
    rfl
  have hwindow : (kept ++ (log.window log.lastConsumed cursor).received).Sublist
      log.received := by
    have hsplit : (log.window 0 cursor).received = (log.window 0 log.lastConsumed).received ++
        (log.window log.lastConsumed cursor).received := by
      rw [Log.window_split (Nat.zero_le _) hcursor, Log.received_append]
    have hlog : (log.window 0 cursor).received.Sublist log.received :=
      (Log.window_sublist log 0 cursor).filterMap _
    exact (hsub.append (List.Sublist.refl _)).trans (hsplit ▸ hlog)
  rw [hbuffered]
  refine (hperm.append_right _).nodup_iff.mpr ?_
  rw [← List.map_append]
  exact hids.sublist (hwindow.map _)

/-- A miss is of an intent that is in no slot. -/
lemma SequencerMove.miss_fresh {task task' : SequencerTask} {e : SequencerEvent}
    {x : IntentExpired} (hmove : SequencerMove g log task e task' (some (.intentExpired x)))
    (hlog : Replayable g log) (hids : (log.received.map IntentReceived.intentId).Nodup)
    (htask : Tracks g log task) :
    x.intentId ∉ log.commits.flatMap SlotCommitted.intents := by
  cases hmove with
  | miss closedAt id deadline expired live cursor nextSlot =>
    obtain ⟨p, hp, hid, -⟩ :=
      htask.buffered_of_expired (m := (id, deadline)) List.mem_cons_self
    have hnodup := hlog.intents_append_buffered_nodup hids htask.1.consumed
    rw [List.nodup_append] at hnodup
    intro hc
    exact hnodup.2.2 _ hc _ (List.mem_map_of_mem hp) hid.symm

/-! ### At most one disposition -/

/-- At a slot close, no buffered intent has been recorded as missed before. -/
def FreshClose (log : Log) (task : SequencerTask) : SequencerEvent → Prop
  | .tick _ => ∀ p ∈ task.buffer, ∀ x ∈ log.expiries, x.intentId ≠ p.id
  | _ => True

instance (log : Log) (task : SequencerTask) (e : SequencerEvent) :
    Decidable (FreshClose log task e) := by
  cases e <;> unfold FreshClose <;> infer_instance

/-- While closes are fresh, what is disposed of or about to be is so once. -/
lemma SequencerMove.disposed_nodup {task task' : SequencerTask} {e : SequencerEvent}
    {o : Option Entry} (hmove : SequencerMove g log task e task' o) (hlog : Replayable g log)
    (hids : (log.received.map IntentReceived.intentId).Nodup) (htask : Tracks g log task)
    (hfresh : FreshClose log task e) (h : (log.disposed ++ task.undisposed).Nodup) :
    (Log.disposed (log ++ o.toList) ++ task'.undisposed).Nodup := by
  cases hmove with
  | idle => simpa using h
  | stop =>
    have hlog : log.disposed.Nodup := h.sublist (List.sublist_append_left _ _)
    simpa [SequencerTask.undisposed] using hlog
  | scan | readHead | timer | read => simpa [SequencerTask.undisposed] using h
  | close buffer cursor nextSlot closedAt =>
    obtain ⟨ha, hbuffer⟩ := htask
    have hnodup := hlog.intents_append_buffered_nodup hids ha.consumed
    rw [← hbuffer] at hnodup
    have hperm := partitionExpired_perm g closedAt buffer
    rw [Option.toList_none, List.append_nil]
    refine (hperm.append_left log.disposed).nodup_iff.mpr ?_
    rw [List.nodup_append] at h hnodup ⊢
    refine ⟨h.1, hnodup.2.1, ?_⟩
    rintro id hid _ hp rfl
    rcases Log.mem_disposed hid with ⟨x, hx, hxid⟩ | hc
    · -- recorded as missed: excluded at this close
      obtain ⟨p, hpb, hpid⟩ := List.mem_map.mp hp
      exact hfresh p hpb x hx (hxid.trans hpid.symm)
    · -- in a slot: that slot consumed the log further
      exact hnodup.2.2 id hc id hp rfl
  | miss closedAt id deadline expired live cursor nextSlot =>
    rw [Option.toList_some, Log.disposed_append, Log.disposed_singleton, List.append_assoc]
    exact h
  | slot closedAt live cursor nextSlot =>
    rw [Option.toList_some, Log.disposed_append, Log.disposed_singleton]
    have hperm := (orderSlot_perm live).append_left log.disposed
    have hlive : (log.disposed ++ live.map Pending.id).Nodup := h
    simpa [SequencerTask.undisposed, Entry.disposes, slotEntry] using hperm.nodup_iff.mpr hlive

/-- What the gate and the others append disposes of nothing. -/
lemma ingest_other_emits {log : Log} {s : Admission × Unit} {d : GateEvent ⊕ Entry} {x : Entry}
    (h : (((gate g).par (Stage.surroundings fun _ e => Foreign e)).step log s d).2 = some x) :
    x.expired? = none ∧ x.committed? = none := by
  rcases d with (⟨i, nowMs, fault⟩ | -) | d
  · rcases admitAndAppend_cases log s.1 i nowMs fault with ⟨err, hc⟩ | ⟨-, -, hc⟩
    · simp [gate, hc] at h
    · simp only [Stage.par_step_inl, gate, hc, Option.some.injEq] at h
      exact ⟨h ▸ rfl, h ▸ rfl⟩
  · simp [gate] at h
  · have hd : ((Stage.surroundings fun _ e => Foreign e).step log s.2 d).2 = some x := h
    obtain ⟨rfl, hforeign⟩ := Stage.surroundings_step_eq_some hd
    exact hforeign.2

/-- **One disposition for each intent, unless a close meets a recorded miss.**  In every
run of the sequencer, with crashes and restarts anywhere, whose closes are all fresh, no
id is disposed of twice. -/
theorem disposed_once (g : GuaranteeConfig) (es : List (SequencerEvent ⊕ GateEvent ⊕ Entry))
    (hes : (ingest g).Along (Stage.onLeft FreshClose) es) (id : IntentId) :
    (Log.disposed ((ingest g).run es).log).count id ≤ 1 := by
  have hrun := (ingest_upholds g).along_left
    (J := fun log task => (Log.disposed log ++ task.undisposed).Nodup)
    List.nodup_nil ?_ ?_ es hes
  · exact List.nodup_iff_count_le_one.mp (hrun.sublist (List.sublist_append_left _ _)) id
  · intro log task t e hinv h hfresh
    exact (sequencerStep_move g log task e).disposed_nodup hinv.replayable hinv.history.ids
      hinv.tracks hfresh h
  · intro log task t d x _ h hx
    obtain ⟨hexpired, hcommitted⟩ := ingest_other_emits hx
    rw [Log.disposed_append, Log.disposed_singleton,
      Entry.disposes_of_none hexpired hcommitted, List.append_nil]
    exact h

/-- One intent is missed at a slot close; then the process crashes between two closes, restarts,
and commits the submitter's next intent. -/
def missThenFollowUp : List (SequencerEvent ⊕ GateEvent ⊕ Entry) :=
  [.inr (.inl (.submit (dummy 0) testNow none)), .inl .scan, .inl .readHead, .inl (.doorbell 1),
    .inl (.tick (testNow + 2000)), .inl .append, .inl .append, .inl .crash, .inl .scan,
    .inl .readHead, .inr (.inl (.submit followUp (testNow + 2000) none)), .inl (.doorbell 3),
    .inl (.tick (testNow + 2005)), .inl .append]

omit [Keccak256] in
theorem disposed_once_missThenFollowUp :
    let log : Log := ((@ingest followUpKeccak testGuarantee).run missThenFollowUp).log
    log.disposed = [@Intent.id followUpKeccak (dummy 0), @Intent.id followUpKeccak followUp] ∧
      ∀ id, log.disposed.count id ≤ 1 :=
  ⟨by decide +kernel,
    @disposed_once followUpKeccak testGuarantee missThenFollowUp (by decide +kernel)⟩

/-- The clock readings of the slot closes, in order. -/
def closeReadings (es : List (SequencerEvent ⊕ GateEvent ⊕ Entry)) : List UInt64 :=
  es.filterMap fun
    | .inl (.tick closedAt) => some closedAt
    | _ => none

/-- One intent is admitted and buffered; the slot close finds its window elapsed and
records the miss; then the process crashes, restarts, and buffers the intent again. -/
def crashInClose : List (SequencerEvent ⊕ GateEvent ⊕ Entry) :=
  [.inr (.inl (.submit (dummy 0) testNow none)), .inl .scan, .inl .readHead, .inl (.doorbell 1),
    .inl (.tick (testNow + 2000)), .inl .append, .inl .crash, .inl .scan, .inl .readHead,
    .inl (.doorbell 2)]

omit [Keccak256] in
/-- The restarted sequencer records the miss a second time, on the same clock. -/
theorem disposed_twice :
    ¬ ∀ es : List (SequencerEvent ⊕ GateEvent ⊕ Entry),
      (closeReadings es).Pairwise (· ≤ ·) → ∀ id : IntentId,
        (Log.disposed ((@ingest fixtureKeccak testGuarantee).run es).log).count id ≤ 1 := by
  intro h
  have hcount := h (crashInClose ++ [.inl (.tick (testNow + 2000)), .inl .append])
    (by decide +kernel) (@Intent.id fixtureKeccak (dummy 0))
  revert hcount
  decide +kernel

/-! ### Never both dropped and committed -/

/-- At a slot close, every buffered intent that was recorded as missed before is past its
deadline on this clock reading, too. -/
def LateClose (g : GuaranteeConfig) (log : Log) (task : SequencerTask) : SequencerEvent → Prop
  | .tick closedAt => ∀ p ∈ task.buffer, ∀ x ∈ log.expiries, x.intentId = p.id →
    g.deadlineFor p.receivedAt < closedAt
  | _ => True

instance (log : Log) (task : SequencerTask) (e : SequencerEvent) :
    Decidable (LateClose g log task e) := by
  cases e <;> unfold LateClose <;> infer_instance

/-- No id is both dropped and committed, or about to be. -/
structure Exclusive (log : Log) (task : SequencerTask) : Prop where
  apart : ∀ x ∈ log.expiries, x.intentId ∉ log.commits.flatMap SlotCommitted.intents
  live : ∀ x ∈ log.expiries, ∀ p ∈ task.live, x.intentId ≠ p.id

/-- While closes are late enough, dropped and committed stay apart. -/
lemma SequencerMove.exclusive {task task' : SequencerTask} {e : SequencerEvent}
    {o : Option Entry} (hmove : SequencerMove g log task e task' o) (hlog : Replayable g log)
    (hids : (log.received.map IntentReceived.intentId).Nodup) (htask : Tracks g log task)
    (hlate : LateClose g log task e) (h : Exclusive log task) :
    Exclusive (log ++ o.toList) task' := by
  cases hmove with
  | idle => simpa using h
  | stop | scan | readHead | timer | read =>
    rw [Option.toList_none, List.append_nil]
    exact ⟨h.apart, by simp [SequencerTask.live]⟩
  | close buffer cursor nextSlot closedAt =>
    rw [Option.toList_none, List.append_nil]
    refine ⟨h.apart, fun x hx p hp hid => ?_⟩
    rw [SequencerTask.live, partitionExpired_eq, List.mem_filter] at hp
    have hlt := hlate p hp.1 x hx hid
    exact UInt64.not_le.mpr hlt (of_decide_eq_true hp.2)
  | miss closedAt id deadline expired live cursor nextSlot =>
    have hfresh : id ∉ log.commits.flatMap SlotCommitted.intents :=
      SequencerMove.miss_fresh (.miss closedAt id deadline expired live cursor nextSlot) hlog
        hids htask
    -- the miss recorded now is of a buffered intent
    obtain ⟨p, hpb, rfl, rfl, hpd⟩ :=
      htask.buffered_of_expired (m := (id, deadline)) List.mem_cons_self
    obtain ⟨ha, done, hsplit, -⟩ := htask
    rw [partitionExpired_eq, Prod.mk.injEq] at hsplit
    obtain ⟨rfl, -⟩ := hsplit
    have hnodup := hlog.intents_append_buffered_nodup hids ha.consumed
    rw [List.nodup_append] at hnodup
    constructor
    · intro x hx
      rw [Log.expiries_append, List.mem_append] at hx
      rw [Log.commits_append, List.flatMap_append]
      rcases hx with hx | hx
      · simpa [Log.commits, Entry.committed?] using h.apart x hx
      · obtain rfl : x = ⟨p.id, g.deadlineFor p.receivedAt, closedAt⟩ := by
          simpa [Log.expiries, Entry.expired?] using hx
        simpa [Log.commits, Entry.committed?] using hfresh
    · intro x hx q hq
      rw [Log.expiries_append, List.mem_append] at hx
      rcases hx with hx | hx
      · exact h.live x hx q hq
      · obtain rfl : x = ⟨p.id, g.deadlineFor p.receivedAt, closedAt⟩ := by
          simpa [Log.expiries, Entry.expired?] using hx
        intro hpq
        obtain ⟨hqb, hqd⟩ := List.mem_filter.mp hq
        obtain rfl : p = q := List.inj_on_of_nodup_map hnodup.2.1 hpb hqb hpq
        exact UInt64.not_le.mpr hpd (of_decide_eq_true hqd)
  | slot closedAt live cursor nextSlot =>
    refine ⟨fun x hx => ?_, by simp [SequencerTask.live]⟩
    have hx' : x ∈ log.expiries := by
      simpa [Log.expiries_append, Log.expiries, Entry.expired?] using hx
    have hlive : x.intentId ∉ orderSlot live := by
      rw [mem_orderSlot]
      rintro ⟨p, hp, hid⟩
      exact h.live x hx' p hp hid.symm
    have hcommits : (Log.commits (log ++
        [.slotCommitted (slotEntry closedAt live cursor nextSlot)])).flatMap
          SlotCommitted.intents =
        log.commits.flatMap SlotCommitted.intents ++ orderSlot live := by
      rw [Log.commits_append, List.flatMap_append]
      simp [Log.commits, Entry.committed?, slotEntry]
    rw [Option.toList_some, hcommits, List.mem_append, not_or]
    exact ⟨h.apart x hx', hlive⟩

/-- **Never both dropped and committed, unless a close goes back on a recorded miss.**  In
every run of the sequencer, with crashes and restarts anywhere and any clock readings,
whose closes are all late enough, no id with a recorded miss is in a slot. -/
theorem never_dropped_and_committed (g : GuaranteeConfig)
    (es : List (SequencerEvent ⊕ GateEvent ⊕ Entry))
    (hes : (ingest g).Along (Stage.onLeft (LateClose g)) es) :
    ∀ x ∈ Log.expiries ((ingest g).run es).log, ∀ c ∈ Log.commits ((ingest g).run es).log,
      x.intentId ∉ c.intents := by
  have hrun := (ingest_upholds g).along_left (J := Exclusive)
    ⟨by simp, by simp⟩ ?_ ?_ es hes
  · intro x hx c hc hid
    exact hrun.apart x hx (List.mem_flatMap.mpr ⟨c, hc, hid⟩)
  · intro log task t e hinv h hlate
    exact (sequencerStep_move g log task e).exclusive hinv.replayable hinv.history.ids
      hinv.tracks hlate h
  · intro log task t d x _ h hx
    obtain ⟨hexpired, hcommitted⟩ := ingest_other_emits hx
    constructor
    · rw [Log.expiries_concat_of_none hexpired, Log.commits_concat_of_none hcommitted]
      exact h.apart
    · rw [Log.expiries_concat_of_none hexpired]
      exact h.live

/-- After a crash in the middle of a close, the next close meets the recorded miss on the same
clock reading, and commits an intent admitted since. -/
def missMetAgain : List (SequencerEvent ⊕ GateEvent ⊕ Entry) :=
  crashInClose ++ [.inr (.inl (.submit followUp (testNow + 1500) none)), .inl (.doorbell 1),
    .inl (.tick (testNow + 2000)), .inl .append, .inl .append]

omit [Keccak256] in
theorem never_dropped_and_committed_missMetAgain :
    let log : Log := ((@ingest followUpKeccak testGuarantee).run missMetAgain).log
    log.expiries.map IntentExpired.intentId =
        [@Intent.id followUpKeccak (dummy 0), @Intent.id followUpKeccak (dummy 0)] ∧
      log.commits.map SlotCommitted.intents = [[@Intent.id followUpKeccak followUp]] ∧
        ∀ x ∈ log.expiries, ∀ c ∈ log.commits, x.intentId ∉ c.intents :=
  ⟨by decide +kernel, by decide +kernel,
    @never_dropped_and_committed followUpKeccak testGuarantee missMetAgain (by decide +kernel)⟩

omit [Keccak256] in
/-- The restarted sequencer reads an earlier clock, and commits the dropped intent. -/
theorem dropped_and_committed :
    ¬ ∀ es : List (SequencerEvent ⊕ GateEvent ⊕ Entry),
      let log : Log := ((@ingest fixtureKeccak testGuarantee).run es).log
      ∀ x ∈ log.expiries, ∀ c ∈ log.commits, x.intentId ∉ c.intents := by
  intro h
  have hapart := h (crashInClose ++ [.inl (.tick testNow), .inl .append])
  revert hapart
  decide +kernel

end Disposition

end Zequencer
