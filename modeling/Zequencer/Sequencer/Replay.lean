/-
# Slots are replayable from the log alone

Whatever the schedule, a committed slot is a function of the log below it: its number is
the number of slots before it, it consumes the log from where the last slot stopped, and
its contents are the intents received in between, ordered by policy, less the ones whose
window had elapsed.  The invariant ties the buffer, the cursor and the next slot number of
the task to positions of the log; it survives partial reads, appends between read and
close, half-finished closes and restarts.
-/
import Zequencer.Admission.History
import Zequencer.Sequencer.Order

namespace Zequencer

/-! ### The law of a slot -/

/-- The buffered form of a received intent. -/
def Pending.ofReceived (r : IntentReceived) : Pending :=
  Pending.new r.intentId r.intent r.receivedAt

namespace Log

/-- How far the last slot consumed the log; `0` before the first slot. -/
def lastConsumed (log : Log) : ℕ := (log.commits.getLast?.map SlotCommitted.consumedUpTo).getD 0

/-- The intents received between two positions, as the sequencer buffers them. -/
def buffered (log : Log) (a b : ℕ) : List Pending :=
  (log.window a b).received.map Pending.ofReceived

@[simp] lemma lastConsumed_nil : lastConsumed [] = 0 := rfl

lemma lastConsumed_append_of_none {log : Log} {e : Entry} (h : e.committed? = none) :
    lastConsumed (log ++ [e]) = lastConsumed log := by
  rw [lastConsumed, commits_concat_of_none h, lastConsumed]

@[simp] lemma lastConsumed_append_slot (log : Log) (c : SlotCommitted) :
    lastConsumed (log ++ [.slotCommitted c]) = c.consumedUpTo := by
  rw [lastConsumed, commits_concat_slot, List.getLast?_concat]
  rfl

@[simp] lemma length_commits_append_slot (log : Log) (c : SlotCommitted) :
    (commits (log ++ [.slotCommitted c])).length = log.commits.length + 1 := by
  rw [commits_concat_slot, List.length_append, List.length_singleton]

lemma buffered_append {log : Log} {a b : ℕ} (h : b ≤ log.length) (log' : Log) :
    buffered (log ++ log') a b = buffered log a b := by
  rw [buffered, window_append h, buffered]

lemma buffered_split {log : Log} {a b c : ℕ} (hab : a ≤ b) (hbc : b ≤ c) :
    buffered log a c = buffered log a b ++ buffered log b c := by
  rw [buffered, window_split hab hbc, received_append, List.map_append]
  rfl

end Log

/-- What a slot committed on top of the log `pre` is. -/
structure SlotLaw [Keccak256] (g : GuaranteeConfig) (pre : Log) (c : SlotCommitted) : Prop where
  /-- Slots are numbered in log order. -/
  slot : c.slot = pre.commits.length
  /-- A slot consumes from where the last one stopped. -/
  consumes : pre.lastConsumed ≤ c.consumedUpTo
  /-- A slot consumes nothing past its own position. -/
  upTo : c.consumedUpTo ≤ pre.length
  /-- The contents are the buffered intents whose promise still held, in policy order. -/
  intents : c.intents = orderSlot ((pre.buffered pre.lastConsumed c.consumedUpTo).filter
    fun p => c.committedAtMs ≤ g.deadlineFor p.receivedAt)
  commitment : c.commitment = commit c.slot c.intents
  /-- Every other intent of the window was recorded as missed before. -/
  missed : ∀ r ∈ (pre.window pre.lastConsumed c.consumedUpTo).received,
    g.deadlineFor r.receivedAt < c.committedAtMs →
      ∃ x ∈ pre.expiries, x.intentId = r.intentId ∧
        x.guaranteeDeadlineMs = g.deadlineFor r.receivedAt ∧ x.atMs = c.committedAtMs

/-- Every slot of the log obeys the law, on top of the entries before it. -/
def Replayable [Keccak256] (g : GuaranteeConfig) (log : Log) : Prop :=
  ∀ pre c post, log = pre ++ .slotCommitted c :: post → SlotLaw g pre c

/-! ### Extending a replayable log -/

lemma append_singleton_eq_append_cons {α : Type*} {l pre post : List α} {x y : α}
    (h : l ++ [x] = pre ++ y :: post) :
    (l = pre ∧ x = y ∧ post = []) ∨ ∃ post', l = pre ++ y :: post' := by
  rcases List.eq_nil_or_concat post with rfl | ⟨post', z, rfl⟩
  · obtain ⟨hl, hx⟩ := List.append_inj' h rfl
    exact Or.inl ⟨hl, by simpa using hx, rfl⟩
  · rw [List.concat_eq_append, ← List.cons_append, ← List.append_assoc] at h
    exact Or.inr ⟨post', (List.append_inj' h rfl).1⟩

section Replay

variable [Keccak256] {g : GuaranteeConfig} {log : Log}

lemma Replayable.nil : Replayable g [] := by
  intro pre c post h
  simp at h

lemma Replayable.append_of_none {e : Entry} (h : Replayable g log) (he : e.committed? = none) :
    Replayable g (log ++ [e]) := by
  intro pre c post hlog
  rcases append_singleton_eq_append_cons hlog with ⟨-, rfl, -⟩ | ⟨post', hlog'⟩
  · simp [Entry.committed?] at he
  · exact h pre c post' hlog'

lemma Replayable.append_slot {c : SlotCommitted} (h : Replayable g log) (hc : SlotLaw g log c) :
    Replayable g (log ++ [.slotCommitted c]) := by
  intro pre c' post hlog
  rcases append_singleton_eq_append_cons hlog with ⟨rfl, hcc, -⟩ | ⟨post', hlog'⟩
  · obtain rfl : c = c' := by simpa using hcc
    exact hc
  · exact h pre c' post' hlog'

lemma Replayable.law_of_mem {c : SlotCommitted} (h : Replayable g log) (hc : c ∈ log.commits) :
    ∃ pre post, log = pre ++ .slotCommitted c :: post ∧ SlotLaw g pre c := by
  obtain ⟨pre, post, hlog⟩ := List.append_of_mem (Log.mem_commits.mp hc)
  exact ⟨pre, post, hlog, h pre c post hlog⟩

/-- Induction over a replayable log, from its first entry on. -/
lemma Replayable.induct {P : Log → Prop} (nil : P [])
    (other : ∀ (log : Log) (e : Entry), Replayable g log → P log → e.committed? = none →
      P (log ++ [e]))
    (slot : ∀ (log : Log) (c : SlotCommitted), Replayable g log → P log → SlotLaw g log c →
      P (log ++ [.slotCommitted c]))
    (h : Replayable g log) : P log := by
  induction log using List.reverseRecOn with
  | nil => exact nil
  | append_singleton log e ih =>
    have hlog : Replayable g log := fun pre c post hpre =>
      h pre c (post ++ [e]) (by rw [hpre]; simp)
    by_cases he : e.committed? = none
    · exact other log e hlog (ih hlog) he
    · obtain ⟨c, hc⟩ := Option.ne_none_iff_exists'.mp he
      obtain rfl := Entry.committed?_eq_some.mp hc
      exact slot log c hlog (ih hlog) (h log c [] rfl)

lemma Replayable.slots_eq_range (h : Replayable g log) :
    log.commits.map SlotCommitted.slot = List.range log.commits.length := by
  refine Replayable.induct
    (P := fun log => log.commits.map SlotCommitted.slot = List.range log.commits.length)
    rfl ?_ ?_ h
  · intro log e _ ih he
    rw [Log.commits_concat_of_none he]
    exact ih
  · intro log c _ ih hc
    rw [Log.length_commits_append_slot, List.range_succ, ← ih, ← hc.slot,
      Log.commits_append, List.map_append]
    rfl

lemma Replayable.lastConsumed_le (h : Replayable g log) : log.lastConsumed ≤ log.length := by
  refine Replayable.induct (P := fun log => log.lastConsumed ≤ log.length) le_rfl ?_ ?_ h
  · intro log e _ ih he
    rw [Log.lastConsumed_append_of_none he, List.length_append]
    exact ih.trans (Nat.le_add_right _ _)
  · intro log c _ _ hc
    rw [Log.lastConsumed_append_slot, List.length_append]
    exact hc.upTo.trans (Nat.le_add_right _ _)

/-- What `recover` finds: the end of the last slot, and the number of slots. -/
lemma recoverScan_eq (h : Replayable g log) :
    recoverScan log = (log.lastConsumed, log.commits.length) := by
  have happend : ∀ (log : Log) (e : Entry),
      recoverScan (log ++ [e]) = recoverEntry (recoverScan log) e := by
    intro log e
    simp [recoverScan, List.foldl_append]
  refine Replayable.induct
    (P := fun log => recoverScan log = (log.lastConsumed, log.commits.length)) rfl ?_ ?_ h
  · intro log e _ ih he
    have hkeep : recoverEntry (recoverScan log) e = recoverScan log := by
      cases e <;> first | rfl | simp [Entry.committed?] at he
    rw [happend, hkeep, ih, Log.lastConsumed_append_of_none he, Log.commits_concat_of_none he]
  · intro log c _ _ hc
    rw [happend, Log.lastConsumed_append_slot, Log.length_commits_append_slot, ← hc.slot]
    rfl

/-! ### What one step of the task can do -/

omit [Keccak256] in
lemma partitionExpired_eq (g : GuaranteeConfig) (nowMs : UInt64) (buffer : List Pending) :
    partitionExpired g nowMs buffer =
      (buffer.filter fun p => nowMs ≤ g.deadlineFor p.receivedAt,
        (buffer.filter fun p => g.deadlineFor p.receivedAt < nowMs).map fun p =>
          (p.id, g.deadlineFor p.receivedAt)) := by
  induction buffer with
  | nil => rfl
  | cons p buffer ih =>
    rw [partitionExpired, ih]
    by_cases h : g.deadlineFor p.receivedAt < nowMs
    · simp [h]
    · simp [h, UInt64.not_lt.mp h]

omit [Keccak256] in
/-- Draining a read of at most `n` entries buffers what was received in it. -/
lemma drain_take_readFrom {cursor : ℕ} (hcursor : cursor ≤ log.length) (n : ℕ)
    (buffer : List Pending) :
    ∃ cursor', cursor ≤ cursor' ∧ cursor' ≤ log.length ∧
      drain ((log.readFrom cursor).take n) buffer cursor =
        (buffer ++ log.buffered cursor cursor', cursor') := by
  induction n generalizing cursor buffer with
  | zero =>
    exact ⟨cursor, le_rfl, hcursor, by simp [drain, Log.buffered]⟩
  | succ n ih =>
    cases he : log[cursor]? with
    | none =>
      have hle : log.length ≤ cursor := by simpa using he
      exact ⟨cursor, le_rfl, hcursor, by simp [Log.readFrom_eq_nil hle, drain, Log.buffered]⟩
    | some e =>
      have hlt : cursor < log.length := (List.getElem?_eq_some_iff.mp he).1
      obtain ⟨cursor', hle, hlen, hdrain⟩ :=
        ih hlt (buffer ++ (Log.received [e]).map Pending.ofReceived)
      refine ⟨cursor', by omega, hlen, ?_⟩
      rw [Log.readFrom_eq_cons he, List.take_succ_cons,
        Log.buffered_split (b := cursor + 1) (by omega) hle, ← List.append_assoc]
      have hone : log.buffered cursor (cursor + 1) =
          (Log.received [e]).map Pending.ofReceived := by
        rw [Log.buffered, Log.window_succ he]
      rw [hone, ← hdrain, drain, List.foldl_cons, drain]
      congr 2
      cases e <;> simp [Log.received, Entry.received?, Pending.ofReceived]

/-- The moves of the task: what a step does, and when. -/
inductive SequencerMove (g : GuaranteeConfig) (log : Log) :
    SequencerTask → SequencerEvent → SequencerTask → Option Entry → Prop
  | idle (task) (e) : SequencerMove g log task e task none
  | stop (task) (e) : SequencerMove g log task e .down none
  | scan : SequencerMove g log .down .scan (.recovering (recoverScan log)) none
  | readHead (scanned : ℕ × ℕ) (h : scanned.1 ≤ log.length) (htimer : g.slotDuration ≠ .ZERO) :
      SequencerMove g log (.recovering scanned) .readHead (.waiting [] scanned.1 scanned.2) none
  | timer (scanned : ℕ × ℕ) (h : g.slotDuration = .ZERO) :
      SequencerMove g log (.recovering scanned) .readHead .timerPanicked none
  | read (buffer : List Pending) (cursor nextSlot n : ℕ) :
      SequencerMove g log (.waiting buffer cursor nextSlot) (.doorbell n)
        (.waiting (drain ((log.readFrom cursor).take n) buffer cursor).1
          (drain ((log.readFrom cursor).take n) buffer cursor).2 nextSlot) none
  | close (buffer : List Pending) (cursor nextSlot : ℕ) (closedAt : UInt64) :
      SequencerMove g log (.waiting buffer cursor nextSlot) (.tick closedAt)
        (.closing closedAt (partitionExpired g closedAt buffer).2
          (partitionExpired g closedAt buffer).1 cursor nextSlot) none
  | miss (closedAt : UInt64) (id : IntentId) (deadline : UInt64)
      (expired : List (IntentId × UInt64)) (live : List Pending) (cursor nextSlot : ℕ) :
      SequencerMove g log (.closing closedAt ((id, deadline) :: expired) live cursor nextSlot)
        .append (.closing closedAt expired live cursor nextSlot)
        (some (.intentExpired ⟨id, deadline, closedAt⟩))
  | slot (closedAt : UInt64) (live : List Pending) (cursor nextSlot : ℕ) :
      SequencerMove g log (.closing closedAt [] live cursor nextSlot) .append
        (.waiting [] cursor (nextSlot + 1))
        (some (.slotCommitted (slotEntry closedAt live cursor nextSlot)))

lemma sequencerStep_move (g : GuaranteeConfig) (log : Log) (task : SequencerTask)
    (e : SequencerEvent) :
    SequencerMove g log task e (sequencerStep g log task e).1 (sequencerStep g log task e).2 := by
  cases e with
  | crash => cases task <;> exact .stop _ _
  | scan =>
    cases task with
    | down => exact .scan
    | _ => exact .idle _ _
  | readHead =>
    cases task with
    | recovering scanned =>
      rw [sequencerStep, recover]
      by_cases h : log.head < scanned.1
      · rw [if_pos h]
        exact .stop _ _
      · rw [if_neg h]
        by_cases htimer : g.slotDuration = .ZERO
        · simp only [if_pos htimer]
          exact .timer scanned htimer
        · simp only [if_neg htimer]
          exact .readHead scanned (not_lt.mp h) htimer
    | _ => exact .idle _ _
  | doorbell n =>
    cases task with
    | waiting buffer cursor nextSlot => exact .read buffer cursor nextSlot n
    | _ => exact .idle _ _
  | tick closedAt =>
    cases task with
    | waiting buffer cursor nextSlot => exact .close buffer cursor nextSlot closedAt
    | _ => exact .idle _ _
  | append =>
    cases task with
    | closing closedAt expired live cursor nextSlot =>
      cases expired with
      | nil => exact .slot closedAt live cursor nextSlot
      | cons x expired => exact .miss closedAt x.1 x.2 expired live cursor nextSlot
    | _ => exact .idle _ _

/-! ### The invariant of the task -/

/-- The cursor and the next slot of a running task, against the log. -/
structure Anchored (log : Log) (cursor nextSlot : ℕ) : Prop where
  slot : nextSlot = log.commits.length
  consumed : log.lastConsumed ≤ cursor
  upTo : cursor ≤ log.length

/-- How the private state of the task follows the log.  During a close, the misses that
are no longer to be recorded are in the log. -/
def Tracks (g : GuaranteeConfig) (log : Log) : SequencerTask → Prop
  | .down => True
  | .timerPanicked => g.slotDuration = .ZERO
  | .recovering scanned => scanned = (log.lastConsumed, log.commits.length)
  | .waiting buffer cursor nextSlot =>
    Anchored log cursor nextSlot ∧ buffer = log.buffered log.lastConsumed cursor
  | .closing closedAt expired live cursor nextSlot =>
    Anchored log cursor nextSlot ∧ ∃ done,
      partitionExpired g closedAt (log.buffered log.lastConsumed cursor) = (live, done ++ expired) ∧
        ∀ m ∈ done, .intentExpired ⟨m.1, m.2, closedAt⟩ ∈ log

omit [Keccak256] in
/-- What a close is still to record as missed is buffered, and past its deadline. -/
lemma Tracks.buffered_of_expired {closedAt : UInt64} {m : IntentId × UInt64}
    {expired : List (IntentId × UInt64)} {live : List Pending} {cursor nextSlot : ℕ}
    (h : Tracks g log (.closing closedAt expired live cursor nextSlot)) (hm : m ∈ expired) :
    ∃ p ∈ log.buffered log.lastConsumed cursor, p.id = m.1 ∧ m.2 = g.deadlineFor p.receivedAt ∧
      g.deadlineFor p.receivedAt < closedAt := by
  obtain ⟨ha, done, hsplit, -⟩ := h
  rw [partitionExpired_eq, Prod.mk.injEq] at hsplit
  have hmem : m ∈ done ++ expired := List.mem_append_right _ hm
  rw [← hsplit.2] at hmem
  obtain ⟨p, hp, rfl⟩ := List.mem_map.mp hmem
  obtain ⟨hpb, hpd⟩ := List.mem_filter.mp hp
  exact ⟨p, hpb, rfl, rfl, of_decide_eq_true hpd⟩

omit [Keccak256] in
lemma Anchored.append_of_none {cursor nextSlot : ℕ} {e : Entry}
    (h : Anchored log cursor nextSlot) (he : e.committed? = none) :
    Anchored (log ++ [e]) cursor nextSlot where
  slot := by
    rw [Log.commits_concat_of_none he]
    exact h.slot
  consumed := by
    rw [Log.lastConsumed_append_of_none he]
    exact h.consumed
  upTo := by
    have hlen := h.upTo
    rw [List.length_append]
    omega

omit [Keccak256] in
lemma Anchored.buffered_append_of_none {cursor nextSlot : ℕ} {e : Entry}
    (h : Anchored log cursor nextSlot) (he : e.committed? = none) :
    Log.buffered (log ++ [e]) (Log.lastConsumed (log ++ [e])) cursor =
      log.buffered log.lastConsumed cursor := by
  rw [Log.lastConsumed_append_of_none he, Log.buffered_append h.upTo]

omit [Keccak256] in
lemma Tracks.append_of_none {task : SequencerTask} {e : Entry} (h : Tracks g log task)
    (he : e.committed? = none) : Tracks g (log ++ [e]) task := by
  cases task with
  | down => trivial
  | timerPanicked => exact h
  | recovering scanned =>
    show scanned = _
    rw [Log.lastConsumed_append_of_none he, Log.commits_concat_of_none he]
    exact h
  | waiting buffer cursor nextSlot =>
    obtain ⟨ha, hbuffer⟩ := h
    refine ⟨ha.append_of_none he, ?_⟩
    rw [ha.buffered_append_of_none he]
    exact hbuffer
  | closing closedAt expired live cursor nextSlot =>
    obtain ⟨ha, done, hsplit, hdone⟩ := h
    refine ⟨ha.append_of_none he, done, ?_, fun m hm => List.mem_append_left _ (hdone m hm)⟩
    rw [ha.buffered_append_of_none he]
    exact hsplit

/-- A close that has recorded its misses commits a slot that obeys the law. -/
lemma slotLaw_slotEntry {closedAt : UInt64} {live : List Pending} {cursor nextSlot : ℕ}
    (h : Tracks g log (.closing closedAt [] live cursor nextSlot)) :
    SlotLaw g log (slotEntry closedAt live cursor nextSlot) := by
  obtain ⟨ha, done, hsplit, hdone⟩ := h
  rw [List.append_nil, partitionExpired_eq, Prod.mk.injEq] at hsplit
  obtain ⟨hlive, hmissed⟩ := hsplit
  refine ⟨ha.slot, ha.consumed, ha.upTo, ?_, rfl, ?_⟩
  · rw [← hlive]
    rfl
  · intro r hr hlt
    have hmem : Pending.ofReceived r ∈ log.buffered log.lastConsumed cursor :=
      List.mem_map_of_mem hr
    have hm : (r.intentId, g.deadlineFor r.receivedAt) ∈ done := by
      rw [← hmissed]
      exact List.mem_map.mpr ⟨_, List.mem_filter.mpr ⟨hmem, decide_eq_true hlt⟩, rfl⟩
    exact ⟨_, Log.mem_expiries.mpr (hdone _ hm), rfl, rfl, rfl⟩

lemma SequencerMove.tracks {task task' : SequencerTask} {e : SequencerEvent}
    {o : Option Entry} (hmove : SequencerMove g log task e task' o) (hlog : Replayable g log)
    (h : Tracks g log task) :
    Replayable g (log ++ o.toList) ∧ Tracks g (log ++ o.toList) task' := by
  cases hmove with
  | idle => simpa using ⟨hlog, h⟩
  | stop => simpa [Tracks] using hlog
  | scan => simpa [Tracks] using ⟨hlog, recoverScan_eq hlog⟩
  | timer scanned htimer => simpa [Tracks] using ⟨hlog, htimer⟩
  | readHead scanned hle =>
    rw [Option.toList_none, List.append_nil]
    obtain rfl : scanned = _ := h
    exact ⟨hlog, ⟨rfl, le_rfl, hlog.lastConsumed_le⟩, by simp [Log.buffered]⟩
  | read buffer cursor nextSlot n =>
    obtain ⟨ha, rfl⟩ := h
    obtain ⟨cursor', hle, hlen, hdrain⟩ :=
      drain_take_readFrom ha.upTo n (log.buffered log.lastConsumed cursor)
    rw [Option.toList_none, List.append_nil, hdrain, ← Log.buffered_split ha.consumed hle]
    exact ⟨hlog, ⟨ha.slot, ha.consumed.trans hle, hlen⟩, rfl⟩
  | close buffer cursor nextSlot closedAt =>
    obtain ⟨ha, rfl⟩ := h
    rw [Option.toList_none, List.append_nil]
    exact ⟨hlog, ha, [], rfl, by simp⟩
  | miss closedAt id deadline expired live cursor nextSlot =>
    have he : (Entry.intentExpired ⟨id, deadline, closedAt⟩).committed? = none := rfl
    obtain ⟨ha, done, hsplit, hdone⟩ := h
    refine ⟨hlog.append_of_none he, ha.append_of_none he, done ++ [(id, deadline)], ?_, ?_⟩
    · rw [Option.toList_some, ha.buffered_append_of_none he, hsplit, List.append_assoc,
        List.singleton_append]
    · intro m hm
      rcases List.mem_append.mp hm with hm | hm
      · exact List.mem_append_left _ (hdone m hm)
      · obtain rfl := List.mem_singleton.mp hm
        exact List.mem_append_right _ (List.mem_singleton_self _)
  | slot closedAt live cursor nextSlot =>
    have hlaw := slotLaw_slotEntry h
    refine ⟨hlog.append_slot hlaw, ⟨?_, ?_, ?_⟩, ?_⟩
    · rw [Option.toList_some, Log.length_commits_append_slot, ← hlaw.slot]
      rfl
    · rw [Option.toList_some, Log.lastConsumed_append_slot]
      rfl
    · exact hlaw.upTo.trans (by simp)
    · rw [Option.toList_some, Log.lastConsumed_append_slot]
      simp [Log.buffered, slotEntry]

/-- What the sequencer writes: misses, and slots with the next number. -/
def SequencerWrites (log : Log) (e : Entry) : Prop :=
  (∃ x, e = .intentExpired x) ∨ ∃ c, e = .slotCommitted c ∧ c.slot = log.commits.length

/-- Beside stages that commit no slot, the log is replayable and the task on track. -/
lemma sequencer_upholds (g : GuaranteeConfig) :
    (sequencer g).Upholds (fun _ e => e.committed? = none) SequencerWrites
      (fun log task => Replayable g log ∧ Tracks g log task) where
  init := ⟨Replayable.nil, trivial⟩
  own := fun log task e h => (sequencerStep_move g log task e).tracks h.1 h.2
  emits := by
    intro log task e x h hx
    have hmove := sequencerStep_move g log task e
    rw [show (sequencerStep g log task e).2 = some x from hx] at hmove
    generalize (sequencerStep g log task e).1 = task' at hmove
    cases hmove with
    | miss => exact Or.inl ⟨_, rfl⟩
    | slot => exact Or.inr ⟨_, rfl, h.2.1.slot⟩
  rely := fun log task x h hx => ⟨h.1.append_of_none hx, h.2.append_of_none hx⟩

/-! ### What a replayable log accounts for -/

/-- The contents of all slots are some of the intents below the last cursor, each once. -/
lemma Replayable.intents_perm (h : Replayable g log) :
    ∃ kept : List IntentReceived, kept.Sublist (log.window 0 log.lastConsumed).received ∧
      (log.commits.flatMap SlotCommitted.intents).Perm (kept.map IntentReceived.intentId) := by
  refine Replayable.induct (P := fun log => ∃ kept : List IntentReceived,
    kept.Sublist (log.window 0 log.lastConsumed).received ∧
      (log.commits.flatMap SlotCommitted.intents).Perm (kept.map IntentReceived.intentId))
    ⟨[], by simp, by simp⟩ ?_ ?_ h
  · rintro log e hlog ⟨kept, hsub, hperm⟩ he
    rw [Log.lastConsumed_append_of_none he, Log.window_append hlog.lastConsumed_le,
      Log.commits_concat_of_none he]
    exact ⟨kept, hsub, hperm⟩
  · rintro log c hlog ⟨kept, hsub, hperm⟩ hc
    have hwindow : (Log.window (log ++ [.slotCommitted c]) 0 c.consumedUpTo).received =
        (log.window 0 log.lastConsumed).received ++
          (log.window log.lastConsumed c.consumedUpTo).received := by
      rw [Log.window_append hc.upTo, Log.window_split (Nat.zero_le _) hc.consumes,
        Log.received_append]
    have hcommits : (Log.commits (log ++ [.slotCommitted c])).flatMap SlotCommitted.intents =
        log.commits.flatMap SlotCommitted.intents ++ c.intents := by
      rw [Log.commits_append, List.flatMap_append]
      simp [Log.commits, Entry.committed?]
    refine ⟨kept ++ (log.window log.lastConsumed c.consumedUpTo).received.filter
      fun r => c.committedAtMs ≤ g.deadlineFor r.receivedAt, ?_, ?_⟩
    · rw [Log.lastConsumed_append_slot, hwindow]
      exact hsub.append List.filter_sublist
    · rw [hcommits, List.map_append, hc.intents]
      refine hperm.append ((orderSlot_perm _).trans (List.Perm.of_eq ?_))
      rw [Log.buffered, List.filter_map, List.map_map]
      rfl

lemma Replayable.intents_nodup (h : Replayable g log)
    (hids : (log.received.map IntentReceived.intentId).Nodup) :
    (log.commits.flatMap SlotCommitted.intents).Nodup := by
  obtain ⟨kept, hsub, hperm⟩ := h.intents_perm
  have hlog : kept.Sublist log.received :=
    hsub.trans ((Log.window_sublist log 0 log.lastConsumed).filterMap _)
  exact hperm.nodup_iff.mpr (hids.sublist (hlog.map _))

lemma Replayable.accounted (h : Replayable g log) :
    ∀ r ∈ (log.window 0 log.lastConsumed).received,
      (∃ c ∈ log.commits, r.intentId ∈ c.intents) ∨
        ∃ x ∈ log.expiries, x.intentId = r.intentId := by
  refine Replayable.induct (P := fun log => ∀ r ∈ (log.window 0 log.lastConsumed).received,
    (∃ c ∈ log.commits, r.intentId ∈ c.intents) ∨
      ∃ x ∈ log.expiries, x.intentId = r.intentId) (by simp) ?_ ?_ h
  · intro log e hlog ih he r hr
    rw [Log.lastConsumed_append_of_none he, Log.window_append hlog.lastConsumed_le] at hr
    rw [Log.commits_append, Log.expiries_append]
    rcases ih r hr with ⟨c, hc, hrc⟩ | ⟨x, hx, hrx⟩
    · exact Or.inl ⟨c, List.mem_append_left _ hc, hrc⟩
    · exact Or.inr ⟨x, List.mem_append_left _ hx, hrx⟩
  · intro log c hlog ih hc r hr
    rw [Log.lastConsumed_append_slot, Log.window_append hc.upTo,
      Log.window_split (Nat.zero_le _) hc.consumes, Log.received_append, List.mem_append] at hr
    rw [Log.commits_append, Log.expiries_append]
    rcases hr with hr | hr
    · rcases ih r hr with ⟨c', hc', hrc⟩ | ⟨x, hx, hrx⟩
      · exact Or.inl ⟨c', List.mem_append_left _ hc', hrc⟩
      · exact Or.inr ⟨x, List.mem_append_left _ hx, hrx⟩
    · by_cases hlt : g.deadlineFor r.receivedAt < c.committedAtMs
      · obtain ⟨x, hx, hrx, -⟩ := hc.missed r hr hlt
        exact Or.inr ⟨x, List.mem_append_left _ hx, hrx⟩
      · refine Or.inl ⟨c, List.mem_append_right _ (by simp), ?_⟩
        rw [hc.intents, mem_orderSlot]
        refine ⟨Pending.ofReceived r, List.mem_filter.mpr ⟨List.mem_map_of_mem hr, ?_⟩, rfl⟩
        exact decide_eq_true (UInt64.not_lt.mp hlt)

/-! ### The sequencer beside the gate -/

/-- Entries of the stages after the sequencer, and of anybody else who neither admits,
drops nor commits. -/
def Foreign (e : Entry) : Prop :=
  e.received? = none ∧ e.expired? = none ∧ e.committed? = none

instance : DecidablePred Foreign := fun _ => inferInstanceAs (Decidable (_ ∧ _ ∧ _))

/-- The sequencer and the gate on one log, with the other appenders. -/
def ingest (g : GuaranteeConfig) :
    Stage Entry (SequencerTask × Admission × Unit) (SequencerEvent ⊕ GateEvent ⊕ Entry) :=
  (sequencer g).par ((gate g).par (Stage.surroundings fun _ e => Foreign e))

/-- What the two stages leave in the log, and how they follow it. -/
structure IngestInv (g : GuaranteeConfig) (log : Log)
    (s : SequencerTask × Admission × Unit) : Prop where
  replayable : Replayable g log
  tracks : Tracks g log s.1
  gate : s.2.1 = Admission.recover log g
  history : AdmissionHistory g log

lemma ingest_upholds (g : GuaranteeConfig) :
    (ingest g).Upholds (fun _ e => e.committed? = none ∧ e.received? = none) (fun _ _ => True)
      (IngestInv g) := by
  have hgate := (gate_upholds_history (g := g)).beside (fun _ e => Foreign e)
    fun log a e _ he => he.1
  have hpar := (sequencer_upholds g).par hgate ?_ ?_
  · refine (hpar.mono (fun _ _ _ _ he => he) fun _ _ _ => trivial).congr fun log s => ?_
    constructor
    · rintro ⟨⟨hlog, htracks⟩, hgate, hist⟩
      exact ⟨hlog, htracks, hgate, hist⟩
    · rintro ⟨hlog, htracks, hgate, hist⟩
      exact ⟨⟨hlog, htracks⟩, hgate, hist⟩
  · rintro log task s e - - (⟨x, rfl⟩ | ⟨c, rfl, -⟩) <;> rfl
  · rintro log task s e - - (⟨r, rfl⟩ | he)
    · rfl
    · exact he.2.2

/-- **Slots are replayable from the log alone.**  For every schedule of admissions, reads
of any size, slot closes at any clock readings, crashes and restarts: slots are numbered
in log order; every slot obeys the law on top of the entries before it; recovery succeeds
at any later head; below the last cursor no admitted intent is lost; and none is committed
twice. -/
theorem slots_replayable (g : GuaranteeConfig)
    (es : List (SequencerEvent ⊕ GateEvent ⊕ Entry)) :
    let log : Log := ((ingest g).run es).log
    log.commits.map SlotCommitted.slot = List.range log.commits.length ∧
      (∀ pre c post, log = pre ++ .slotCommitted c :: post → SlotLaw g pre c) ∧
      (∀ head, log.head ≤ head →
        recover (recoverScan log) head = .ok (log.lastConsumed, log.commits.length)) ∧
      (∀ r ∈ (log.window 0 log.lastConsumed).received,
        (∃ c ∈ log.commits, r.intentId ∈ c.intents) ∨
          ∃ x ∈ log.expiries, x.intentId = r.intentId) ∧
      (log.commits.flatMap SlotCommitted.intents).Nodup := by
  intro log
  have hinv : IngestInv g log _ := (ingest_upholds g).run es
  have hlog := hinv.replayable
  refine ⟨hlog.slots_eq_range, hlog, ?_, hlog.accounted, hlog.intents_nodup hinv.history.ids⟩
  intro head hhead
  have hle : ¬ head < log.lastConsumed := not_lt.mpr (hlog.lastConsumed_le.trans hhead)
  rw [recoverScan_eq hlog, recover, if_neg hle]

/-- The first intent's submitter again, with the next nonce. -/
def followUp : Intent := { dummy 0 with nonce := 1 }

/-- Keccak-256, on the fixtures, on that intent, and on the slots that have it. -/
@[reducible] def followUpKeccak : Keccak256 where
  digest bytes :=
    if bytes = followUp.encoding then
      Bytes.ofNat 32 0x953a174e983ee3ce69d4a2801639ecb04b5ff35d153b32361f037d4b2fa63991
    else if bytes = commitPreimage 0 [⟨Bytes.ofNat 32
        0x953a174e983ee3ce69d4a2801639ecb04b5ff35d153b32361f037d4b2fa63991⟩] then
      Bytes.ofNat 32 0x60d69e7607340d7f27699332d7f83115dc2ca48975d35117d9cdf279ed76cd41
    else if bytes = commitPreimage 1 [⟨Bytes.ofNat 32
        0x953a174e983ee3ce69d4a2801639ecb04b5ff35d153b32361f037d4b2fa63991⟩] then
      Bytes.ofNat 32 0xa7f869b39f96b156cd729ece30aa732375bf1c5cca9cc5c704a162916428f321
    else fixtureKeccak.digest bytes

/-- One intent is admitted and committed, and its slot is attested and proven; the process
crashes, and after the restart its submitter's next intent is admitted and committed. -/
def provenThenFollowUp : List (SequencerEvent ⊕ GateEvent ⊕ Entry) :=
  [.inr (.inl (.submit (dummy 0) testNow none)), .inl .scan, .inl .readHead, .inl (.doorbell 1),
    .inl (.tick testNow), .inl .append,
    .inr (.inr (.slotAttested ⟨0, [1], ⟨Bytes.ofNat 32 1⟩⟩)),
    .inr (.inr (.slotsProven ⟨0, 0, ⟨.mock, [3], [4], Bytes.ofNat 32 5⟩⟩)),
    .inl .crash, .inl .scan, .inl .readHead, .inr (.inl (.submit followUp testNow none)),
    .inl (.doorbell 4), .inl (.tick (testNow + 5)), .inl .append]

omit [Keccak256] in
theorem slots_replayable_provenThenFollowUp :
    let log : Log := ((@ingest followUpKeccak testGuarantee).run provenThenFollowUp).log
    log.commits.map SlotCommitted.intents =
        [[@Intent.id followUpKeccak (dummy 0)], [@Intent.id followUpKeccak followUp]] ∧
      log.commits.map SlotCommitted.slot = List.range 2 ∧
        recover (recoverScan log) log.head = .ok (log.lastConsumed, 2) ∧
          ∀ r ∈ (log.window 0 log.lastConsumed).received,
            (∃ c ∈ log.commits, r.intentId ∈ c.intents) ∨
              ∃ x ∈ log.expiries, x.intentId = r.intentId := by
  intro log
  obtain ⟨hslots, -, hrecover, haccounted, -⟩ :=
    @slots_replayable followUpKeccak testGuarantee provenThenFollowUp
  have hcommits : log.commits.map SlotCommitted.intents =
      [[@Intent.id followUpKeccak (dummy 0)], [@Intent.id followUpKeccak followUp]] := by
    decide +kernel
  have hlength : log.commits.length = 2 := by
    simpa using congrArg List.length hcommits
  rw [← hlength]
  exact ⟨hcommits, hslots, hrecover log.head le_rfl, haccounted⟩

end Replay

end Zequencer
