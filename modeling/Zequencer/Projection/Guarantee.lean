/-
# The inclusion guarantee, end to end

Admission refuses what cannot be promised, the sequencer commits what is in time and
records what is not, and the receipt reports one or the other.  The three compute the
deadline of an intent on their own, at different moments; over every run they agree, and
no boundary instant falls between them.
-/
import Zequencer.Projection.Lifecycle
import Zequencer.Sequencer.Disposition

namespace Zequencer

section Guarantee

variable [Keccak256] {g : GuaranteeConfig} {log : Log}

/-! ### What the log says of an intent -/

/-- Every recorded miss is of an admitted intent that was past its deadline. -/
def MissesAreLate (g : GuaranteeConfig) (log : Log) : Prop :=
  ∀ x ∈ log.expiries, ∃ r ∈ log.received, r.intentId = x.intentId ∧
    x.guaranteeDeadlineMs = g.deadlineFor r.receivedAt ∧ g.deadlineFor r.receivedAt < x.atMs

omit [Keccak256] in
lemma MissesAreLate.append_of_none {e : Entry} (h : MissesAreLate g log)
    (he : e.expired? = none) : MissesAreLate g (log ++ [e]) := by
  intro x hx
  rw [Log.expiries_concat_of_none he] at hx
  obtain ⟨r, hr, hlate⟩ := h x hx
  exact ⟨r, Log.mem_received_append_left hr _, hlate⟩

omit [Keccak256] in
/-- What a close is still to record is buffered, and past its deadline. -/
lemma Tracks.received_of_expired {closedAt : UInt64} {m : IntentId × UInt64}
    {expired : List (IntentId × UInt64)} {live : List Pending} {cursor nextSlot : ℕ}
    (h : Tracks g log (.closing closedAt expired live cursor nextSlot)) (hm : m ∈ expired) :
    ∃ r ∈ log.received, r.intentId = m.1 ∧ m.2 = g.deadlineFor r.receivedAt ∧
      g.deadlineFor r.receivedAt < closedAt := by
  obtain ⟨p, hp, hid, hdeadline, hlt⟩ := h.buffered_of_expired hm
  obtain ⟨r, hr, rfl⟩ := List.mem_map.mp hp
  have hlog : r ∈ log.received := ((Log.window_sublist log _ _).filterMap _).mem hr
  exact ⟨r, hlog, hid, hdeadline, hlt⟩

lemma SequencerMove.missesAreLate {task task' : SequencerTask} {e : SequencerEvent}
    {o : Option Entry} (hmove : SequencerMove g log task e task' o) (htask : Tracks g log task)
    (h : MissesAreLate g log) : MissesAreLate g (log ++ o.toList) := by
  cases hmove with
  | idle | stop | scan | readHead | timer | read | close => simpa using h
  | slot => exact h.append_of_none rfl
  | miss closedAt id deadline expired live cursor nextSlot =>
    intro x hx
    rw [Log.expiries_append, List.mem_append] at hx
    rcases hx with hx | hx
    · obtain ⟨r, hr, hlate⟩ := h x hx
      exact ⟨r, Log.mem_received_append_left hr _, hlate⟩
    · obtain rfl : x = ⟨id, deadline, closedAt⟩ := by
        simpa [Log.expiries, Entry.expired?] using hx
      obtain ⟨r, hr, hid, hdeadline, hlt⟩ :=
        htask.received_of_expired (m := (id, deadline)) List.mem_cons_self
      exact ⟨r, Log.mem_received_append_left hr _, hid, hdeadline, hlt⟩

lemma missesAreLate_run (g : GuaranteeConfig)
    (es : List (SequencerEvent ⊕ GateEvent ⊕ Entry)) :
    MissesAreLate g ((ingest g).run es).log := by
  refine (ingest_upholds g).along_left (C := fun _ _ _ => True)
    (J := fun log _ => MissesAreLate g log) (by simp [MissesAreLate]) ?_ ?_ es ?_
  · intro log task t e hinv h _
    exact (sequencerStep_move g log task e).missesAreLate hinv.tracks h
  · intro log task t d x _ h hx
    exact h.append_of_none (ingest_other_emits hx).1
  · exact Stage.along_onLeft_true es

/-- Every committed intent is in time for its promise, and the promise for the client. -/
lemma Replayable.committed_in_time (h : Replayable g log) (hist : AdmissionHistory g log)
    {c : SlotCommitted} (hc : c ∈ log.commits) {id : IntentId} (hid : id ∈ c.intents) :
    ∃ r ∈ log.received, r.intentId = id ∧ c.committedAtMs ≤ g.deadlineFor r.receivedAt ∧
      g.deadlineFor r.receivedAt ≤ r.intent.deadlineMs := by
  obtain ⟨pre, post, hlog, hlaw⟩ := h.law_of_mem hc
  rw [hlaw.intents, mem_orderSlot] at hid
  obtain ⟨p, hp, rfl⟩ := hid
  obtain ⟨hpb, hpd⟩ := List.mem_filter.mp hp
  obtain ⟨r, hr, rfl⟩ := List.mem_map.mp hpb
  have hpre : r ∈ pre.received := ((Log.window_sublist pre _ _).filterMap _).mem hr
  have hmem : r ∈ log.received := by
    rw [hlog, Log.received_append]
    exact List.mem_append_left _ hpre
  exact ⟨r, hmem, rfl, of_decide_eq_true hpd, (hist.admissible r hmem).window⟩

/-- **The inclusion guarantee is sound.**  In every run, whatever the interleaving, the
clock readings and the restarts: a committed intent closed within its promise and the
promise within the client's deadline; a recorded miss carries the promise, and comes after
it; and a receipt read off any prefix of the log says `met` and `missed` only with times
that bear it out. -/
theorem inclusion_guarantee (g : GuaranteeConfig)
    (es : List (SequencerEvent ⊕ GateEvent ⊕ Entry)) :
    let log : Log := ((ingest g).run es).log
    (∀ c ∈ log.commits, ∀ id ∈ c.intents, ∃ r ∈ log.received, r.intentId = id ∧
        c.committedAtMs ≤ g.deadlineFor r.receivedAt ∧
          g.deadlineFor r.receivedAt ≤ r.intent.deadlineMs) ∧
      (∀ x ∈ log.expiries, ∃ r ∈ log.received, r.intentId = x.intentId ∧
        x.guaranteeDeadlineMs = g.deadlineFor r.receivedAt ∧
          g.deadlineFor r.receivedAt < x.atMs) ∧
      ∀ n id nowMs receipt,
        (Projections.ofLog g (log.take n)).receiptOf id nowMs = some receipt →
          (∀ slot committedAt, receipt.guarantee.state = .met slot committedAt →
            committedAt ≤ receipt.guarantee.deadlineMs ∧
              receipt.guarantee.deadlineMs ≤ receipt.guarantee.intentDeadlineMs) ∧
          ∀ deadline missedAt, receipt.guarantee.state = .missed deadline missedAt →
            deadline = receipt.guarantee.deadlineMs ∧ deadline < missedAt := by
  intro log
  have hinv : IngestInv g log _ := (ingest_upholds g).run es
  have hcommitted : ∀ c ∈ log.commits, ∀ id ∈ c.intents, ∃ r ∈ log.received,
      r.intentId = id ∧ c.committedAtMs ≤ g.deadlineFor r.receivedAt ∧
        g.deadlineFor r.receivedAt ≤ r.intent.deadlineMs :=
    fun c hc id hid => hinv.replayable.committed_in_time hinv.history hc hid
  have hmissed : MissesAreLate g log := missesAreLate_run g es
  -- ids are admitted once, and slots numbered once
  have hid : ∀ r ∈ log.received, ∀ r' ∈ log.received, r.intentId = r'.intentId → r = r' :=
    fun r hr r' hr' => List.inj_on_of_nodup_map hinv.history.ids hr hr'
  have hslot : ∀ c ∈ log.commits, ∀ c' ∈ log.commits, c.slot = c'.slot → c = c' :=
    fun c hc c' hc' => List.inj_on_of_nodup_map
      (hinv.replayable.slots_eq_range ▸ List.nodup_range) hc hc'
  refine ⟨hcommitted, hmissed, fun n id nowMs receipt hreceipt => ?_⟩
  obtain ⟨row, l, hrow, -, rfl⟩ := Projections.receiptOf_eq_some hreceipt
  have hsourced := Projections.intentRow_sourced g (log.take n) id row hrow
  obtain ⟨r, hr, rfl, hat, hdeadline⟩ := hsourced.received
  have hrlog : r ∈ log.received := ((List.take_sublist n log).filterMap _).mem hr
  simp only [Projections.receiptAt, Projections.guarantee_ofLog, ← hat, ← hdeadline]
  constructor
  · intro slot committedAt hstate
    obtain ⟨hrowslot, sr, hsr, rfl⟩ := Projections.guaranteeState_eq_met hrow hstate
    obtain ⟨c, hc, rfl, hidc⟩ := hsourced.slot slot hrowslot
    obtain ⟨c', hc', hcc', hclose, -⟩ := Projections.slotRow_sourced g _ _ sr hsr
    have hclog : c ∈ log.commits := ((List.take_sublist n log).filterMap _).mem hc
    have hclog' : c' ∈ log.commits := ((List.take_sublist n log).filterMap _).mem hc'
    obtain rfl := hslot c' hclog' c hclog hcc'
    obtain ⟨r', hr', hrr', hle, hle'⟩ := hcommitted c' hclog' _ hidc
    obtain rfl := hid r' hr' r hrlog hrr'
    rw [← hclose]
    exact ⟨hle, hle'⟩
  · intro deadline missedAt hstate
    have hexpired := hsourced.expired _ _ (Projections.guaranteeState_eq_missed hrow hstate)
    have hxlog : ⟨r.intentId, deadline, missedAt⟩ ∈ log.expiries :=
      ((List.take_sublist n log).filterMap _).mem hexpired
    obtain ⟨r', hr', hrr', hdeadline', hlt⟩ := hmissed _ hxlog
    obtain rfl := hid r' hr' r hrlog hrr'
    obtain rfl : deadline = _ := hdeadline'
    exact ⟨rfl, hlt⟩

end Guarantee

end Zequencer
