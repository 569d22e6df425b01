/-
# Nonce order over the chain of slots

Admission receives the intents of a submitter in nonce order; a slot takes the intents of a
window of the log, the windows of consecutive slots follow one another, and within a slot
every lane is in nonce order.  So the order holds over all slots together, whichever intents
expire and however often the sequencer restarts.
-/
import Zequencer.Sequencer.Policy
import Zequencer.Sequencer.Replay

namespace Zequencer

open Merge

namespace Log

/-- The admitted intent with an id. -/
def receivedOf? (log : Log) (id : IntentId) : Option IntentReceived :=
  log.received.find? fun r => r.intentId = id

/-- The intents of all slots, in slot order. -/
def sequenced (log : Log) : List IntentReceived :=
  (log.commits.flatMap SlotCommitted.intents).filterMap log.receivedOf?

end Log

/-- The nonces of one submitter strictly increase. -/
def NoncesIncrease (rs : List IntentReceived) : Prop :=
  rs.Pairwise fun r r' => r.intent.submitter = r'.intent.submitter → r.intent.nonce < r'.intent.nonce

variable {g : GuaranteeConfig} {log : Log}

lemma NoncesIncrease.queue {rs : List IntentReceived} (h : NoncesIncrease rs)
    (k : Market × Address) :
    (queue Pending.lane k (rs.map Pending.ofReceived)).Pairwise fun p q => p.nonce < q.nonce := by
  have hmap : (rs.map Pending.ofReceived).Pairwise
      fun p q => p.submitter = q.submitter → p.nonce < q.nonce := by
    rw [List.pairwise_map]
    exact h
  refine (hmap.sublist List.filter_sublist).imp_of_mem fun hp hq hlt => hlt ?_
  have hlane := (mem_queue.mp hp).2.trans (mem_queue.mp hq).2.symm
  exact congrArg Prod.snd hlane

/-- Admission leaves distinct nonces in every buffer. -/
lemma NoncesIncrease.distinctNonces (h : NoncesIncrease log.received) (a b : ℕ) :
    DistinctNonces (log.buffered a b) := by
  have hwindow : NoncesIncrease (log.window a b).received :=
    h.sublist ((Log.window_sublist log a b).filterMap _)
  rw [DistinctNonces, Log.buffered, List.pairwise_map]
  exact hwindow.imp fun hlt hlane => UInt64.ne_of_lt (hlt (congrArg Prod.snd hlane))

theorem buffer_distinctNonces [Keccak256] (g : GuaranteeConfig)
    (es : List (SequencerEvent ⊕ GateEvent ⊕ Entry)) {buffer : List Pending} {cursor nextSlot : ℕ}
    (h : ((ingest g).run es).state.1 = .waiting buffer cursor nextSlot) :
    DistinctNonces buffer := by
  have hinv := (ingest_upholds g).run es
  have htracks := hinv.tracks
  rw [h] at htracks
  obtain ⟨-, rfl⟩ := htracks
  exact NoncesIncrease.distinctNonces hinv.history.nonces _ _

/-- The lanes of a slot are part of the lanes of its window. -/
lemma SlotLaw.exists_sequence [Keccak256] {c : SlotCommitted} (hc : SlotLaw g log c)
    (h : NoncesIncrease log.received) :
    ∃ out : List Pending, c.intents = out.map Pending.id ∧ ∀ k,
      (queue Pending.lane k out).Sublist
        (queue Pending.lane k (log.buffered log.lastConsumed c.consumedUpTo)) := by
  obtain ⟨out, hout, hordered⟩ := exists_orderSlot
    ((log.buffered log.lastConsumed c.consumedUpTo).filter
      fun p => c.committedAtMs ≤ g.deadlineFor p.receivedAt)
  refine ⟨out, hc.intents.trans hout, fun k => ?_⟩
  have hsub : (queue Pending.lane k ((log.buffered log.lastConsumed c.consumedUpTo).filter
      fun p => c.committedAtMs ≤ g.deadlineFor p.receivedAt)).Sublist
        (queue Pending.lane k (log.buffered log.lastConsumed c.consumedUpTo)) :=
    List.filter_sublist.filter _
  have hwindow : NoncesIncrease (log.window log.lastConsumed c.consumedUpTo).received :=
    h.sublist ((Log.window_sublist log _ _).filterMap _)
  -- the lane is in nonce order already
  rw [hordered.lanes, byNonce_eq_self ((hwindow.queue k).sublist hsub)]
  exact hsub

lemma Replayable.exists_sequence [Keccak256] (hlog : Replayable g log)
    (h : NoncesIncrease log.received) :
    ∃ out : List Pending, log.commits.flatMap SlotCommitted.intents = out.map Pending.id ∧ ∀ k,
      (queue Pending.lane k out).Sublist
        (queue Pending.lane k (log.buffered 0 log.lastConsumed)) := by
  revert h
  refine Replayable.induct (P := fun log => NoncesIncrease log.received → ∃ out : List Pending,
    log.commits.flatMap SlotCommitted.intents = out.map Pending.id ∧ ∀ k,
      (queue Pending.lane k out).Sublist
        (queue Pending.lane k (log.buffered 0 log.lastConsumed))) ?_ ?_ ?_ hlog
  · exact fun _ => ⟨[], rfl, fun k => List.Sublist.refl _⟩
  · intro log e hlog ih he h
    rw [Log.received_append] at h
    obtain ⟨out, hout, hsub⟩ := ih (List.pairwise_append.mp h).1
    rw [Log.commits_concat_of_none he, Log.lastConsumed_append_of_none he,
      Log.buffered_append hlog.lastConsumed_le]
    exact ⟨out, hout, hsub⟩
  · intro log c hlog ih hc h
    rw [Log.received_append] at h
    have hbefore : NoncesIncrease log.received := (List.pairwise_append.mp h).1
    obtain ⟨out, hout, hsub⟩ := ih hbefore
    obtain ⟨block, hblock, hblocksub⟩ := hc.exists_sequence hbefore
    refine ⟨out ++ block, ?_, fun k => ?_⟩
    · rw [Log.commits_append, List.flatMap_append, hout, List.map_append, ← hblock]
      simp [Log.commits, Entry.committed?]
    · rw [Log.lastConsumed_append_slot, Log.buffered_append hc.upTo,
        Log.buffered_split (Nat.zero_le _) hc.consumes, queue_append, queue_append]
      exact (hsub k).append (hblocksub k)

/-- An id of the log leads back to what was buffered under it. -/
lemma map_ofReceived_filterMap_receivedOf? {out : List Pending}
    (hids : (log.received.map IntentReceived.intentId).Nodup)
    (hout : ∀ p ∈ out, ∃ r ∈ log.received, Pending.ofReceived r = p) :
    ((out.map Pending.id).filterMap log.receivedOf?).map Pending.ofReceived = out := by
  induction out with
  | nil => rfl
  | cons p out ih =>
    obtain ⟨r, hr, rfl⟩ := hout p List.mem_cons_self
    have hfind : log.receivedOf? (Pending.ofReceived r).id = some r := by
      cases h : log.receivedOf? (Pending.ofReceived r).id with
      | none =>
        have hnone := List.find?_eq_none.mp h r hr
        exact absurd (decide_eq_true rfl) hnone
      | some r' =>
        have hid := List.find?_some
          (p := fun x : IntentReceived => decide (x.intentId = (Pending.ofReceived r).id)) h
        exact congrArg some (List.inj_on_of_nodup_map hids (List.mem_of_find?_eq_some h) hr
          (of_decide_eq_true hid))
    rw [List.map_cons, List.filterMap_cons_some hfind, List.map_cons,
      ih fun q hq => hout q (List.mem_cons_of_mem _ hq)]

/-- **Nonce order holds over the whole chain of slots.**  In every run of the gate and the
sequencer, with crashes and restarts anywhere and any clock readings: the slots are numbered
in log order, every id in them is of an admitted intent, and over all slots together the
nonces of one submitter in one market strictly increase. -/
theorem nonce_order [Keccak256] (g : GuaranteeConfig)
    (es : List (SequencerEvent ⊕ GateEvent ⊕ Entry)) :
    let log : Log := ((ingest g).run es).log
    log.commits.map SlotCommitted.slot = List.range log.commits.length ∧
      log.sequenced.map IntentReceived.intentId = log.commits.flatMap SlotCommitted.intents ∧
      ∀ a m, ((log.sequenced.filter
        fun r => r.intent.submitter = a ∧ r.intent.market = m).map
          fun r => r.intent.nonce).Pairwise (· < ·) := by
  intro log
  have hinv : IngestInv g log _ := (ingest_upholds g).run es
  have hnonces : NoncesIncrease log.received := hinv.history.nonces
  obtain ⟨out, hout, hsub⟩ := hinv.replayable.exists_sequence hnonces
  have hwindow : NoncesIncrease (log.window 0 log.lastConsumed).received :=
    hnonces.sublist ((Log.window_sublist log _ _).filterMap _)
  have hmem : ∀ p ∈ out, ∃ r ∈ log.received, Pending.ofReceived r = p := by
    intro p hp
    have hlane := (hsub p.lane).mem (mem_queue.mpr ⟨hp, rfl⟩)
    obtain ⟨r, hr, hrp⟩ := List.mem_map.mp (mem_queue.mp hlane).1
    exact ⟨r, ((Log.window_sublist log _ _).filterMap _).mem hr, hrp⟩
  have hseq : log.sequenced.map Pending.ofReceived = out := by
    rw [Log.sequenced, hout]
    exact map_ofReceived_filterMap_receivedOf? hinv.history.ids hmem
  refine ⟨hinv.replayable.slots_eq_range, ?_, fun a m => ?_⟩
  · rw [hout, ← hseq, List.map_map]
    rfl
  · have hlane := (hwindow.queue (m, a)).sublist (hsub (m, a))
    rw [← hseq, queue, List.filter_map, List.pairwise_map] at hlane
    rw [List.pairwise_map]
    have hsame : log.sequenced.filter (fun r => r.intent.submitter = a ∧ r.intent.market = m) =
        log.sequenced.filter ((fun p => decide (p.lane = (m, a))) ∘ Pending.ofReceived) := by
      refine List.filter_congr fun r _ => ?_
      have hlane : (Pending.ofReceived r).lane = (m, a) ↔
          r.intent.market = m ∧ r.intent.submitter = a := Prod.mk.injEq _ _ _ _ ▸ Iff.rfl
      rw [Function.comp_apply, decide_eq_decide, hlane, and_comm]
    rw [hsame]
    exact hlane

theorem nonce_order_provenThenFollowUp :
    let log : Log := ((@ingest followUpKeccak testGuarantee).run provenThenFollowUp).log
    log.sequenced.map (fun r => r.intent.nonce) = [0, 1] ∧
      log.sequenced.map IntentReceived.intentId = log.commits.flatMap SlotCommitted.intents ∧
        ((log.sequenced.filter fun r => r.intent.submitter = (dummy 0).submitter ∧
          r.intent.market = (dummy 0).market).map fun r => r.intent.nonce).Pairwise (· < ·) := by
  intro log
  obtain ⟨-, hids, hnonces⟩ := @nonce_order followUpKeccak testGuarantee provenThenFollowUp
  exact ⟨by decide +kernel, hids, hnonces (dummy 0).submitter (dummy 0).market⟩

end Zequencer
