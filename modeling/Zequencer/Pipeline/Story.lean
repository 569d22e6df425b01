/-
# Status tells the story of an intent

Nothing becomes of an intent before it is received, and the log is orderly at all times.  So in
every run status says of an intent what the log says of it.
-/
import Zequencer.Pipeline.Covering
import Zequencer.Projection.Story

namespace Zequencer

section Story

variable [Keccak256] {g : GuaranteeConfig} {cfg : BatchConfig} {log : Log}

lemma SequencerMove.disposes_received {task task' : SequencerTask} {e : SequencerEvent} {x : Entry}
    (hmove : SequencerMove g log task e task' (some x)) (htracks : Tracks g log task) :
    ∀ id ∈ x.disposes, ∃ r ∈ log.received, r.intentId = id := by
  have hbuffered : ∀ a b, ∀ p ∈ log.buffered a b, ∃ r ∈ log.received, r.intentId = p.id := by
    intro a b p hp
    obtain ⟨r, hr, rfl⟩ := List.mem_map.mp hp
    exact ⟨r, ((Log.window_sublist log a b).filterMap _).mem hr, rfl⟩
  cases hmove with
  | miss closedAt id deadline expired live cursor nextSlot =>
    intro missed hmissed
    obtain rfl := List.mem_singleton.mp hmissed
    obtain ⟨p, hp, hid, -⟩ :=
      htracks.buffered_of_expired (m := (missed, deadline)) List.mem_cons_self
    obtain rfl : p.id = missed := hid
    exact hbuffered _ _ p hp
  | slot closedAt live cursor nextSlot =>
    intro id hid
    have hlaw := slotLaw_slotEntry htracks
    change id ∈ (slotEntry closedAt live cursor nextSlot).intents at hid
    rw [hlaw.intents, mem_orderSlot] at hid
    obtain ⟨p, hp, rfl⟩ := hid
    exact hbuffered _ _ p (List.mem_of_mem_filter hp)

/-- In every run, nothing becomes of an intent before it is received. -/
lemma receivedFirst_run (es : List PipelineEvent) :
    Log.ReceivedFirst ((pipeline g cfg).run es).log := by
  have hnil : Log.ReceivedFirst [] := by
    intro pre x post h
    simp at h
  refine (((pipeline_upholds g cfg).strengthen (J := fun log _ => Log.ReceivedFirst log) hnil ?_
    fun _ _ _ _ _ => False.elim).run es).2
  intro (log : Log) s e hinv h
  refine Stage.append_toList (P := Log.ReceivedFirst) h fun x hx => h.append ?_
  by_cases he : ∀ p, e ≠ .inl p
  · obtain ⟨hexpired, hcommitted⟩ := hinv.disposes_nothing he hx
    intro id hid
    rw [Entry.disposes_of_none hexpired hcommitted] at hid
    simp at hid
  · push Not at he
    obtain ⟨p, rfl⟩ := he
    have hmove := sequencerStep_move g log s.1 p
    rw [show (sequencerStep g log s.1 p).2 = _ from hx] at hmove
    exact hmove.disposes_received hinv.tracks

/-- **Status says what the log says.**  In every run of the pipeline, with any failures of the
enclave and the backend, crashes anywhere and recoveries that miss nothing, what status reports
of an intent is its story in the log. -/
theorem status_tells_the_story (g : GuaranteeConfig) (cfg : BatchConfig) (es : List PipelineEvent)
    (hes : (pipeline g cfg).Along PipelineCovers es) (id : IntentId) :
    (Projections.ofLog g ((pipeline g cfg).run es).log).reported id =
      Log.story ((pipeline g cfg).run es).log id :=
  reported_eq_story (orderly_take_covering es hes) (receivedFirst_run es) id

omit [Keccak256] in
theorem status_tells_the_story_provenRun :
    let log : Log := ((@pipeline fixtureKeccak testGuarantee ⟨1, ⟨5, 0⟩⟩).run provenRun).log
    (Projections.ofLog testGuarantee log).reported (@Intent.id fixtureKeccak (dummy 0)) =
        log.story (@Intent.id fixtureKeccak (dummy 0)) ∧
      log.story (@Intent.id fixtureKeccak (dummy 0)) = some .finalProven :=
  have hquiet : (@pipeline fixtureKeccak testGuarantee ⟨1, ⟨5, 0⟩⟩).Along PipelineQuiet
      provenRun := by decide +kernel
  ⟨@status_tells_the_story fixtureKeccak testGuarantee ⟨1, ⟨5, 0⟩⟩ provenRun
    (hquiet.mono fun _ _ _ => PipelineQuiet.pipelineCovers) _, by decide +kernel⟩

end Story

end Zequencer
