/-
# What a client reads

The server answers from a read model that lags behind the log.  A projector that is not restarted
only catches up, so two answers on one intent are those of two prefixes of one log, the earlier
one first: what was answered before is still so, and the status has only moved along the edges of
the machine.
-/
import Zequencer.Pipeline.Covering
import Zequencer.Projection.Answers
import Zequencer.Projection.Kept

namespace Zequencer

/-! ### The projector catches up -/

section Projector

variable {g : GuaranteeConfig} {log : Log}

lemma ProjectorTracks.cursor_le {s : Projections × ProjectorTask} (h : ProjectorTracks g log s)
    {e : ProjectorEvent} (he : e ≠ .restart) :
    s.1.cursor ≤ (projectorStep g log s e).1.cursor := by
  obtain ⟨p, task⟩ := s
  obtain ⟨k, hk, rfl, hreads⟩ := h
  cases task with
  | waiting =>
    cases e with
    | restart => exact absurd rfl he
    | _ => exact le_rfl
  | reading cursor =>
    cases e with
    | restart => exact absurd rfl he
    | readTail fault => cases fault <;> exact le_rfl
    | _ => exact le_rfl
  | holding batch =>
    cases e with
    | restart => exact absurd rfl he
    | apply =>
      have hbatch : batch = (log.readFrom k).take batch.length := List.prefix_iff_eq_take.mp hreads
      have happly := Projections.applyBatch_ofLog g log hk batch.length
      rw [Projections.cursor_ofLog, List.length_take, min_eq_left hk, ← hbatch] at happly
      show (Projections.ofLog g (log.take k)).cursor ≤
        ((Projections.ofLog g (log.take k)).applyBatch batch).cursor
      rw [happly, Projections.cursor_ofLog, Projections.cursor_ofLog, List.length_take,
        List.length_take]
      omega
    | _ => exact le_rfl

end Projector

section Reads

variable [Keccak256] {g : GuaranteeConfig} {cfg : BatchConfig}

/-! ### The node -/

omit [Keccak256] in
lemma projector_silent (log : Log) (s : Projections × ProjectorTask) (e : ProjectorEvent) :
    ((projector g).step log s e).2 = none := rfl

lemma node_upholds (g : GuaranteeConfig) (cfg : BatchConfig) :
    (node g cfg).Upholds (fun _ _ => False) PipelineWrites
      (fun log s => PipelineInv g log s.1 ∧ ProjectorTracks g log s.2) := by
  have hall := (pipeline_upholds g cfg).par (projector_upholds (g := g))
    (fun _ _ _ _ _ _ _ => trivial) (fun _ _ _ _ _ _ hx => hx)
  exact hall.mono (fun _ _ _ _ => False.elim) fun _ _ hx => hx.resolve_right not_false

lemma orderly_take_node {es : List (PipelineEvent ⊕ ProjectorEvent)}
    (hes : (node g cfg).Along (Stage.onLeft PipelineCovers) es) (n : ℕ) :
    Orderly cfg.batchSize (((node g cfg).run es).log.take n) := by
  have hlog : ((node g cfg).run es).log = _ := (Stage.run_par_of_silent projector_silent es).1
  rw [hlog]
  exact orderly_take_covering _ (hes.of_par_silent projector_silent) n

/-- Two read models of a node, the later one of a longer prefix. -/
lemma node_reads {es es' : List (PipelineEvent ⊕ ProjectorEvent)}
    (hes : (node g cfg).Along (Stage.onLeft PipelineCovers) (es ++ es'))
    (hrestart : .restart ∉ es'.filterMap Sum.getRight?) :
    ∃ log rest, ((node g cfg).run es).state.2.1 = Projections.ofLog g log ∧
      ((node g cfg).run (es ++ es')).state.2.1 = Projections.ofLog g (log ++ rest) ∧
        ∀ n, Orderly cfg.batchSize ((log ++ rest).take n) := by
  have hcursor : ((node g cfg).run es).state.2.1.cursor ≤
      ((node g cfg).run (es ++ es')).state.2.1.cursor := by
    induction es' using List.reverseRecOn with
    | nil => rw [List.append_nil]
    | append_singleton es' e ih =>
      rw [← List.append_assoc] at hes ⊢
      rw [List.filterMap_append, List.mem_append, not_or] at hrestart
      refine (ih hes.init hrestart.1).trans ?_
      rw [Stage.run_concat]
      have htracks := ((node_upholds g cfg).run (es ++ es')).2
      rcases e with e | e
      · exact le_rfl
      · exact htracks.cursor_le fun he => hrestart.2 (by simp [he])
  obtain ⟨k, hk, hp, -⟩ := ((node_upholds g cfg).run es).2
  obtain ⟨k', hk', hp', -⟩ := ((node_upholds g cfg).run (es ++ es')).2
  rw [hp, hp', Projections.cursor_ofLog, Projections.cursor_ofLog, List.length_take,
    List.length_take, min_eq_left hk, min_eq_left hk'] at hcursor
  obtain ⟨tail, htail⟩ := (node g cfg).log_prefix_run_append es es'
  have htake : ((node g cfg).run es).log.take k =
      (((node g cfg).run (es ++ es')).log.take k').take k := by
    rw [List.take_take, min_eq_left hcursor, ← htail, List.take_append_of_le_length hk]
  refine ⟨((node g cfg).run es).log.take k, (((node g cfg).run (es ++ es')).log.take k').drop k,
    hp, ?_, ?_⟩
  · rw [htake, List.take_append_drop, hp']
  · intro n
    rw [htake, List.take_append_drop, List.take_take]
    exact orderly_take_node hes _

omit [Keccak256] in
/-- An answer is about the id that the path spells. -/
lemma status_eq_ok {p : Projections} {head : ℕ} {path : String} {s : StatusResponse}
    (h : status p head path = .ok s) :
    ∃ id, IntentId.parse path = some id ∧ p.statusOf id = some s := by
  unfold status at h
  split at h
  · simp at h
  · next id hid =>
    split at h
    · next s₀ hs₀ => exact ⟨id, hid, by rw [hs₀, Except.ok.inj h]⟩
    · simp at h

omit [Keccak256] in
lemma receipt_eq_ok {p : Projections} {head : ℕ} {nowMs : UInt64} {path : String} {r : Receipt}
    (h : receipt p head nowMs path = .ok r) :
    ∃ id, IntentId.parse path = some id ∧ p.receiptOf id nowMs = some r := by
  unfold receipt at h
  split at h
  · simp at h
  · next id hid =>
    split at h
    · next r₀ hr₀ => exact ⟨id, hid, by rw [hr₀, Except.ok.inj h]⟩
    · simp at h

omit [Keccak256] in
lemma status_finds_iff_receipt_finds {p : Projections} {head head' : ℕ} {nowMs : UInt64}
    {path : String} :
    (∃ s, status p head path = .ok s) ↔ ∃ r, receipt p head' nowMs path = .ok r := by
  have hnone : ∀ id, p.statusOf id ≠ none ↔ p.receiptOf id nowMs ≠ none := fun id =>
    (Projections.statusOf_eq_none_iff.trans Projections.receiptOf_eq_none_iff.symm).not
  constructor
  · rintro ⟨s, hs⟩
    obtain ⟨id, hid, hstatus⟩ := status_eq_ok hs
    obtain ⟨r, hr⟩ := Option.ne_none_iff_exists'.mp ((hnone id).mp (by simp [hstatus]))
    exact ⟨r, by simp only [receipt, hid, hr]⟩
  · rintro ⟨r, hr⟩
    obtain ⟨id, hid, hreceipt⟩ := receipt_eq_ok hr
    obtain ⟨s, hs⟩ := Option.ne_none_iff_exists'.mp ((hnone id).mpr (by simp [hreceipt]))
    exact ⟨s, by simp only [status, hid, hs]⟩

/-- **Reads never go back.**  In every run of the node with recoveries that miss nothing, and
failures and crashes anywhere, as long as the projector is not restarted between two answers:
once status or receipt has found an intent both find it again; status has moved along the edges
of the machine, an intent in a slot is in that slot, and what the receipt showed is kept. -/
theorem reads_never_go_back (g : GuaranteeConfig) (cfg : BatchConfig)
    (es es' : List (PipelineEvent ⊕ ProjectorEvent))
    (hes : (node g cfg).Along (Stage.onLeft PipelineCovers) (es ++ es'))
    (hrestart : .restart ∉ es'.filterMap Sum.getRight?) (path : String) (head head' : ℕ)
    (nowMs nowMs' : UInt64) :
    let p := ((node g cfg).run es).state.2.1
    let p' := ((node g cfg).run (es ++ es')).state.2.1
    (∀ s, status p head path = .ok s →
        (∃ s', status p' head' path = .ok s' ∧
          Relation.ReflTransGen Lifecycle.Edge (some s.lifecycle) (some s'.lifecycle) ∧
            ∀ slot, s.slot = some slot → s'.slot = some slot) ∧
          ∃ r', receipt p' head' nowMs' path = .ok r') ∧
      ∀ r, receipt p head nowMs path = .ok r →
        (∃ r', receipt p' head' nowMs' path = .ok r' ∧ r.KeptBy r') ∧
          ∃ s', status p' head' path = .ok s' := by
  intro p p'
  obtain ⟨log, rest, hp, hp', horderly⟩ := node_reads hes hrestart
  have hpeq : p = Projections.ofLog g log := hp
  have hpeq' : p' = Projections.ofLog g (log ++ rest) := hp'
  rw [hpeq, hpeq']
  constructor
  · intro s hs
    obtain ⟨id, hid, hstatus⟩ := status_eq_ok hs
    obtain ⟨s', hs', hkept⟩ := Projections.statusOf_keptBy horderly hstatus
    have hfound : status (Projections.ofLog g (log ++ rest)) head' path = .ok s' := by
      simp only [status, hid, hs']
    exact ⟨⟨s', hfound, hkept⟩, status_finds_iff_receipt_finds.mp ⟨s', hfound⟩⟩
  · intro r hr
    obtain ⟨id, hid, hreceipt⟩ := receipt_eq_ok hr
    obtain ⟨r', hr', hkept⟩ := Projections.receiptOf_keptBy horderly hreceipt nowMs'
    have hfound : receipt (Projections.ofLog g (log ++ rest)) head' nowMs' path = .ok r' := by
      simp only [receipt, hid, hr']
    exact ⟨⟨r', hfound, hkept⟩, status_finds_iff_receipt_finds.mpr ⟨r', hfound⟩⟩

/-- One intent is admitted and committed, and the projector catches up. -/
def readRun : List (PipelineEvent ⊕ ProjectorEvent) :=
  (provenRun.take 6).map Sum.inl ++ [.inr .doorbell, .inr (.readTail none), .inr .apply]

/-- The rest of the way to the proof, and the projector catches up again. -/
def laterRun : List (PipelineEvent ⊕ ProjectorEvent) :=
  (provenRun.drop 6).map Sum.inl ++ [.inr .doorbell, .inr (.readTail none), .inr .apply]

omit [Keccak256] in
theorem reads_never_go_back_laterRun :
    let p := ((@node fixtureKeccak testGuarantee ⟨1, ⟨5, 0⟩⟩).run (readRun ++ laterRun)).state.2.1
    (∃ s', status p 4 (hexEncode (@Intent.id fixtureKeccak (dummy 0)).bytes.toList) = .ok s' ∧
      Relation.ReflTransGen Lifecycle.Edge (some .sequenced) (some s'.lifecycle) ∧
        s'.slot = some 0) ∧
      ∃ r', receipt p 4 testNow (hexEncode (@Intent.id fixtureKeccak (dummy 0)).bytes.toList) =
        .ok r' := by
  intro p
  have hquiet : (@node fixtureKeccak testGuarantee ⟨1, ⟨5, 0⟩⟩).Along
      (Stage.onLeft PipelineQuiet) (readRun ++ laterRun) := by decide +kernel
  have hcovers : (@node fixtureKeccak testGuarantee ⟨1, ⟨5, 0⟩⟩).Along
      (Stage.onLeft PipelineCovers) (readRun ++ laterRun) := by
    refine hquiet.mono ?_
    rintro log s (e | e) h
    · exact h.pipelineCovers
    · trivial
  obtain ⟨⟨s', hs', hreaches, hslot⟩, hreceipt⟩ := (@reads_never_go_back fixtureKeccak testGuarantee
    ⟨1, ⟨5, 0⟩⟩ readRun laterRun hcovers (by decide +kernel)
    (hexEncode (@Intent.id fixtureKeccak (dummy 0)).bytes.toList) 2 4 testNow testNow).1
      ⟨@Intent.id fixtureKeccak (dummy 0), .sequenced, some 0⟩ (by decide +kernel)
  exact ⟨⟨s', hs', hreaches, hslot 0 rfl⟩, hreceipt⟩

end Reads

end Zequencer
