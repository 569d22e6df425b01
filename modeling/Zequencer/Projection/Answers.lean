/-
# What the server answers

The read model is at all times that of a prefix of the log, however the rounds of the
projector interleave with appends, and an admitted intent is in the log before its
submission is answered.  So a miss on an admitted intent is told apart from an unknown one,
and what is found names the place in the log that the submission was told.
-/
import Zequencer.Admission.History
import Zequencer.Projection.Lifecycle
import Zequencer.Source.Api

namespace Zequencer

variable {g : GuaranteeConfig} {log : Log} {id : IntentId}

/-! ### What is found -/

/-- `pos` is where an id is received first. -/
def FirstReceived (log : Log) (id : IntentId) (pos : ℕ) : Prop :=
  (∃ r, log[pos]? = some (.intentReceived r) ∧ r.intentId = id) ∧
    ∀ (q : ℕ) r, log[q]? = some (.intentReceived r) → r.intentId = id → pos ≤ q

lemma FirstReceived.eq {pos pos' : ℕ} (h : FirstReceived log id pos)
    (h' : FirstReceived log id pos') : pos = pos' := by
  obtain ⟨⟨r, hr, hid⟩, hle⟩ := h
  obtain ⟨⟨r', hr', hid'⟩, hle'⟩ := h'
  exact le_antisymm (hle pos' r' hr' hid') (hle' pos r hr hid)

lemma FirstReceived.append {pos : ℕ} (h : FirstReceived log id pos) (rest : Log) :
    FirstReceived (log ++ rest) id pos := by
  obtain ⟨⟨r, hr, hid⟩, hle⟩ := h
  have hlt : pos < log.length := (List.getElem?_eq_some_iff.mp hr).1
  refine ⟨⟨r, by rw [List.getElem?_append_left hlt, hr], hid⟩, fun q r' hq hid' => ?_⟩
  rcases lt_or_ge q log.length with hlen | hlen
  · rw [List.getElem?_append_left hlen] at hq
    exact hle q r' hq hid'
  · omega

lemma firstReceived_append {r : IntentReceived}
    (h : ∀ r' ∈ log.received, r'.intentId ≠ r.intentId) :
    FirstReceived (log ++ [.intentReceived r]) r.intentId log.length := by
  refine ⟨⟨r, List.getElem?_concat_length, rfl⟩, fun q r' hq hid => ?_⟩
  by_contra hlt
  rw [List.getElem?_append_left (not_le.mp hlt)] at hq
  exact h r' (Log.mem_received.mpr (List.mem_of_getElem? hq)) hid

namespace Projections

/-- The row of an intent remembers where it was received first. -/
lemma firstReceived_of_lookup {row : IntentRow}
    (h : (ofLog g log).intents.lookup id = some row) : FirstReceived log id row.position := by
  refine intentRow_induction (P := fun log row => FirstReceived log id row.position)
    ?append ?admitted ?expired ?placed log row h
  case append => exact fun log e row h => h.append [e]
  case admitted =>
    rintro log r rfl hnone
    refine firstReceived_append fun r' hr' hid => ?_
    exact lookup_intents_ne_none_iff.mpr ⟨r', hr', hid⟩ hnone
  case expired => exact fun log x row _ h => h.append _
  case placed => exact fun log c i row _ h => h.append _

end Projections

/-! ### The projector -/

/-- What the task of the projector holds, with its read model at `k` entries. -/
def ProjectorReads (log : Log) (k : ℕ) : ProjectorTask → Prop
  | .waiting => True
  | .reading cursor => cursor = k
  | .holding batch => batch <+: log.readFrom k

/-- The read model is that of a prefix of the log. -/
def ProjectorTracks (g : GuaranteeConfig) (log : Log) (s : Projections × ProjectorTask) : Prop :=
  ∃ k ≤ log.length, s.1 = Projections.ofLog g (log.take k) ∧ ProjectorReads log k s.2

lemma ProjectorTracks.append {s : Projections × ProjectorTask} (h : ProjectorTracks g log s)
    (e : Entry) : ProjectorTracks g (log ++ [e]) s := by
  obtain ⟨k, hk, hp, hreads⟩ := h
  refine ⟨k, hk.trans (by simp), by rw [List.take_append_of_le_length hk, hp], ?_⟩
  obtain ⟨p, task⟩ := s
  cases task with
  | waiting => trivial
  | reading cursor => exact hreads
  | holding batch => exact hreads.trans (Log.readFrom_prefix_append hk [e])

lemma ProjectorTracks.step {s : Projections × ProjectorTask} (h : ProjectorTracks g log s)
    (e : ProjectorEvent) : ProjectorTracks g log (projectorStep g log s e) := by
  obtain ⟨p, task⟩ := s
  obtain ⟨k, hk, rfl, hreads⟩ := h
  have hrestart : ProjectorTracks g log (Projections.new g, .waiting) :=
    ⟨0, Nat.zero_le _, rfl, trivial⟩
  have hstay : ∀ task, ProjectorReads log k task →
      ProjectorTracks g log (Projections.ofLog g (log.take k), task) :=
    fun task h => ⟨k, hk, rfl, h⟩
  cases task with
  | waiting =>
    cases e with
    | doorbell =>
      refine hstay (.reading _) ?_
      rw [ProjectorReads, Projections.cursor_ofLog, List.length_take, min_eq_left hk]
    | restart => exact hrestart
    | _ => exact hstay _ hreads
  | reading cursor =>
    obtain rfl : cursor = k := hreads
    cases e with
    | readTail fault =>
      cases fault with
      | none => exact hstay (.holding _) List.prefix_rfl
      | some err => exact hstay .waiting trivial
    | restart => exact hrestart
    | _ => exact hstay (.reading _) rfl
  | holding batch =>
    cases e with
    | apply =>
      have hlen : batch.length ≤ log.length - k := by
        rw [← Log.length_readFrom]
        exact List.IsPrefix.length_le hreads
      have hbatch : batch = (log.readFrom k).take batch.length := List.prefix_iff_eq_take.mp hreads
      have happly := Projections.applyBatch_ofLog g log hk batch.length
      rw [Projections.cursor_ofLog, List.length_take, min_eq_left hk, ← hbatch] at happly
      exact ⟨k + batch.length, by omega, happly, trivial⟩
    | restart => exact hrestart
    | _ => exact hstay (.holding _) hreads

lemma projector_upholds :
    (projector g).Upholds (fun _ _ => True) (fun _ _ => False) (ProjectorTracks g) where
  init := ⟨0, le_rfl, rfl, trivial⟩
  own := by
    intro log s e h
    show ProjectorTracks g (log ++ []) (projectorStep g log s e)
    rw [List.append_nil]
    exact h.step e
  emits := by
    intro log s e x _ hx
    simp [projector] at hx
  rely := fun _ _ x h _ => h.append x

/-! ### The server -/

/-- What others append: anything, but no intent that was not admitted before. -/
def AdmitsNothing (log : Log) (e : Entry) : Prop :=
  ∀ r ∈ e.received?, ∃ r' ∈ log.received, r'.intentId = r.intentId

instance (log : Log) : DecidablePred (AdmitsNothing log) := fun e =>
  inferInstanceAs (Decidable (∀ r ∈ e.received?, ∃ r' ∈ log.received, r'.intentId = r.intentId))

/-- The gate has seen every id received. -/
def SeenAll (log : Log) (a : Admission) : Prop := ∀ r ∈ log.received, r.intentId ∈ a.seen

lemma SeenAll.append_of_admitsNothing {a : Admission} {e : Entry} (h : SeenAll log a)
    (he : AdmitsNothing log e) : SeenAll (log ++ [e]) a := by
  intro r hr
  rw [Log.received_append, List.mem_append] at hr
  rcases hr with hr | hr
  · exact h r hr
  · obtain ⟨r', hr', hid⟩ := he r (by simpa [Log.received] using hr)
    exact hid ▸ h r' hr'

section Server

variable [Keccak256]

lemma gate_upholds_seen : (gate g).Upholds AdmitsNothing (fun _ _ => True) SeenAll where
  init := by simp [SeenAll]
  own := by
    rintro log a (⟨i, nowMs, fault⟩ | -) h
    · rcases admitAndAppend_cases log a i nowMs fault with ⟨err, hc⟩ | ⟨-, -, hc⟩
      · simpa [gate, hc] using h
      · simp only [gate, hc, Option.toList_some]
        intro r hr
        rw [Log.received_append, List.mem_append] at hr
        rw [Admission.seen_record, Finset.mem_insert]
        rcases hr with hr | hr
        · exact Or.inr (h r hr)
        · obtain rfl : r = ⟨i.id, i, nowMs⟩ := by simpa [Log.received, Entry.received?] using hr
          exact Or.inl rfl
    · show SeenAll (log ++ []) (Admission.recover log g)
      rw [List.append_nil]
      exact fun r hr => Admission.mem_seen_recover.mpr ⟨r, hr, rfl⟩
  emits := fun _ _ _ _ _ _ => trivial
  rely := fun _ _ _ h he => h.append_of_admitsNothing he

/-- What runs around the server: the gate, the projector, and the appends of all others. -/
def server (g : GuaranteeConfig) :
    Stage Entry (Admission × (Projections × ProjectorTask) × Unit)
      (GateEvent ⊕ ProjectorEvent ⊕ Entry) :=
  (gate g).par ((projector g).par (Stage.surroundings AdmitsNothing))

lemma server_upholds (g : GuaranteeConfig) :
    (server g).Upholds (fun _ _ => False) (fun _ _ => True)
      (fun log s => SeenAll log s.1 ∧ ProjectorTracks g log s.2.1) := by
  have hprojector := (projector_upholds (g := g)).par (Stage.surroundings_upholds AdmitsNothing)
    (fun _ _ _ _ _ _ => False.elim) (fun _ _ _ _ _ _ _ => trivial)
  have hall := (gate_upholds_seen (g := g)).par hprojector
    (fun _ _ _ _ _ _ _ => ⟨trivial, trivial⟩)
    (fun _ _ _ _ _ _ hx => hx.resolve_left not_false)
  refine (hall.mono (fun _ _ _ _ => False.elim) fun _ _ _ => trivial).congr fun log s => ?_
  constructor
  · rintro ⟨hseen, hp, -⟩
    exact ⟨hseen, hp⟩
  · rintro ⟨hseen, hp⟩
    exact ⟨hseen, hp, trivial⟩

/-- A submission that is answered with success leaves its intent in the log, where its id is
received for the first time. -/
lemma submit_ok {a : Admission} {i : Intent} {nowMs : UInt64} {fault : Option LogError}
    {response : SubmitResponse} (hseen : SeenAll log a)
    (h : (submit log a i nowMs fault).1 = .ok response) :
    FirstReceived (log ++ ((gate g).step log a (.submit i nowMs fault)).2.toList)
      response.intentId response.logPosition := by
  rcases admitAndAppend_cases log a i nowMs fault with ⟨err, hc⟩ | ⟨hcheck, -, hc⟩
  · simp [submit, hc] at h
  · obtain rfl : (⟨i.id, log.length⟩ : SubmitResponse) = response := by simpa [submit, hc] using h
    have hnew := (Admission.check_eq_ok_iff.mp hcheck).2.1
    simp only [gate, hc, Option.toList_some]
    refine firstReceived_append (r := ⟨i.id, i, nowMs⟩) fun r' hr' hid => hnew ?_
    have hmem := hseen r' hr'
    rwa [hid] at hmem

omit [Keccak256] in
/-- What a read model of part of the log answers on an id that is received in the log: with
the whole log applied it finds the id, and before that a miss is no verdict. -/
lemma ProjectorTracks.answers {s : Projections × ProjectorTask} {pos head : ℕ}
    (h : ProjectorTracks g log s) (hfirst : FirstReceived log id pos) (hhead : log.head ≤ head) :
    (s.1.reported id ≠ none ∨ miss s.1 head = .notReady) ∧
      ∀ row, s.1.intents.lookup id = some row → row.position = pos := by
  obtain ⟨k, hk, hp, -⟩ := h
  obtain ⟨r, hr, hid⟩ := hfirst.1
  rw [hp]
  constructor
  · rcases lt_or_ge k log.length with hlt | hge
    · right
      have hhead' : log.length ≤ head := hhead
      rw [miss, Projections.cursor_ofLog, List.length_take, if_pos (by omega)]
    · left
      rw [List.take_of_length_le hge, Projections.reported_ne_none_iff]
      exact ⟨r, Log.mem_received.mpr (List.mem_of_getElem? hr), hid⟩
  · intro row hrow
    have hfirst' := (Projections.firstReceived_of_lookup hrow).append (log.drop k)
    rw [List.take_append_drop] at hfirst'
    exact hfirst'.eq hfirst

/-- **An admitted intent is never answered 404.**  Once a submission is answered with
success, whatever is submitted, appended and projected afterwards, and however the head has
moved on when the handler reads it: a status or a receipt of that id is found, or the server
is not ready; and a receipt that is found names the place that the submission was told. -/
theorem admitted_never_not_found (g : GuaranteeConfig)
    (es es' : List (GateEvent ⊕ ProjectorEvent ⊕ Entry)) (i : Intent) (nowMs : UInt64)
    (fault : Option LogError) (response : SubmitResponse)
    (h : (submit ((server g).run es).log ((server g).run es).state.1 i nowMs fault).1 =
      .ok response) :
    let w := (server g).run (es ++ .inl (.submit i nowMs fault) :: es')
    let log : Log := w.log
    ∀ head, log.head ≤ head → ∀ path, IntentId.parse path = some response.intentId →
      ((∃ s, status w.state.2.1.1 head path = .ok s) ∨
        status w.state.2.1.1 head path = .error .notReady) ∧
      ∀ nowMs', (∃ r, receipt w.state.2.1.1 head nowMs' path = .ok r ∧
          r.logPosition = response.logPosition) ∨
        receipt w.state.2.1.1 head nowMs' path = .error .notReady := by
  intro w log head hhead path hpath
  have hseen := ((server_upholds g).run es).1
  have htracks : ProjectorTracks g log w.state.2.1 := ((server_upholds g).run _).2
  have hfirst : FirstReceived log response.intentId response.logPosition := by
    obtain ⟨rest, hrest⟩ := (server g).log_prefix_run_append
      (es ++ [.inl (.submit i nowMs fault)]) es'
    rw [List.append_assoc, List.singleton_append] at hrest
    have hlog : log = _ := hrest.symm
    rw [hlog, Stage.run_concat]
    exact (submit_ok hseen h).append rest
  obtain ⟨hfound, hposition⟩ := htracks.answers hfirst hhead
  constructor
  · cases hs : w.state.2.1.1.statusOf response.intentId with
    | some s => exact Or.inl ⟨s, by simp only [status, hpath, hs]⟩
    | none =>
      have hready := hfound.resolve_left (not_not.mpr (Projections.statusOf_eq_none_iff.mp hs))
      exact Or.inr (by simp only [status, hpath, hs, hready])
  · intro nowMs'
    cases hr : w.state.2.1.1.receiptOf response.intentId nowMs' with
    | some r =>
      obtain ⟨row, l, hrow, -, hreceipt⟩ := Projections.receiptOf_eq_some hr
      refine Or.inl ⟨r, by simp only [receipt, hpath, hr], ?_⟩
      rw [hreceipt]
      exact hposition row hrow
    | none =>
      have hready := hfound.resolve_left (not_not.mpr (Projections.receiptOf_eq_none_iff.mp hr))
      exact Or.inr (by simp only [receipt, hpath, hr, hready])

/-- The projector reads the empty log; an intent is admitted; the batch is applied. -/
def lateBatch : List (GateEvent ⊕ ProjectorEvent ⊕ Entry) :=
  [.inr (.inl .doorbell), .inr (.inl (.readTail none))]

omit [Keccak256] in
theorem admitted_never_not_found_lateBatch :
    let w := (@server fixtureKeccak testGuarantee).run
      (lateBatch ++ .inl (.submit (dummy 0) testNow none) :: [.inr (.inl .apply)])
    let id := hexEncode (@Intent.id fixtureKeccak (dummy 0)).bytes.toList
    ((∃ s, status w.state.2.1.1 1 id = .ok s) ∨ status w.state.2.1.1 1 id = .error .notReady) ∧
      ∀ nowMs, (∃ r, receipt w.state.2.1.1 1 nowMs id = .ok r ∧ r.logPosition = 0) ∨
        receipt w.state.2.1.1 1 nowMs id = .error .notReady :=
  @admitted_never_not_found fixtureKeccak testGuarantee lateBatch [.inr (.inl .apply)] (dummy 0)
    testNow none ⟨@Intent.id fixtureKeccak (dummy 0), 0⟩ (by decide +kernel) 1 (by decide +kernel)
    (hexEncode (@Intent.id fixtureKeccak (dummy 0)).bytes.toList) (by decide +kernel)

end Server

end Zequencer
