/-
# What the server responds

The response to a request says what the log says.  A submission is turned away as malformed for
what it is, as a conflict for what was received before it, and the reason that is named holds; one
that is answered with success is in the log.  A lookup that finds nothing is told whether there is
nothing, or whether the read model has yet to get there.
-/
import Zequencer.Pipeline.Reads
import Zequencer.Source.Wire

namespace Zequencer

variable {g : GuaranteeConfig} {log : Log}

/-! ### What was received before -/

/-- Nothing was received under this id. -/
def Log.Unknown (log : Log) (id : IntentId) : Prop := ∀ r ∈ log.received, r.intentId ≠ id

/-- The highest nonce received from a submitter. -/
structure Log.HighestNonce (log : Log) (s : Address) (last : UInt64) : Prop where
  received : ∃ r ∈ log.received, r.intent.submitter = s ∧ r.intent.nonce = last
  le : ∀ r ∈ log.received, r.intent.submitter = s → r.intent.nonce ≤ last

lemma Log.HighestNonce.eq {s : Address} {last last' : UInt64} (h : log.HighestNonce s last)
    (h' : log.HighestNonce s last') : last = last' := by
  obtain ⟨r, hr, hs, rfl⟩ := h.received
  obtain ⟨r', hr', hs', rfl⟩ := h'.received
  exact UInt64.le_antisymm (h'.le r hr hs) (h.le r' hr' hs')

lemma Log.HighestNonce.of_first {r : IntentReceived}
    (hfirst : ∀ r' ∈ log.received, r'.intent.submitter ≠ r.intent.submitter) :
    Log.HighestNonce (log ++ [.intentReceived r]) r.intent.submitter r.intent.nonce := by
  refine ⟨⟨r, by simp, rfl, rfl⟩, fun r' hr' hs => ?_⟩
  rw [Log.received_concat_received, List.mem_append, List.mem_singleton] at hr'
  rcases hr' with hr' | rfl
  · exact absurd hs (hfirst r' hr')
  · exact UInt64.le_refl _

lemma Admission.max_nonce_eq (m n : UInt64) : max m n = if m ≤ n then n else m := rfl

lemma Log.HighestNonce.concat_same {r : IntentReceived} {last : UInt64}
    (h : log.HighestNonce r.intent.submitter last) :
    Log.HighestNonce (log ++ [.intentReceived r]) r.intent.submitter
      (max last r.intent.nonce) := by
  obtain ⟨r₀, hr₀, hs₀, rfl⟩ := h.received
  refine ⟨?_, fun r' hr' hs => ?_⟩
  · rw [Admission.max_nonce_eq]
    split_ifs with hle
    · exact ⟨r, by simp, rfl, rfl⟩
    · exact ⟨r₀, Log.mem_received_append_left hr₀ _, hs₀, rfl⟩
  · rw [Log.received_concat_received, List.mem_append, List.mem_singleton] at hr'
    rcases hr' with hr' | rfl
    · exact UInt64.le_trans (h.le r' hr' hs) (Admission.le_max_nonce _ _).1
    · exact (Admission.le_max_nonce _ _).2

lemma Log.HighestNonce.concat_other {r : IntentReceived} {s : Address} {last : UInt64}
    (h : log.HighestNonce s last) (hs : r.intent.submitter ≠ s) :
    Log.HighestNonce (log ++ [.intentReceived r]) s last := by
  obtain ⟨r₀, hr₀, hs₀, hlast⟩ := h.received
  refine ⟨⟨r₀, Log.mem_received_append_left hr₀ _, hs₀, hlast⟩, fun r' hr' hs' => ?_⟩
  rw [Log.received_concat_received, List.mem_append, List.mem_singleton] at hr'
  rcases hr' with hr' | rfl
  · exact h.le r' hr' hs'
  · exact absurd hs' hs

namespace Admission

lemma highestNonce_of_lookup {s : Address} {last : UInt64}
    (h : (recover log g).nonces.lookup s = some last) : log.HighestNonce s last := by
  induction log using List.reverseRecOn generalizing last with
  | nil => simp [recover, new] at h
  | append_singleton log e ih =>
    rw [recover_append] at h
    by_cases he : e.received? = none
    · have hrec : recoverEntry (recover log g) e = recover log g := by
        cases e <;> first | rfl | simp [Entry.received?] at he
      rw [hrec] at h
      have hsame := Log.received_concat_of_none he log
      exact ⟨hsame ▸ (ih h).received, hsame ▸ (ih h).le⟩
    · obtain ⟨r, hr⟩ := Option.ne_none_iff_exists'.mp he
      obtain rfl := Entry.received?_eq_some.mp hr
      simp only [recoverEntry, lookup_nonces_record] at h
      split_ifs at h with hs
      · subst hs
        obtain rfl := Option.some.inj h
        cases hlookup : (recover log g).nonces.lookup r.intent.submitter with
        | none =>
          have hfirst : ∀ r' ∈ Log.received log, r'.intent.submitter ≠ r.intent.submitter := by
            intro r' hr' hs'
            obtain ⟨last, hlast, -⟩ := nonce_le_recover (g := g) hr'
            rw [hs', hlookup] at hlast
            simp at hlast
          simpa [max_nonce_eq] using Log.HighestNonce.of_first hfirst
        | some m => exact (ih hlookup).concat_same
      · exact (ih h).concat_other (Ne.symm hs)

/-- The gate holds the highest nonces received, and no others. -/
lemma lookup_nonces_recover {s : Address} {last : UInt64} :
    (recover log g).nonces.lookup s = some last ↔ log.HighestNonce s last := by
  refine ⟨highestNonce_of_lookup, fun h => ?_⟩
  obtain ⟨r, hr, rfl, -⟩ := h.received
  obtain ⟨last', hlast', -⟩ := nonce_le_recover (g := g) hr
  rw [hlast', h.eq (highestNonce_of_lookup hlast')]

end Admission

/-! ### Submissions -/

section Submissions

variable [Keccak256] {i : Intent} {nowMs : UInt64}

/-- Neither the intent nor its nonce was received before. -/
structure Intent.New (log : Log) (i : Intent) : Prop where
  id : log.Unknown i.id
  nonce : ∀ r ∈ log.received, r.intent.submitter = i.submitter → r.intent.nonce < i.nonce

/-- What a rejection says, of the intent, the clock and the log. -/
def Rejection.Holds (g : GuaranteeConfig) (log : Log) (i : Intent) (nowMs : UInt64) :
    Rejection → Prop
  | .zeroSize => i.size = 0
  | .emptyMarket => i.market.base = "" ∨ i.market.quote = ""
  | .slippageOutOfRange got limit =>
    got = i.maxSlippageBps ∧ limit = MAX_SLIPPAGE_BPS ∧ limit < got
  | .expired deadlineMs now => deadlineMs = i.deadlineMs ∧ now = nowMs ∧ deadlineMs ≤ now
  | .unmeetableWindow deadlineMs guaranteeDeadlineMs => deadlineMs = i.deadlineMs ∧
      guaranteeDeadlineMs = g.deadlineFor nowMs ∧ deadlineMs < guaranteeDeadlineMs
  | .replay id => id = i.id ∧ ∃ r ∈ log.received, r.intentId = id
  | .staleNonce got last => got = i.nonce ∧ log.HighestNonce i.submitter last ∧ got ≤ last

/-- The verdict of the gate that is recovered from the log. -/
inductive Verdict (g : GuaranteeConfig) (log : Log) (i : Intent) (nowMs : UInt64) :
    Except Rejection Unit → Prop
  | malformed {r} (status : r.status = 400) (inadmissible : ¬ i.Admissible g nowMs)
      (holds : r.Holds g log i nowMs) : Verdict g log i nowMs (.error r)
  | conflict {r} (status : r.status = 409) (admissible : i.Admissible g nowMs)
      (seen : ¬ i.New log) (holds : r.Holds g log i nowMs) : Verdict g log i nowMs (.error r)
  | passed (admissible : i.Admissible g nowMs) (new : i.New log) : Verdict g log i nowMs (.ok ())

lemma verdict_check (g : GuaranteeConfig) (log : Log) (i : Intent) (nowMs : UInt64) :
    Verdict g log i nowMs ((Admission.recover log g).check i.id i nowMs) := by
  cases hcheck : (Admission.recover log g).check i.id i nowMs with
  | ok u =>
    obtain ⟨hadmissible, hid, hnonce⟩ := Admission.check_eq_ok_iff.mp hcheck
    rw [Admission.guarantee_recover] at hadmissible
    refine .passed hadmissible ⟨fun r hr heq => hid (Admission.mem_seen_recover.mpr ⟨r, hr, heq⟩),
      fun r hr hs => ?_⟩
    obtain ⟨last, hlast, hle⟩ := Admission.nonce_le_recover (g := g) hr
    rw [hs] at hlast
    exact UInt64.lt_of_le_of_lt hle (hnonce last hlast)
  | error r =>
    have hadmissible : i.size ≠ 0 → ¬ (i.market.base.isEmpty ∨ i.market.quote.isEmpty) →
        ¬ MAX_SLIPPAGE_BPS < i.maxSlippageBps → ¬ i.deadlineMs ≤ nowMs →
          ¬ i.deadlineMs < g.deadlineFor nowMs → i.Admissible g nowMs := by
      intro h₁ h₂ h₃ h₄ h₅
      rw [not_or] at h₂
      exact ⟨h₁, by simpa using h₂.1, by simpa using h₂.2, by simpa using h₃, by simpa using h₄,
        by simpa using h₅⟩
    unfold Admission.check at hcheck
    rw [Admission.guarantee_recover] at hcheck
    split_ifs at hcheck with h₁ h₂ h₃ h₄ h₅ h₆
    · obtain rfl := Except.error.inj hcheck
      exact .malformed rfl (fun h => h.size h₁) h₁
    · obtain rfl := Except.error.inj hcheck
      rw [String.isEmpty_iff, String.isEmpty_iff] at h₂
      exact .malformed rfl (fun h => h₂.elim h.base h.quote) h₂
    · obtain rfl := Except.error.inj hcheck
      exact .malformed rfl (fun h => UInt16.not_le.mpr h₃ h.slippage) ⟨rfl, rfl, h₃⟩
    · obtain rfl := Except.error.inj hcheck
      exact .malformed rfl (fun h => UInt64.not_le.mpr h.deadline h₄) ⟨rfl, rfl, h₄⟩
    · obtain rfl := Except.error.inj hcheck
      exact .malformed rfl (fun h => UInt64.not_le.mpr h₅ h.window) ⟨rfl, rfl, h₅⟩
    · obtain rfl := Except.error.inj hcheck
      obtain ⟨r, hr, hid⟩ := Admission.mem_seen_recover.mp h₆
      exact .conflict rfl (hadmissible h₁ h₂ h₃ h₄ h₅) (fun h => h.id r hr hid) ⟨rfl, r, hr, hid⟩
    · cases hlookup : (Admission.recover log g).nonces.lookup i.submitter with
      | none => simp [hlookup] at hcheck
      | some last =>
        rw [hlookup] at hcheck
        by_cases hle : i.nonce ≤ last
        · obtain rfl : .staleNonce i.nonce last = r := by simpa [hle] using hcheck
          have hhighest := Admission.highestNonce_of_lookup hlookup
          obtain ⟨r, hr, hs, rfl⟩ := hhighest.received
          exact .conflict rfl (hadmissible h₁ h₂ h₃ h₄ h₅)
            (fun h => UInt64.not_le.mpr (h.nonce r hr hs) hle) ⟨rfl, hhighest, hle⟩
        · simp [hle] at hcheck

/-- What a submission is answered with, and what it leaves behind. -/
inductive Submitted (g : GuaranteeConfig) (log : Log) (a : Admission) (i : Intent)
    (nowMs : UInt64) (fault : Option LogError) :
    Except ApiError SubmitResponse × Admission × Option Entry → Prop
  | malformed {r} (status : r.status = 400) (inadmissible : ¬ i.Admissible g nowMs)
      (holds : r.Holds g log i nowMs) :
      Submitted g log a i nowMs fault (.error (.rejected r), a, none)
  | conflict {r} (status : r.status = 409) (admissible : i.Admissible g nowMs)
      (seen : ¬ i.New log) (holds : r.Holds g log i nowMs) :
      Submitted g log a i nowMs fault (.error (.rejected r), a, none)
  | failed {e} (admissible : i.Admissible g nowMs) (new : i.New log) (failed : fault = some e) :
      Submitted g log a i nowMs fault (.error (.log e), a, none)
  | admitted (admissible : i.Admissible g nowMs) (new : i.New log) (written : fault = none) :
      Submitted g log a i nowMs fault (.ok ⟨i.id, log.length⟩,
        a.record i.id i.submitter i.nonce, some (.intentReceived ⟨i.id, i, nowMs⟩))

lemma submitted_submit (g : GuaranteeConfig) (log : Log) (i : Intent) (nowMs : UInt64)
    (fault : Option LogError) :
    Submitted g log (Admission.recover log g) i nowMs fault
      (submit log (Admission.recover log g) i nowMs fault) := by
  have hverdict := verdict_check g log i nowMs
  cases hcheck : (Admission.recover log g).check i.id i nowMs with
  | error r =>
    have hsubmit : submit log (Admission.recover log g) i nowMs fault
        = (.error (.rejected r), Admission.recover log g, none) := by
      simp [submit, admitAndAppend, hcheck, ApiError.ofAdmitError]
    rw [hsubmit]
    rw [hcheck] at hverdict
    cases hverdict with
    | malformed status inadmissible holds => exact .malformed status inadmissible holds
    | conflict status admissible seen holds => exact .conflict status admissible seen holds
  | ok u =>
    rw [hcheck] at hverdict
    obtain ⟨hadmissible, hnew⟩ : i.Admissible g nowMs ∧ i.New log := by
      cases hverdict with
      | passed admissible new => exact ⟨admissible, new⟩
    cases fault with
    | some e =>
      have hsubmit : submit log (Admission.recover log g) i nowMs (some e)
          = (.error (.log e), Admission.recover log g, none) := by
        simp [submit, admitAndAppend, hcheck, ApiError.ofAdmitError]
      rw [hsubmit]
      exact .failed hadmissible hnew rfl
    | none =>
      have hsubmit : submit log (Admission.recover log g) i nowMs none
          = (.ok ⟨i.id, log.length⟩, (Admission.recover log g).record i.id i.submitter i.nonce,
            some (.intentReceived ⟨i.id, i, nowMs⟩)) := by
        simp [submit, admitAndAppend, hcheck, Log.head]
      rw [hsubmit]
      exact .admitted hadmissible hnew rfl

/-- The response to a submission, by what the submission met. -/
lemma Submitted.answered {a : Admission} {fault : Option LogError}
    {result : Except ApiError SubmitResponse × Admission × Option Entry}
    (h : Submitted g log a i nowMs fault result) :
    let response := respond SubmitResponse.toJson result.1
    (response.status = 400 ↔ ¬ i.Admissible g nowMs) ∧
      (response.status = 409 ↔ i.Admissible g nowMs ∧ ¬ i.New log) ∧
      (response.status = 500 ↔ i.Admissible g nowMs ∧ i.New log ∧ fault ≠ none) ∧
      (response.status = 200 ↔ i.Admissible g nowMs ∧ i.New log ∧ fault = none) ∧
      (response.status = 200 → result.2.2 = some (.intentReceived ⟨i.id, i, nowMs⟩) ∧
        response.body = .json (SubmitResponse.toJson ⟨i.id, log.length⟩)) ∧
      (response.status ≠ 200 → result.2 = (a, none)) ∧
      ∀ r, result.1 = .error (.rejected r) →
        response = ⟨r.status, .json r.toJson⟩ ∧ r.Holds g log i nowMs := by
  cases h with
  | malformed status inadmissible holds =>
    simp [respond, ApiError.intoResponse, status, inadmissible, holds]
  | conflict status admissible seen holds =>
    simp [respond, ApiError.intoResponse, status, admissible, seen, holds]
  | failed admissible new failed =>
    simp [respond, ApiError.intoResponse, admissible, new, failed]
  | admitted admissible new written =>
    simp [respond, admissible, new, written]

/-- **A submission is answered with what the log says.**  In every run of the node, the response to
a submission is 400 exactly if the intent is inadmissible, 409 exactly if it is admissible and
its id or its nonce is spent, 500 exactly if only the log failed, and 200 exactly if none of these
is so, with the intent where the body says in the log.  The reason in the body of a rejection
holds, and whatever is not answered with 200 changes nothing. -/
theorem submissions_answered (g : GuaranteeConfig) (cfg : BatchConfig)
    (es : List (PipelineEvent ⊕ ProjectorEvent)) (i : Intent) (nowMs : UInt64)
    (fault : Option LogError) :
    let w := (node g cfg).run es
    let result := submit w.log w.state.1.2.1 i nowMs fault
    let response := respond SubmitResponse.toJson result.1
    (response.status = 400 ↔ ¬ i.Admissible g nowMs) ∧
      (response.status = 409 ↔ i.Admissible g nowMs ∧ ¬ i.New w.log) ∧
      (response.status = 500 ↔ i.Admissible g nowMs ∧ i.New w.log ∧ fault ≠ none) ∧
      (response.status = 200 ↔ i.Admissible g nowMs ∧ i.New w.log ∧ fault = none) ∧
      (response.status = 200 → result.2.2 = some (.intentReceived ⟨i.id, i, nowMs⟩) ∧
        response.body = .json (SubmitResponse.toJson ⟨i.id, w.log.length⟩)) ∧
      (response.status ≠ 200 → result.2 = (w.state.1.2.1, none)) ∧
      ∀ r, result.1 = .error (.rejected r) →
        response = ⟨r.status, .json r.toJson⟩ ∧ r.Holds g w.log i nowMs := by
  intro w result response
  have hgate : w.state.1.2.1 = Admission.recover w.log g := ((node_upholds g cfg).run es).1.gate
  have hsubmitted := submitted_submit g w.log i nowMs fault
  rw [← hgate] at hsubmitted
  exact hsubmitted.answered

end Submissions

/-! ### Lookups -/

section Lookups

lemma Log.Unknown.take {id : IntentId} (h : log.Unknown id) (k : ℕ) : Log.Unknown (log.take k) id :=
  fun r hr => h r (((List.take_sublist k log).filterMap _).mem hr)

lemma Projections.reported_eq_none_iff {id : IntentId} :
    (Projections.ofLog g log).reported id = none ↔ log.Unknown id := by
  rw [← not_iff_not, ← ne_eq, Projections.reported_ne_none_iff]
  simp [Log.Unknown]

/-- What a lookup comes to, at a read model of the first `k` entries and a head that is read at
that moment or later. -/
inductive LookedUp {α : Type} (log : Log) (k head : ℕ) (path : String) :
    Except ApiError α → Prop
  | malformed (spells : IntentId.parse path = none) :
      LookedUp log k head path (.error .badIntentId)
  | found {id a} (spells : IntentId.parse path = some id)
      (known : ¬ Log.Unknown (log.take k) id) : LookedUp log k head path (.ok a)
  | unknown {id} (spells : IntentId.parse path = some id) (unknown : log.Unknown id)
      (caughtUp : k = head) : LookedUp log k head path (.error .notFound)
  | behind {id} (spells : IntentId.parse path = some id)
      (unknown : Log.Unknown (log.take k) id) (behind : k < head) :
      LookedUp log k head path (.error .notReady)

variable {k head : ℕ} {path : String} {id : IntentId}

lemma LookedUp.of_miss {α : Type} (hpath : IntentId.parse path = some id)
    (hunknown : Log.Unknown (log.take k) id) (hk : k ≤ log.length) (hhead : log.length ≤ head) :
    LookedUp log k head path (.error (miss (.ofLog g (log.take k)) head) : Except ApiError α) := by
  have hcursor : (Projections.ofLog g (log.take k)).cursor = k := by
    rw [Projections.cursor_ofLog, List.length_take, min_eq_left hk]
  by_cases hlt : k < head
  · rw [miss, hcursor, if_pos hlt]
    exact .behind hpath hunknown hlt
  · rw [miss, hcursor, if_neg hlt]
    -- the whole log is applied, and nothing was appended before the head was read
    rw [List.take_of_length_le (by omega)] at hunknown
    exact .unknown hpath hunknown (by omega)

lemma lookedUp_status (hk : k ≤ log.length) (hhead : log.length ≤ head) :
    LookedUp log k head path (status (.ofLog g (log.take k)) head path) := by
  unfold status
  cases hpath : IntentId.parse path with
  | none => exact .malformed hpath
  | some id =>
    have hfound : (Projections.ofLog g (log.take k)).statusOf id = none ↔
        Log.Unknown (log.take k) id :=
      Projections.statusOf_eq_none_iff.trans Projections.reported_eq_none_iff
    cases hs : (Projections.ofLog g (log.take k)).statusOf id with
    | some s =>
      simp only [hs]
      exact .found hpath fun h => by simp [hfound.mpr h] at hs
    | none =>
      simp only [hs]
      exact .of_miss hpath (hfound.mp hs) hk hhead

lemma lookedUp_receipt (hk : k ≤ log.length) (hhead : log.length ≤ head) (nowMs : UInt64) :
    LookedUp log k head path (receipt (.ofLog g (log.take k)) head nowMs path) := by
  unfold receipt
  cases hpath : IntentId.parse path with
  | none => exact .malformed hpath
  | some id =>
    have hfound : (Projections.ofLog g (log.take k)).receiptOf id nowMs = none ↔
        Log.Unknown (log.take k) id :=
      Projections.receiptOf_eq_none_iff.trans Projections.reported_eq_none_iff
    cases hr : (Projections.ofLog g (log.take k)).receiptOf id nowMs with
    | some r =>
      simp only [hr]
      exact .found hpath fun h => by simp [hfound.mpr h] at hr
    | none =>
      simp only [hr]
      exact .of_miss hpath (hfound.mp hr) hk hhead

/-- What the status of the response to a lookup says. -/
structure SaysOfLookup (log : Log) (k head : ℕ) (path : String) (response : Response) : Prop where
  malformed : response.status = 400 ↔ IntentId.parse path = none
  found : response.status = 200 ↔
    ∃ id, IntentId.parse path = some id ∧ ¬ Log.Unknown (log.take k) id
  unknown : response.status = 404 ↔
    ∃ id, IntentId.parse path = some id ∧ log.Unknown id ∧ k = head
  behind : response.status = 503 ↔
    ∃ id, IntentId.parse path = some id ∧ Log.Unknown (log.take k) id ∧ k < head

lemma LookedUp.saysOfLookup {α : Type} {toJson : α → Json} {result : Except ApiError α}
    (h : LookedUp log k head path result) :
    SaysOfLookup log k head path (respond toJson result) := by
  cases h with
  | malformed hpath => constructor <;> simp [respond, ApiError.intoResponse, hpath]
  | @found id _ hpath hknown =>
    have hreceived : ¬ log.Unknown id := fun h => hknown (h.take k)
    constructor <;> simp [respond, hpath, hknown, hreceived]
  | @unknown id hpath hunknown hcaughtUp =>
    have htake := hunknown.take k
    constructor <;> simp [respond, ApiError.intoResponse, hpath, hunknown, htake] <;> omega
  | behind hpath hunknown hbehind =>
    constructor <;> simp [respond, ApiError.intoResponse, hpath, hunknown] <;> omega

/-- **A lookup that finds nothing says why.**  In every run of the node, however much is appended
between the lookup and the reading of the head: status and receipt respond 400 exactly if the path
spells no id, 200 exactly if the id was received in the part of the log the projector has applied,
404 exactly if it was never received and the projector has applied the whole log up to the head,
and 503 exactly if it is not in the part applied and there is more to apply. -/
theorem lookups_answered [Keccak256] (g : GuaranteeConfig) (cfg : BatchConfig)
    (es : List (PipelineEvent ⊕ ProjectorEvent)) (path : String) (nowMs : UInt64)
    (appended : ℕ) :
    let w := (node g cfg).run es
    let head := w.log.length + appended
    SaysOfLookup w.log w.state.2.1.cursor head path
        (respond StatusResponse.toJson (status w.state.2.1 head path)) ∧
      SaysOfLookup w.log w.state.2.1.cursor head path
        (respond Receipt.toJson (receipt w.state.2.1 head nowMs path)) := by
  intro w head
  obtain ⟨-, k, hk, hp, -⟩ := (node_upholds g cfg).run es
  have hmodel : w.state.2.1 = .ofLog g (w.log.take k) := hp
  have hcursor : w.state.2.1.cursor = k := by
    rw [hmodel, Projections.cursor_ofLog, List.length_take, min_eq_left hk]
  have hhead : w.log.length ≤ head := Nat.le_add_right _ _
  rw [hcursor, hmodel]
  exact ⟨(lookedUp_status hk hhead).saysOfLookup, (lookedUp_receipt hk hhead nowMs).saysOfLookup⟩

end Lookups

end Zequencer
