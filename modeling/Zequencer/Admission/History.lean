/-
# What the gate leaves in the log

The running gate is at all times the gate that recovery rebuilds from the log; this is the
invariant everything else follows from.  It gives the history of admission: ids are
admitted once, the nonces of a submitter increase, and every admitted intent met the rules
when it was received.
-/
import Zequencer.Log.Views
import Zequencer.Source.Admission

namespace Zequencer

variable {g : GuaranteeConfig} {log : Log} {a : Admission}

/-! ### What recovery reads off the log -/

namespace Admission

lemma mem_seen_recover {id : IntentId} :
    id ∈ (recover log g).seen ↔ ∃ r ∈ log.received, r.intentId = id := by
  induction log using List.reverseRecOn with
  | nil => simp [recover, new]
  | append_singleton log e ih =>
    rw [recover_append]
    cases e with
    | intentReceived r =>
      simp only [recoverEntry, seen_record, Finset.mem_insert, ih, Log.mem_received,
        List.mem_append, List.mem_singleton, Entry.intentReceived.injEq]
      grind
    | _ => simpa [recoverEntry, Log.mem_received] using ih

/-- The nonce a recovered gate holds for a submitter bounds every nonce received from it. -/
lemma nonce_le_recover {r : IntentReceived} (hr : r ∈ log.received) :
    ∃ last, (recover log g).nonces.lookup r.intent.submitter = some last ∧
      r.intent.nonce ≤ last := by
  induction log using List.reverseRecOn with
  | nil => simp at hr
  | append_singleton log e ih =>
    rw [recover_append]
    by_cases he : e.received? = none
    · have hrec : recoverEntry (recover log g) e = recover log g := by
        cases e <;> first | rfl | simp [Entry.received?] at he
      rw [hrec]
      rw [Log.received_concat_of_none he] at hr
      exact ih hr
    · obtain ⟨r', he'⟩ := Option.ne_none_iff_exists'.mp he
      obtain rfl := Entry.received?_eq_some.mp he'
      simp only [recoverEntry, lookup_nonces_record]
      rw [Log.received_append, List.mem_append] at hr
      rcases hr with hr | hr
      · obtain ⟨last, hlast, hle⟩ := ih hr
        split_ifs with hs
        · refine ⟨_, rfl, ?_⟩
          rw [← hs, hlast, Option.getD_some]
          exact UInt64.le_trans hle (le_max_nonce last _).1
        · exact ⟨last, hlast, hle⟩
      · have hrr : r = r' := by simpa using hr
        subst hrr
        rw [if_pos rfl]
        exact ⟨_, rfl, (le_max_nonce _ _).2⟩

end Admission

/-! ### The history of admission -/

/-- What admission promises about a log. -/
structure AdmissionHistory [Keccak256] (g : GuaranteeConfig) (log : Log) : Prop where
  /-- No id is admitted twice. -/
  ids : (log.received.map IntentReceived.intentId).Nodup
  /-- The nonces of one submitter strictly increase in log order. -/
  nonces : log.received.Pairwise fun r r' =>
    r.intent.submitter = r'.intent.submitter → r.intent.nonce < r'.intent.nonce
  /-- Every admitted intent met the rules at the moment it was received. -/
  admissible : ∀ r ∈ log.received, r.intent.Admissible g r.receivedAt
  /-- The id is the content hash of the intent. -/
  content : ∀ r ∈ log.received, r.intentId = r.intent.id

section History

variable [Keccak256]

lemma AdmissionHistory.nil : AdmissionHistory g [] where
  ids := List.nodup_nil
  nonces := List.Pairwise.nil
  admissible := by simp
  content := by simp

lemma AdmissionHistory.append_other {e : Entry} (h : AdmissionHistory g log)
    (he : e.received? = none) : AdmissionHistory g (log ++ [e]) := by
  have hlog := Log.received_concat_of_none he log
  exact ⟨hlog ▸ h.ids, hlog ▸ h.nonces, hlog ▸ h.admissible, hlog ▸ h.content⟩

/-- An intent that passes the check of the recovered gate extends the history. -/
lemma AdmissionHistory.append_admitted {i : Intent} {nowMs : UInt64}
    (h : AdmissionHistory g log) (hc : (Admission.recover log g).check i.id i nowMs = .ok ()) :
    AdmissionHistory g (log ++ [.intentReceived ⟨i.id, i, nowMs⟩]) := by
  obtain ⟨hadm, hseen, hnonce⟩ := Admission.check_eq_ok_iff.mp hc
  rw [Admission.guarantee_recover] at hadm
  have hlog := log.received_concat_received ⟨i.id, i, nowMs⟩
  constructor
  · rw [hlog, List.map_append, List.nodup_append]
    refine ⟨h.ids, List.nodup_singleton _, ?_⟩
    rintro x hx y hy rfl
    obtain ⟨r, hr, hrx⟩ := List.mem_map.mp hx
    refine hseen (Admission.mem_seen_recover.mpr ⟨r, hr, ?_⟩)
    simpa [hrx] using hy
  · rw [hlog, List.pairwise_concat]
    refine ⟨h.nonces, fun r hr hs => ?_⟩
    obtain ⟨last, hlast, hle⟩ := Admission.nonce_le_recover (g := g) hr
    exact UInt64.lt_of_le_of_lt hle (hnonce last (hs ▸ hlast))
  · intro r hr
    rw [hlog, List.mem_append, List.mem_singleton] at hr
    rcases hr with hr | rfl
    · exact h.admissible r hr
    · exact hadm
  · intro r hr
    rw [hlog, List.mem_append, List.mem_singleton] at hr
    rcases hr with hr | rfl
    · exact h.content r hr
    · rfl

/-! ### The invariant of the gate -/

lemma gate_step_recover (log : Log) (e : GateEvent) :
    ((gate g).step log (Admission.recover log g) e).1 =
      Admission.recover (log ++ ((gate g).step log (Admission.recover log g) e).2.toList) g := by
  cases e with
  | restart => simp [gate]
  | submit i nowMs fault =>
    rcases admitAndAppend_cases log (Admission.recover log g) i nowMs fault with
      ⟨err, h⟩ | ⟨-, -, h⟩
    · simp [gate, h]
    · simp only [gate, h, Option.toList_some, Admission.recover_append]
      rfl

omit [Keccak256] in
lemma recover_append_other {e : Entry} (he : e.received? = none) :
    Admission.recover (log ++ [e]) g = Admission.recover log g := by
  rw [Admission.recover_append]
  cases e <;> first | rfl | simp [Entry.received?] at he

lemma gate_upholds_recover :
    (gate g).Upholds (fun _ e => e.received? = none) (fun _ e => ∃ r, e = .intentReceived r)
      (fun log a => a = Admission.recover log g) where
  init := rfl
  own := by
    rintro log a e rfl
    exact gate_step_recover log e
  emits := by
    rintro log a (⟨i, nowMs, fault⟩ | -) e - he
    · rcases admitAndAppend_cases log a i nowMs fault with ⟨err, h⟩ | ⟨-, -, h⟩
      · simp [gate, h] at he
      · simp only [gate, h, Option.some.injEq] at he
        exact ⟨_, he.symm⟩
    · simp [gate] at he
  rely := by
    rintro log a e rfl he
    exact (recover_append_other he).symm

/-- Beside stages that admit nothing, the log holds an admission history. -/
lemma gate_upholds_history :
    (gate g).Upholds (fun _ e => e.received? = none) (fun _ e => ∃ r, e = .intentReceived r)
      (fun log a => a = Admission.recover log g ∧ AdmissionHistory g log) := by
  refine gate_upholds_recover.strengthen AdmissionHistory.nil ?_ ?_
  · rintro log a (⟨i, nowMs, fault⟩ | -) rfl hist
    · rcases admitAndAppend_cases log (Admission.recover log g) i nowMs fault with
        ⟨err, h⟩ | ⟨hc, -, h⟩
      · simpa [gate, h] using hist
      · simpa [gate, h] using hist.append_admitted hc
    · simpa [gate] using hist
  · intro log a e _ hist he
    exact hist.append_other he

/-! ### Runs of the gate -/

/-- The gate beside stages that write anything but admissions. -/
def gateSystem (g : GuaranteeConfig) :
    Stage Entry (Admission × Unit) (GateEvent ⊕ Entry) :=
  (gate g).par (Stage.surroundings fun _ e => e.received? = none)

/-- **Admission invariants over every history.**  From an empty log and gate, for every
schedule of submissions, failing appends, entries of other stages and restarts of the
gate: ids are admitted once, the nonces of a submitter strictly increase, every admitted
intent met the rules at its own `received_at`; and a call that returns an error leaves the
gate as it is and writes nothing. -/
theorem admission_history (g : GuaranteeConfig) (es : List (GateEvent ⊕ Entry)) :
    let w := (gateSystem g).run es
    ((Log.received w.log).map IntentReceived.intentId).Nodup ∧
      ((Log.received w.log).Pairwise fun r r' =>
        r.intent.submitter = r'.intent.submitter → r.intent.nonce < r'.intent.nonce) ∧
      (∀ r ∈ Log.received w.log, r.intent.Admissible g r.receivedAt) ∧
      ∀ i nowMs fault e, (admitAndAppend w.log w.state.1 i nowMs fault).1 = .error e →
        (admitAndAppend w.log w.state.1 i nowMs fault).2 = (w.state.1, none) := by
  intro w
  have hist : AdmissionHistory g w.log :=
    ((gate_upholds_history.beside _ fun _ _ _ _ he => he).run es).2
  refine ⟨hist.ids, hist.nonces, hist.admissible, fun i nowMs fault e he => ?_⟩
  rcases admitAndAppend_cases w.log w.state.1 i nowMs fault with ⟨err, h⟩ | ⟨-, -, h⟩
  · rw [h]
  · rw [h] at he
    exact absurd he (by simp)

/-- The answers that the submissions of a schedule get, in order. -/
def answers (g : GuaranteeConfig) (w : Stage.World Entry (Admission × Unit)) :
    List (GateEvent ⊕ Entry) → List (Except AdmitError (IntentId × ℕ))
  | [] => []
  | e :: es =>
    (match e with
      | .inl (.submit i nowMs fault) => [(admitAndAppend w.log w.state.1 i nowMs fault).1]
      | _ => []) ++ answers g ((gateSystem g).next w e) es

/-- **A restarted gate is the running gate.**  Over any initial log and any schedule, the
seen set and the nonce map of the running gate are those of recovery on the current log;
so swapping a recovered gate in changes the answer to no later submission. -/
theorem restarted_gate_is_running_gate (g : GuaranteeConfig) (log₀ : Log)
    (es : List (GateEvent ⊕ Entry)) :
    let w := (gateSystem g).runFrom ⟨log₀, Admission.recover log₀ g, ()⟩ es
    w.state.1.seen = (Admission.recover w.log g).seen ∧
      w.state.1.nonces = (Admission.recover w.log g).nonces ∧
      ∀ fs, answers g w fs = answers g ⟨w.log, Admission.recover w.log g, ()⟩ fs := by
  intro w
  have hw : w.state.1 = Admission.recover w.log g :=
    (gate_upholds_recover.beside _ fun _ _ _ _ he => he).runFrom
      (w := ⟨log₀, Admission.recover log₀ g, ()⟩) rfl es
  refine ⟨congrArg Admission.seen hw, congrArg Admission.nonces hw, fun fs => ?_⟩
  have hstate : w = ⟨w.log, Admission.recover w.log g, ()⟩ := by
    rw [← hw]
  exact congrArg (fun v => answers g v fs) hstate

end History

end Zequencer
