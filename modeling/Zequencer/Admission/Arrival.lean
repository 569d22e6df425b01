/-
# Arrival stamps and the order of the log

The handler of a submission reads the clock, and then the gate takes its lock.  Between the
two a request may be overtaken by one with a later stamp, and if it is admitted after all, the
stamps disagree with the order of the log.
-/
import Mathlib.Logic.Function.Basic
import Zequencer.Admission.Finality
import Zequencer.Admission.Isolation
import Zequencer.Source.Api

namespace Zequencer

/-! ### Concurrent requests -/

/-- What the requests share, and the requests under way. -/
structure Requests (ρ : Type*) where
  /-- The latest reading of the clock. -/
  clock : UInt64
  admission : Admission
  /-- The intent and the stamp of a request that waits for the lock. -/
  waiting : ρ → Option (Intent × UInt64)

/-- What may happen to the requests of an API, and to the clock they read. -/
inductive RequestEvent (ρ : Type*) where
  /-- Time passes. -/
  | tick (now : UInt64)
  /-- `submit` evaluates `now_millis()`. -/
  | readClock (r : ρ) (intent : Intent)
  /-- `admit_and_append` gets the lock, and runs until it drops it. -/
  | enter (r : ρ) (fault : Option LogError)
  /-- The process starts again: the requests are gone, and the gate is recovered. -/
  | restart

section Requests

variable [Keccak256] {ρ : Type*} [DecidableEq ρ] {g : GuaranteeConfig} {log : Log} {s : Requests ρ}

/-- Any number of requests to `submit`, one step at a time.  The clock never goes backwards. -/
def requests (g : GuaranteeConfig) : Stage Entry (Requests ρ) (RequestEvent ρ) where
  init := ⟨0, Admission.new g, fun _ => none⟩
  step log s
    | .tick now => ({ s with clock := max s.clock now }, none)
    | .readClock r intent =>
      match s.waiting r with
      | none => ({ s with waiting := Function.update s.waiting r (some (intent, s.clock)) }, none)
      | some _ => (s, none)
    | .enter r fault =>
      match s.waiting r with
      | none => (s, none)
      | some (intent, nowMs) =>
        let (_, admission, entry) := submit log s.admission intent nowMs fault
        ({ s with admission := admission, waiting := Function.update s.waiting r none }, entry)
    | .restart => (⟨s.clock, Admission.recover log g, fun _ => none⟩, none)

/-- Whoever is admitted earlier was received no later. -/
def StampsAgree (log : Log) : Prop :=
  log.received.Pairwise fun x y => x.receivedAt ≤ y.receivedAt

instance (log : Log) : Decidable (StampsAgree log) :=
  inferInstanceAs (Decidable (log.received.Pairwise _))

/-- A request that is admitted overtakes nobody who could be admitted after it: every request
that waits with an earlier stamp is refused by the gate from then on. -/
def NoOvertaking (_ : Log) (s : Requests ρ) : RequestEvent ρ → Prop
  | .enter r none => ∀ i t, s.waiting r = some (i, t) → s.admission.check i.id i t = .ok () →
    ∀ r' ≠ r, ∀ i' t', s.waiting r' = some (i', t') → t' < t →
      (s.admission.record i.id i.submitter i.nonce).check i'.id i' t' ≠ .ok ()
  | _ => True

/-! ### What a request does under the lock -/

omit [DecidableEq ρ] in
lemma submit_snd (log : Log) (a : Admission) (i : Intent) (nowMs : UInt64)
    (fault : Option LogError) :
    (submit log a i nowMs fault).2 = (admitAndAppend log a i nowMs fault).2 := by
  unfold submit
  rcases admitAndAppend log a i nowMs fault with ⟨answer, a', entry⟩
  cases answer with
  | error e => rfl
  | ok answer => rfl

/-- The moves of the requests: what a step does, and when. -/
inductive RequestMove (g : GuaranteeConfig) (log : Log) (s : Requests ρ) :
    RequestEvent ρ → Requests ρ → Option Entry → Prop
  | idle (e) : RequestMove g log s e s none
  | tick (now : UInt64) :
      RequestMove g log s (.tick now) ⟨max s.clock now, s.admission, s.waiting⟩ none
  | read (r : ρ) (i : Intent) : RequestMove g log s (.readClock r i)
      ⟨s.clock, s.admission, Function.update s.waiting r (some (i, s.clock))⟩ none
  | refused (r : ρ) (fault : Option LogError) : RequestMove g log s (.enter r fault)
      ⟨s.clock, s.admission, Function.update s.waiting r none⟩ none
  | admitted (r : ρ) (i : Intent) (t : UInt64) (hw : s.waiting r = some (i, t))
      (hc : s.admission.check i.id i t = .ok ()) : RequestMove g log s (.enter r none)
      ⟨s.clock, s.admission.record i.id i.submitter i.nonce, Function.update s.waiting r none⟩
      (some (.intentReceived ⟨i.id, i, t⟩))
  | restart : RequestMove g log s .restart
      ⟨s.clock, Admission.recover log g, fun _ => none⟩ none

lemma requests_step_enter {r : ρ} {i : Intent} {t : UInt64} (hw : s.waiting r = some (i, t))
    (fault : Option LogError) :
    (requests g).step log s (.enter r fault) =
      (⟨s.clock, (admitAndAppend log s.admission i t fault).2.1,
          Function.update s.waiting r none⟩, (admitAndAppend log s.admission i t fault).2.2) := by
  simp only [requests, hw, submit_snd]

lemma requests_step_move (g : GuaranteeConfig) (log : Log) (s : Requests ρ)
    (e : RequestEvent ρ) :
    RequestMove g log s e ((requests g).step log s e).1 ((requests g).step log s e).2 := by
  cases e with
  | tick now => exact .tick now
  | readClock r i =>
    cases hw : s.waiting r with
    | none =>
      simp only [requests, hw]
      exact .read r i
    | some w =>
      simp only [requests, hw]
      exact .idle _
  | enter r fault =>
    cases hw : s.waiting r with
    | none =>
      simp only [requests, hw]
      exact .idle _
    | some w =>
      obtain ⟨i, t⟩ := w
      rw [requests_step_enter hw]
      rcases admitAndAppend_cases log s.admission i t fault with ⟨err, h⟩ | ⟨hc, rfl, h⟩
      · rw [h]
        exact .refused r fault
      · rw [h]
        exact .admitted r i t hw hc
  | restart => exact .restart

omit [Keccak256] in
lemma check_of_check_record {a : Admission} {id id' : IntentId} {i : Intent} {s : Address}
    {n t : UInt64} (h : (a.record id s n).check id' i t = .ok ()) : a.check id' i t = .ok () := by
  have hadm : i.Admissible a.guarantee t := (Admission.check_eq_ok_iff.mp h).1
  exact (Admission.grows_record a id s n).check_ok hadm h

omit [Keccak256] in
lemma StampsAgree.concat {x : IntentReceived} (h : StampsAgree log)
    (hx : ∀ y ∈ log.received, y.receivedAt ≤ x.receivedAt) :
    StampsAgree (log ++ [.intentReceived x]) := by
  rw [StampsAgree, Log.received_concat_received, List.pairwise_concat]
  exact ⟨h, hx⟩

/-! ### The clock -/

/-- No stamp is ahead of the clock. -/
structure Clocked (log : Log) (s : Requests ρ) : Prop where
  waiting : ∀ r i t, s.waiting r = some (i, t) → t ≤ s.clock
  received : ∀ x ∈ log.received, x.receivedAt ≤ s.clock

/-- Stamps agree with the log, and whoever is overtaken is refused. -/
structure InOrder (log : Log) (s : Requests ρ) : Prop where
  agree : StampsAgree log
  overtaken : ∀ r i t, s.waiting r = some (i, t) → ∀ x ∈ log.received, t < x.receivedAt →
    s.admission.check i.id i t ≠ .ok ()

omit [Keccak256] in
lemma waiting_of_update_none {waiting : ρ → Option (Intent × UInt64)} {r r' : ρ}
    {w : Intent × UInt64} (h : Function.update waiting r none r' = some w) :
    r' ≠ r ∧ waiting r' = some w := by
  by_cases hr : r' = r
  · rw [hr, Function.update_self] at h
    simp at h
  · rw [Function.update_of_ne hr] at h
    exact ⟨hr, h⟩

omit [Keccak256] in
lemma waiting_of_update_some {waiting : ρ → Option (Intent × UInt64)} {r r' : ρ}
    {w w' : Intent × UInt64} (h : Function.update waiting r (some w) r' = some w') :
    w' = w ∨ waiting r' = some w' := by
  by_cases hr : r' = r
  · rw [hr, Function.update_self] at h
    exact Or.inl (Option.some.inj h).symm
  · rw [Function.update_of_ne hr] at h
    exact Or.inr h

omit [Keccak256] in
lemma Clocked.leave (h : Clocked log s) (a : Admission) (r : ρ) :
    Clocked log ⟨s.clock, a, Function.update s.waiting r none⟩ where
  waiting := fun r' i t hw => h.waiting r' i t (waiting_of_update_none hw).2
  received := h.received

lemma RequestMove.clocked {e : RequestEvent ρ} {s' : Requests ρ} {o : Option Entry}
    (hmove : RequestMove g log s e s' o) (h : Clocked log s) : Clocked (log ++ o.toList) s' := by
  -- where nothing is appended
  have hstill : ∀ s' : Requests ρ, Clocked log s' →
      Clocked (log ++ (none : Option Entry).toList) s' := by
    intro s' hs'
    rwa [Option.toList_none, List.append_nil]
  cases hmove with
  | idle => exact hstill s h
  | tick now =>
    have hle : s.clock ≤ max s.clock now := (Admission.le_max_nonce s.clock now).1
    exact hstill _ ⟨fun r i t hw => UInt64.le_trans (h.waiting r i t hw) hle,
      fun x hx => UInt64.le_trans (h.received x hx) hle⟩
  | read r i =>
    refine hstill _ ⟨fun r' i' t hw => ?_, h.received⟩
    rcases waiting_of_update_some hw with heq | hw
    · obtain ⟨-, rfl⟩ := Prod.mk.inj heq
      exact UInt64.le_refl _
    · exact h.waiting r' i' t hw
  | refused r => exact hstill _ (h.leave s.admission r)
  | admitted r i t hw hc =>
    refine ⟨(h.leave s.admission r).waiting, fun x hx => ?_⟩
    rw [Option.toList_some, Log.received_concat_received, List.mem_append,
      List.mem_singleton] at hx
    rcases hx with hx | rfl
    · exact h.received x hx
    · exact h.waiting r i t hw
  | restart => exact hstill _ ⟨fun r i t hw => by simp at hw, h.received⟩

lemma InOrder.leave (h : InOrder log s) (r : ρ) :
    InOrder log ⟨s.clock, s.admission, Function.update s.waiting r none⟩ where
  agree := h.agree
  overtaken := fun r' i t hw => h.overtaken r' i t (waiting_of_update_none hw).2

omit [DecidableEq ρ] in
/-- Whoever is admitted has a stamp that is not before the ones admitted already. -/
lemma InOrder.stamp_le (h : InOrder log s) {r : ρ} {i : Intent} {t : UInt64}
    (hw : s.waiting r = some (i, t)) (hc : s.admission.check i.id i t = .ok ())
    {x : IntentReceived} (hx : x ∈ log.received) : x.receivedAt ≤ t := by
  by_contra hlt
  exact h.overtaken r i t hw x hx (UInt64.not_le.mp hlt) hc

/-- A move that overtakes nobody keeps the order. -/
lemma RequestMove.inOrder {e : RequestEvent ρ} {s' : Requests ρ} {o : Option Entry}
    (hmove : RequestMove g log s e s' o) (he : NoOvertaking log s e) (hclock : Clocked log s)
    (h : InOrder log s) : InOrder (log ++ o.toList) s' := by
  have hstill : ∀ s' : Requests ρ, InOrder log s' →
      InOrder (log ++ (none : Option Entry).toList) s' := by
    intro s' hs'
    rwa [Option.toList_none, List.append_nil]
  cases hmove with
  | idle => exact hstill s h
  | tick now => exact hstill _ ⟨h.agree, h.overtaken⟩
  | read r i =>
    refine hstill _ ⟨h.agree, fun r' i' t hw x hx hlt => ?_⟩
    rcases waiting_of_update_some hw with heq | hw
    · -- the new stamp is the clock, which no stamp is ahead of
      obtain ⟨-, rfl⟩ := Prod.mk.inj heq
      exact absurd (hclock.received x hx) (UInt64.not_le.mpr hlt)
    · exact h.overtaken r' i' t hw x hx hlt
  | refused r => exact hstill _ (h.leave r)
  | admitted r i t hw hc =>
    refine ⟨h.agree.concat fun x hx => h.stamp_le hw hc hx, fun r' i' t' hw' x hx hlt => ?_⟩
    obtain ⟨hr, hw'⟩ := waiting_of_update_none hw'
    rw [Option.toList_some, Log.received_concat_received, List.mem_append,
      List.mem_singleton] at hx
    rcases hx with hx | rfl
    · exact fun hc' => h.overtaken r' i' t' hw' x hx hlt (check_of_check_record hc')
    · exact he i t hw hc r' hr i' t' hw' hlt
  | restart => exact hstill _ ⟨h.agree, fun r i t hw => by simp at hw⟩

/-! ### Every interleaving -/

/-- The requests beside stages that admit nothing. -/
def requestSystem (ρ : Type*) [DecidableEq ρ] (g : GuaranteeConfig) :
    Stage Entry (Requests ρ × Unit) (RequestEvent ρ ⊕ Entry) :=
  (requests g).par (Stage.surroundings fun _ e => e.received? = none)

lemma requests_upholds_clocked (g : GuaranteeConfig) :
    (requests g : Stage Entry (Requests ρ) (RequestEvent ρ)).Upholds
      (fun _ e => e.received? = none) (fun _ _ => True) Clocked where
  init := ⟨fun r i t hw => by simp [requests] at hw, by simp⟩
  own := fun log s e h => (requests_step_move g log s e).clocked h
  emits := fun _ _ _ _ _ _ => trivial
  rely := fun log s x h hx => ⟨h.waiting, (Log.received_concat_of_none hx log).symm ▸ h.received⟩

/-- The run lemma: as long as nobody is overtaken, the stamps are in order. -/
lemma inOrder_run (g : GuaranteeConfig) (es : List (RequestEvent ρ ⊕ Entry))
    (hes : (requestSystem ρ g).Along (Stage.onLeft NoOvertaking) es) :
    InOrder ((requestSystem ρ g).run es).log ((requestSystem ρ g).run es).state.1 := by
  have hclocked : (requestSystem ρ g).Upholds _ _ fun log s => Clocked log s.1 :=
    (requests_upholds_clocked g).beside (fun _ e => e.received? = none) fun _ _ _ _ he => he
  refine hclocked.along_left (J := InOrder) ?_ ?_ ?_ es hes
  · exact ⟨List.Pairwise.nil, fun r i t hw => by simp [requests] at hw⟩
  · intro log s t e hclock h he
    exact (requests_step_move g log s e).inOrder he hclock h
  · intro log s t d x hclock h hx
    obtain ⟨rfl, hok⟩ := Stage.surroundings_step_eq_some hx
    refine ⟨?_, ?_⟩
    · rw [StampsAgree, Log.received_concat_of_none hok]
      exact h.agree
    · rw [Log.received_concat_of_none hok]
      exact h.overtaken

lemma InOrder.agree_enter (h : InOrder log s) (r : ρ) :
    StampsAgree (log ++ ((requests g).step log s (.enter r none)).2.toList) := by
  have hmove := requests_step_move g log s (.enter r none)
  generalize (requests g).step log s (.enter r none) = next at hmove ⊢
  obtain ⟨s', o⟩ := next
  cases hmove with
  | idle | refused =>
    rw [Option.toList_none, List.append_nil]
    exact h.agree
  | admitted r i t hw hc => exact h.agree.concat fun x hx => h.stamp_le hw hc hx

/-- A request that passes the check is admitted, where the log takes the append. -/
lemma requests_enter_of_check (log : Log) {r : ρ} {i : Intent} {t : UInt64}
    (hw : s.waiting r = some (i, t)) (hc : s.admission.check i.id i t = .ok ()) :
    (requests g).step log s (.enter r none) =
      (⟨s.clock, s.admission.record i.id i.submitter i.nonce, Function.update s.waiting r none⟩,
        some (.intentReceived ⟨i.id, i, t⟩)) := by
  rw [requests_step_enter hw]
  simp only [admitAndAppend, hc]

/-- A request that was overtaken and is admitted after all breaks the order. -/
lemma not_agree_of_overtaken {w : Stage.World Entry (Requests ρ × Unit)} {r r' : ρ}
    {i i' : Intent} {t t' : UInt64} (hw : w.state.1.waiting r = some (i, t))
    (hw' : w.state.1.waiting r' = some (i', t')) (hr : r' ≠ r) (hlt : t' < t)
    (hc : w.state.1.admission.check i.id i t = .ok ())
    (hc' : (w.state.1.admission.record i.id i.submitter i.nonce).check i'.id i' t' = .ok ()) :
    ¬ StampsAgree
      ((requestSystem ρ g).runFrom w [.inl (.enter r none), .inl (.enter r' none)]).log := by
  obtain ⟨log, ⟨s, u⟩⟩ := w
  have hfirst := requests_enter_of_check (g := g) log hw hc
  have hother : Function.update s.waiting r none r' = some (i', t') := by
    rw [Function.update_of_ne hr]
    exact hw'
  have hsecond := requests_enter_of_check (g := g)
    (log ++ [.intentReceived ⟨i.id, i, t⟩])
    (s := ⟨s.clock, s.admission.record i.id i.submitter i.nonce,
      Function.update s.waiting r none⟩) hother hc'
  have hlog : ((requestSystem ρ g).runFrom ⟨log, (s, u)⟩
      [.inl (.enter r none), .inl (.enter r' none)]).log =
        log ++ [.intentReceived ⟨i.id, i, t⟩] ++ [.intentReceived ⟨i'.id, i', t'⟩] := by
    show log ++ ((requests g).step log s (.enter r none)).2.toList ++
      ((requests g).step (log ++ ((requests g).step log s (.enter r none)).2.toList)
        ((requests g).step log s (.enter r none)).1 (.enter r' none)).2.toList = _
    rw [hfirst, Option.toList_some, hsecond, Option.toList_some]
  intro hagree
  rw [hlog, StampsAgree, Log.received_concat_received, Log.received_concat_received,
    List.pairwise_concat] at hagree
  have hle : t ≤ t' := hagree.2 ⟨i.id, i, t⟩ (by simp)
  exact UInt64.not_le.mpr hlt hle

/-- **Stamps agree with the log as long as nobody is overtaken.**  For any number of requests,
each reading the clock and then entering the gate, in every interleaving with the other
stages, failing appends and restarts, and with a clock that never goes backwards: if no
request that could still be admitted is overtaken by a later stamp, whoever is admitted
earlier has a stamp that is no greater.  And the condition is exact: it holds along a run if
and only if at no point of the run the next request to enter could break the order. -/
theorem stamps_agree_iff_no_overtaking (g : GuaranteeConfig)
    (es : List (RequestEvent ρ ⊕ Entry)) :
    ((requestSystem ρ g).Along (Stage.onLeft NoOvertaking) es →
        StampsAgree ((requestSystem ρ g).run es).log) ∧
      ((requestSystem ρ g).Along (Stage.onLeft NoOvertaking) es ↔
        ∀ es', es' <+: es → ∀ r,
          StampsAgree ((requestSystem ρ g).run (es' ++ [.inl (.enter r none)])).log) := by
  refine ⟨fun hes => (inOrder_run g es hes).agree, ?_, ?_⟩
  · intro hes es' hpre r
    rw [Stage.run_concat]
    exact (inOrder_run g es' (hes.of_prefix hpre)).agree_enter r
  · intro h
    induction es using List.reverseRecOn with
    | nil => trivial
    | append_singleton es e ih =>
      have hbefore := ih fun es' hpre => h es' (hpre.trans (List.prefix_append es [e]))
      refine Stage.alongFrom_append.mpr ⟨hbefore, ?_, trivial⟩
      rcases e with (_ | _ | ⟨r, fault⟩ | _) | x
      case inl.enter =>
        cases fault with
        | some e => trivial
        | none =>
          intro i t hw hc r' hr i' t' hw' hlt hc'
          refine not_agree_of_overtaken (g := g) hw hw' hr hlt hc hc' ?_
          have hnext := h (es ++ [.inl (.enter r none)]) List.prefix_rfl r'
          rw [Stage.run_concat, Stage.run_concat] at hnext
          exact hnext
      all_goals trivial

/-- Request 1 reads the clock after request 0, and gets the lock before it. -/
def overtaken : List (RequestEvent ℕ ⊕ Entry) :=
  [.inl (.tick testNow), .inl (.readClock 0 (dummy 0)), .inl (.tick (testNow + 1)),
    .inl (.readClock 1 (dummy 1)), .inl (.enter 1 none), .inl (.enter 0 none)]

omit [Keccak256] in
theorem stamps_disagree_overtaken :
    ¬ ∀ (g : GuaranteeConfig) (es : List (RequestEvent ℕ ⊕ Entry)),
      StampsAgree ((@requestSystem pairKeccak ℕ _ g).run es).log := by
  intro h
  have hagree := h testGuarantee overtaken
  revert hagree
  decide +kernel

end Requests

end Zequencer
