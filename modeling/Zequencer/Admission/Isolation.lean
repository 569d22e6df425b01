/-
# Submitters do not affect each other's admission

The ids admitted are shared by all submitters, the nonces are kept for each of them.  As
long as intents of different submitters have different ids, the gate that serves everybody
and one that serves a single submitter look the same to that submitter.
-/
import Zequencer.Admission.History

namespace Zequencer

section Isolation

variable [Keccak256] {s : Address} {ids : Set IntentId} {a b : Admission} {i : Intent}

/-- The outcomes of a sequence of submissions, each with its clock reading, on a log that
takes every append: the id, or the error. -/
def outcomes (log : Log) (a : Admission) :
    List (Intent × UInt64) → List (Intent × Except AdmitError IntentId)
  | [] => []
  | (i, nowMs) :: rest =>
    let (answer, a', written) := admitAndAppend log a i nowMs none
    (i, answer.map Prod.fst) :: outcomes (log ++ written.toList) a' rest

/-- Two gates look the same to a submitter with these ids. -/
structure LooksSame (s : Address) (ids : Set IntentId) (a b : Admission) : Prop where
  guarantee : a.guarantee = b.guarantee
  seen : ∀ id ∈ ids, id ∈ a.seen ↔ id ∈ b.seen
  nonces : a.nonces.lookup s = b.nonces.lookup s

omit [Keccak256] in
lemma LooksSame.check_eq (h : LooksSame s ids a b) {id : IntentId} (hs : i.submitter = s)
    (hid : id ∈ ids) (nowMs : UInt64) : a.check id i nowMs = b.check id i nowMs := by
  have hnonce : a.nonces.lookup i.submitter = b.nonces.lookup i.submitter := hs ▸ h.nonces
  simp only [Admission.check, h.guarantee, h.seen id hid, hnonce]

omit [Keccak256] in
lemma LooksSame.record (h : LooksSame s ids a b) (id : IntentId) (nonce : UInt64) :
    LooksSame s ids (a.record id s nonce) (b.record id s nonce) where
  guarantee := h.guarantee
  seen := by
    intro id' hid'
    rw [Admission.seen_record, Admission.seen_record, Finset.mem_insert, Finset.mem_insert,
      h.seen id' hid']
  nonces := by
    rw [Admission.lookup_nonces_record, Admission.lookup_nonces_record, if_pos rfl, if_pos rfl,
      h.nonces]

omit [Keccak256] in
lemma LooksSame.record_other (h : LooksSame s ids a b) {id : IntentId} {s' : Address}
    (hid : id ∉ ids) (hs : s' ≠ s) (nonce : UInt64) :
    LooksSame s ids (a.record id s' nonce) b where
  guarantee := h.guarantee
  seen := by
    intro id' hid'
    have hne : id' ≠ id := fun heq => hid (heq ▸ hid')
    rw [Admission.seen_record, Finset.mem_insert, or_iff_right hne, h.seen id' hid']
  nonces := by
    rw [Admission.lookup_nonces_record, if_neg (Ne.symm hs), h.nonces]

lemma admitAndAppend_of_check (log : Log) (a : Admission) (i : Intent) (nowMs : UInt64) :
    admitAndAppend log a i nowMs none =
      match a.check i.id i nowMs with
      | .error r => (.error (.rejected r), a, none)
      | .ok () => (.ok (i.id, log.head), a.record i.id i.submitter i.nonce,
          some (.intentReceived ⟨i.id, i, nowMs⟩)) := by
  unfold admitAndAppend
  cases a.check i.id i nowMs with
  | error r => rfl
  | ok u => rfl

/-- Gates that look the same to a submitter go on to answer it the same, whoever else is
served in between. -/
lemma LooksSame.outcomes_eq (subs : List (Intent × UInt64))
    (hids : ∀ x ∈ subs, x.1.submitter = s ↔ x.1.id ∈ ids) {log log' : Log}
    (h : LooksSame s ids a b) :
    (outcomes log a subs).filter (fun o => o.1.submitter = s) =
      outcomes log' b (subs.filter fun x => x.1.submitter = s) := by
  induction subs generalizing log log' a b with
  | nil => rfl
  | cons x subs ih =>
    obtain ⟨i, nowMs⟩ := x
    have hi := hids (i, nowMs) List.mem_cons_self
    have hrest : ∀ x ∈ subs, x.1.submitter = s ↔ x.1.id ∈ ids :=
      fun x hx => hids x (List.mem_cons_of_mem _ hx)
    by_cases hs : i.submitter = s
    · have hcheck := h.check_eq hs (hi.mp hs) nowMs
      rw [List.filter_cons_of_pos (by simpa using hs), outcomes, outcomes,
        admitAndAppend_of_check, admitAndAppend_of_check, hcheck]
      cases b.check i.id i nowMs with
      | error r =>
        rw [List.filter_cons_of_pos (by simpa using hs)]
        exact congrArg _ (ih hrest h)
      | ok u =>
        rw [List.filter_cons_of_pos (by simpa using hs)]
        refine congrArg _ (ih hrest ?_)
        rw [hs]
        exact h.record i.id i.nonce
    · have hid : i.id ∉ ids := fun hmem => hs (hi.mpr hmem)
      rw [List.filter_cons_of_neg (by simpa using hs), outcomes, admitAndAppend_of_check]
      cases a.check i.id i nowMs with
      | error r =>
        rw [List.filter_cons_of_neg (by simpa using hs)]
        exact ih hrest h
      | ok u =>
        rw [List.filter_cons_of_neg (by simpa using hs)]
        exact ih hrest (h.record_other hid hs i.nonce)

/-- **Submitters do not affect each other's admission.**  When intents of different
submitters have different ids, a gate answers the submissions of each submitter as it would
answer them alone, at the same clock readings. -/
theorem admission_isolated (log : Log) (a : Admission) (subs : List (Intent × UInt64))
    (hids : ∀ x ∈ subs, ∀ y ∈ subs, x.1.submitter ≠ y.1.submitter → x.1.id ≠ y.1.id)
    (s : Address) :
    (outcomes log a subs).filter (fun o => o.1.submitter = s) =
      outcomes log a (subs.filter fun x => x.1.submitter = s) := by
  have hsame : LooksSame s {id | ∃ x ∈ subs, x.1.submitter = s ∧ x.1.id = id} a a :=
    ⟨rfl, fun _ _ => Iff.rfl, rfl⟩
  refine hsame.outcomes_eq subs fun x hx => ?_
  constructor
  · exact fun hs => ⟨x, hx, hs, rfl⟩
  · rintro ⟨y, hy, hs, hid⟩
    by_contra hne
    exact hids y hy x hx (fun heq => hne (heq ▸ hs)) hid

/-- Keccak-256, on two of the fixture intents. -/
@[reducible] def pairKeccak : Keccak256 where
  digest bytes :=
    if bytes = (dummy 1).encoding then
      Bytes.ofNat 32 0x871d852005085ca56e1ad59b71c1febee3758b3ab89cf002fa70e6fa6b2da2b2
    else fixtureKeccak.digest bytes

/-- Two submitters take turns, and each repeats itself. -/
def takingTurns : List (Intent × UInt64) :=
  [(dummy 0, testNow), (dummy 1, testNow), (dummy 1, testNow + 1), (dummy 0, testNow + 2)]

omit [Keccak256] in
theorem admission_isolated_takingTurns :
    (@outcomes pairKeccak [] (.new testGuarantee) takingTurns).filter
        (fun o => o.1.submitter = (dummy 0).submitter) =
      @outcomes pairKeccak [] (.new testGuarantee)
        (takingTurns.filter fun x => x.1.submitter = (dummy 0).submitter) :=
  @admission_isolated pairKeccak [] (.new testGuarantee) takingTurns (by decide +kernel) _

end Isolation

end Zequencer
