/-
# Admission

The gate an intent passes to enter the protocol.  Check, append and record run under one
lock, so a submission is one event of the gate; whether the log takes the append is up to
the log.
-/
import Mathlib.Data.Finset.Insert
import Zequencer.Lib.HashMap
import Zequencer.Source.Sequencer

namespace Zequencer

/-- Ceiling on declared slippage: 10_000 bps is 100%. -/
def MAX_SLIPPAGE_BPS : UInt16 := 10000

/-- The state of the gate, derived from the log. -/
structure Admission where
  guarantee : GuaranteeConfig
  /-- Every id admitted. -/
  seen : Finset IntentId
  /-- Highest nonce admitted per submitter. -/
  nonces : HashMap Address UInt64
deriving DecidableEq

/-- Why the gate turned an intent away. -/
inductive Rejection where
  | zeroSize
  | emptyMarket
  | slippageOutOfRange (got limit : UInt16)
  | expired (deadlineMs nowMs : UInt64)
  | unmeetableWindow (deadlineMs guaranteeDeadlineMs : UInt64)
  | replay (intentId : IntentId)
  | staleNonce (got last : UInt64)
deriving DecidableEq

/-- The gate turned the intent away, or the log did. -/
inductive AdmitError where
  | log (e : LogError)
  | rejected (r : Rejection)
deriving DecidableEq

namespace Admission

def new (g : GuaranteeConfig) : Admission := ⟨g, ∅, ∅⟩

def check (a : Admission) (id : IntentId) (intent : Intent) (nowMs : UInt64) :
    Except Rejection Unit :=
  if intent.size = 0 then .error .zeroSize
  else if intent.market.base.isEmpty ∨ intent.market.quote.isEmpty then .error .emptyMarket
  else if MAX_SLIPPAGE_BPS < intent.maxSlippageBps then
    .error (.slippageOutOfRange intent.maxSlippageBps MAX_SLIPPAGE_BPS)
  else if intent.deadlineMs ≤ nowMs then .error (.expired intent.deadlineMs nowMs)
  -- refuse what cannot be promised
  else if intent.deadlineMs < a.guarantee.deadlineFor nowMs then
    .error (.unmeetableWindow intent.deadlineMs (a.guarantee.deadlineFor nowMs))
  else if id ∈ a.seen then .error (.replay id)
  -- strictly increasing, not gapless
  else match a.nonces.lookup intent.submitter with
    | some last =>
      if intent.nonce ≤ last then .error (.staleNonce intent.nonce last) else .ok ()
    | none => .ok ()

def record (a : Admission) (id : IntentId) (submitter : Address) (nonce : UInt64) :
    Admission :=
  { a with
    seen := insert id a.seen
    nonces := (a.nonces.orInsert submitter nonce).modify submitter fun high => max high nonce }

/-- One entry of the loop of `recover`. -/
def recoverEntry (a : Admission) : Entry → Admission
  | .intentReceived r => a.record r.intentId r.intent.submitter r.intent.nonce
  | _ => a

/-- Rebuild from the log. -/
def recover (log : Log) (g : GuaranteeConfig) : Admission := log.foldl recoverEntry (new g)

end Admission

/-- Admit an intent and append it, atomically: the answer, the gate afterwards, and the
entry that was written.  `fault` is the error of the log, where the append fails. -/
def admitAndAppend [Keccak256] (log : Log) (a : Admission) (intent : Intent) (nowMs : UInt64)
    (fault : Option LogError) : Except AdmitError (IntentId × ℕ) × Admission × Option Entry :=
  match a.check intent.id intent nowMs, fault with
  | .error r, _ => (.error (.rejected r), a, none)
  | .ok (), some e => (.error (.log e), a, none)
  | .ok (), none =>
    (.ok (intent.id, log.head), a.record intent.id intent.submitter intent.nonce,
      some (.intentReceived ⟨intent.id, intent, nowMs⟩))

/-- What may happen at the gate. -/
inductive GateEvent where
  /-- A call of `admit_and_append`, with the clock reading and the fault of the log. -/
  | submit (intent : Intent) (nowMs : UInt64) (fault : Option LogError)
  /-- A restart of the gate, through `Admission::recover`. -/
  | restart

/-- The gate as a stage of the log. -/
def gate [Keccak256] (g : GuaranteeConfig) : Stage Entry Admission GateEvent where
  init := Admission.new g
  step log a
    | .submit intent nowMs fault => (admitAndAppend log a intent nowMs fault).2
    | .restart => (Admission.recover log g, none)

/-! ### What a submission does -/

/-- The rules an intent must meet at the moment it is received, whatever was admitted
before it. -/
structure Intent.Admissible (g : GuaranteeConfig) (i : Intent) (nowMs : UInt64) : Prop where
  size : i.size ≠ 0
  base : i.market.base ≠ ""
  quote : i.market.quote ≠ ""
  slippage : i.maxSlippageBps ≤ MAX_SLIPPAGE_BPS
  deadline : nowMs < i.deadlineMs
  window : g.deadlineFor nowMs ≤ i.deadlineMs

namespace Admission

/-- The gate lets an intent pass exactly when the intent is admissible, its id is new and
its nonce is above the highest one of its submitter. -/
lemma check_eq_ok_iff {a : Admission} {id : IntentId} {i : Intent} {nowMs : UInt64} :
    a.check id i nowMs = .ok () ↔
      i.Admissible a.guarantee nowMs ∧ id ∉ a.seen ∧
        ∀ last, a.nonces.lookup i.submitter = some last → last < i.nonce := by
  unfold check
  constructor
  · intro h
    split_ifs at h with h₁ h₂ h₃ h₄ h₅ h₆
    rw [not_or] at h₂
    refine ⟨⟨h₁, by simpa using h₂.1, by simpa using h₂.2, by simpa using h₃, by simpa using h₄,
      by simpa using h₅⟩, h₆, fun last hlast => ?_⟩
    rw [hlast] at h
    by_contra hle
    rw [UInt64.not_lt] at hle
    simp [hle] at h
  · rintro ⟨⟨h₁, h₂, h₃, h₄, h₅, h₆⟩, h₇, h₈⟩
    rw [if_neg h₁, if_neg (by simp [h₂, h₃]), if_neg (by simpa using h₄),
      if_neg (by simpa using h₅), if_neg (by simpa using h₆), if_neg h₇]
    cases hl : a.nonces.lookup i.submitter with
    | none => rfl
    | some last =>
      have hlt : ¬ i.nonce ≤ last := UInt64.not_le.mpr (h₈ last hl)
      simp [hlt]

@[simp] lemma seen_record (a : Admission) (id : IntentId) (s : Address) (n : UInt64) :
    (a.record id s n).seen = insert id a.seen := rfl

lemma lookup_nonces_record (a : Admission) (id : IntentId) (s s' : Address) (n : UInt64) :
    (a.record id s n).nonces.lookup s' =
      if s' = s then some (max ((a.nonces.lookup s).getD n) n) else a.nonces.lookup s' := by
  simp only [record, HashMap.lookup_modify, HashMap.lookup_orInsert]
  split_ifs <;> rfl

lemma le_max_nonce (m n : UInt64) : m ≤ max m n ∧ n ≤ max m n := by
  change m ≤ (if m ≤ n then n else m) ∧ n ≤ (if m ≤ n then n else m)
  split_ifs with h
  · exact ⟨h, UInt64.le_refl n⟩
  · exact ⟨UInt64.le_refl m, UInt64.le_of_lt (UInt64.not_le.mp h)⟩

lemma recover_append (log : Log) (e : Entry) (g : GuaranteeConfig) :
    recover (log ++ [e]) g = recoverEntry (recover log g) e := by
  simp [recover, List.foldl_append]

lemma guarantee_recoverEntry (a : Admission) (e : Entry) :
    (recoverEntry a e).guarantee = a.guarantee := by
  cases e <;> rfl

@[simp] lemma guarantee_recover (log : Log) (g : GuaranteeConfig) :
    (recover log g).guarantee = g := by
  induction log using List.reverseRecOn with
  | nil => rfl
  | append_singleton log e ih => rw [recover_append, guarantee_recoverEntry, ih]

end Admission

/-- A submission is refused and changes nothing, or it is admitted: the check passed, the
intent is recorded, and its entry is written. -/
lemma admitAndAppend_cases [Keccak256] (log : Log) (a : Admission) (i : Intent)
    (nowMs : UInt64) (fault : Option LogError) :
    (∃ e, admitAndAppend log a i nowMs fault = (.error e, a, none)) ∨
      (a.check i.id i nowMs = .ok () ∧ fault = none ∧
        admitAndAppend log a i nowMs fault =
          (.ok (i.id, log.length), a.record i.id i.submitter i.nonce,
            some (.intentReceived ⟨i.id, i, nowMs⟩))) := by
  unfold admitAndAppend
  rcases hc : a.check i.id i nowMs with r | ⟨⟩
  · exact Or.inl ⟨_, rfl⟩
  · cases fault with
    | some e => exact Or.inl ⟨_, rfl⟩
    | none => exact Or.inr ⟨rfl, rfl, rfl⟩

end Zequencer
