/-
# Which entries leave a terminal intent alone

An attestation and a proof ask where a slot stands; a miss and the two failures do not.
So a terminal lifecycle stays exactly as long as none of these three meets the intent, or
meets it with the failure that is reported already.  A miss stays whatever comes.
-/
import Zequencer.Projection.Coherence
import Zequencer.Projection.Steps

namespace Zequencer

/-- No slot is committed twice, and no id is in two slots. -/
def Log.CommittedOnce (log : Log) : Prop :=
  log.commits.Pairwise fun c c' => c.slot ≠ c'.slot ∧ ∀ id ∈ c.intents, id ∉ c'.intents

instance : DecidablePred Log.CommittedOnce := fun log =>
  inferInstanceAs (Decidable (log.commits.Pairwise fun c c' =>
    c.slot ≠ c'.slot ∧ ∀ id ∈ c.intents, id ∉ c'.intents))

/-- The entry leaves an intent alone that is in a slot and reported as `l`. -/
def Entry.Spares (id : IntentId) (slot : ℕ) (l : Lifecycle) : Entry → Prop
  | .intentExpired x => x.intentId ≠ id
  | .attestFailed f => slot = f.slot → l = .failed f.reason
  | .proveFailed f => f.fromSlot ≤ slot ∧ slot ≤ f.toSlot → l = .failed f.reason
  | _ => True

instance (id : IntentId) (slot : ℕ) (l : Lifecycle) : DecidablePred (Entry.Spares id slot l) :=
  fun e => by cases e <;> unfold Entry.Spares <;> infer_instance

variable {g : GuaranteeConfig} {log : Log} {e : Entry} {id : IntentId} {l : Lifecycle}

lemma Log.CommittedOnce.of_append {rest : Log} (h : Log.CommittedOnce (log ++ rest)) :
    Log.CommittedOnce log := by
  rw [CommittedOnce, commits_append, List.pairwise_append] at h
  exact h.1

/-- A new slot has a new number, and the id of a slot so far is not in it. -/
lemma Log.CommittedOnce.apart {c c' : SlotCommitted}
    (h : Log.CommittedOnce (log ++ [.slotCommitted c'])) (hc : c ∈ log.commits) :
    c.slot ≠ c'.slot ∧ ∀ id ∈ c.intents, id ∉ c'.intents := by
  rw [CommittedOnce, commits_append, List.pairwise_append] at h
  exact h.2.2 c hc c' (by simp [commits, Entry.committed?])

lemma Log.CommittedOnce.eq_of_mem {c c' : SlotCommitted} (h : log.CommittedOnce)
    (hc : c ∈ log.commits) (hc' : c' ∈ log.commits) (hid : id ∈ c.intents)
    (hid' : id ∈ c'.intents) : c = c' := by
  by_contra hne
  have hsymm : Std.Symm fun c c' : SlotCommitted => ∀ id ∈ c.intents, id ∉ c'.intents :=
    ⟨fun c c' h id hid' hid => h id hid hid'⟩
  exact (h.imp fun h => h.2).forall hc hc' hne id hid hid'

namespace Projections

lemma reported_of_slot {p : Projections} {row : IntentRow} {slot : ℕ} {sr : SlotRow}
    (hrow : p.intents.lookup id = some row) (hexpired : row.expired = none)
    (hslot : row.slot = some slot) (hsr : p.slots.lookup slot = some sr) :
    p.reported id = some sr.stage.lifecycle := by
  rw [reported_of_lookup hrow, lifecycle_of_slot hexpired hslot, hsr, Option.map_some]

/-- An intent that is reported as proven or failed is in a slot at that stage. -/
lemma exists_slot_of_terminal (h : (ofLog g log).reported id = some l) (hl : l.Terminal)
    (hne : l ≠ .expired) : ∃ row c sr, (ofLog g log).intents.lookup id = some row ∧
      row.expired = none ∧ c ∈ log.commits ∧ id ∈ c.intents ∧ row.slot = some c.slot ∧
        (ofLog g log).slots.lookup c.slot = some sr ∧ sr.stage.lifecycle = l := by
  cases hrow : (ofLog g log).intents.lookup id with
  | none => simp [reported_of_lookup_eq_none hrow] at h
  | some row =>
    by_cases hexpired : row.expired = none
    · cases hslot : row.slot with
      | none =>
        rw [reported_of_lookup hrow, lifecycle_of_waiting hexpired hslot] at h
        obtain rfl := Option.some.inj h
        exact hl.elim
      | some slot =>
        obtain ⟨c, hc, rfl, hid⟩ := (intentRow_sourced g log id row hrow).slot slot hslot
        obtain ⟨sr, hsr⟩ := exists_slotRow hrow hslot
        rw [reported_of_slot hrow hexpired hslot hsr] at h
        exact ⟨row, c, sr, rfl, hexpired, hc, hid, hslot, hsr, Option.some.inj h⟩
    · rw [reported_of_lookup hrow, lifecycle_of_expired hexpired] at h
      exact absurd (Option.some.inj h).symm hne

lemma exists_expired_onEntry {row : IntentRow} (h : row.expired ≠ none) (pos : ℕ) (e : Entry) :
    ∃ row', IntentRow.onEntry id pos (some row) e = some row' ∧ row'.expired ≠ none := by
  cases e with
  | intentReceived r =>
    rw [IntentRow.onEntry, Option.getD_some, ite_self]
    exact ⟨row, rfl, h⟩
  | intentExpired x =>
    rw [IntentRow.onEntry]
    split_ifs with hid
    · exact ⟨_, rfl, Option.some_ne_none _⟩
    · exact ⟨row, rfl, h⟩
  | slotCommitted c =>
    rw [IntentRow.onEntry]
    cases lastIndex c.intents id with
    | some i => exact ⟨_, rfl, h⟩
    | none => exact ⟨row, rfl, h⟩
  | _ => exact ⟨row, rfl, h⟩

lemma reported_append_of_expired (h : (ofLog g log).reported id = some .expired) (e : Entry) :
    (ofLog g (log ++ [e])).reported id = some .expired := by
  cases hrow : (ofLog g log).intents.lookup id with
  | none => simp [reported_of_lookup_eq_none hrow] at h
  | some row =>
    have hexpired : row.expired ≠ none := by
      intro hnone
      rw [reported_of_lookup hrow] at h
      cases hslot : row.slot with
      | none => simp [lifecycle_of_waiting hnone hslot] at h
      | some slot =>
        obtain ⟨sr, hsr⟩ := exists_slotRow hrow hslot
        rw [lifecycle_of_slot hnone hslot, hsr, Option.map_some] at h
        cases hstage : sr.stage <;> simp [hstage, SlotStage.lifecycle] at h
    obtain ⟨row', hrow', hexpired'⟩ := exists_expired_onEntry hexpired log.length e
    rw [← hrow, ← lookup_intents_apply, ← ofLog_append] at hrow'
    rw [reported_of_lookup hrow', lifecycle_of_expired hexpired']

/-- Where no slot is committed twice, and no id in two slots: an entry leaves a terminal
intent as it is reported exactly when it spares it. -/
lemma reported_append_iff (honce : Log.CommittedOnce (log ++ [e]))
    (h : (ofLog g log).reported id = some l) (hl : l.Terminal) (hne : l ≠ .expired)
    {c : SlotCommitted} (hc : c ∈ log.commits) (hid : id ∈ c.intents) :
    (ofLog g (log ++ [e])).reported id = some l ↔ e.Spares id c.slot l := by
  obtain ⟨row, c', sr, hrow, hexpired, hc', hid', hslot, hsr, rfl⟩ :=
    exists_slot_of_terminal h hl hne
  obtain rfl := honce.of_append.eq_of_mem hc' hc hid' hid
  have hrow' := lookup_intents_apply (ofLog g log) log.length e id
  have hsr' := lookup_slots_apply (ofLog g log) log.length e c'.slot
  rw [← ofLog_append, hrow] at hrow'
  rw [← ofLog_append, hsr] at hsr'
  -- a terminal stage is past attestation and proof
  have hcommitted : sr.stage ≠ .committed := by
    intro hstage
    rw [hstage] at hl
    exact hl
  have hpreconfirmed : sr.stage ≠ .preconfirmed := by
    intro hstage
    rw [hstage] at hl
    exact hl
  have hreport : ∀ sr', (ofLog g (log ++ [e])).intents.lookup id = some row →
      (ofLog g (log ++ [e])).slots.lookup c'.slot = some sr' →
        (ofLog g (log ++ [e])).reported id = some sr'.stage.lifecycle :=
    fun sr' hrow' hsr' => reported_of_slot hrow' hexpired hslot hsr'
  have hsame : (ofLog g (log ++ [e])).intents.lookup id = some row →
      (ofLog g (log ++ [e])).slots.lookup c'.slot = some sr →
        (ofLog g (log ++ [e])).reported id = some sr.stage.lifecycle := hreport sr
  cases e with
  | intentReceived r =>
    rw [IntentRow.onEntry, Option.getD_some, ite_self] at hrow'
    exact iff_of_true (hsame hrow' hsr') trivial
  | intentExpired x =>
    rw [IntentRow.onEntry] at hrow'
    by_cases hx : id = x.intentId
    · rw [if_pos hx, Option.map_some] at hrow'
      have hnot : ¬ (Entry.intentExpired x).Spares id c'.slot sr.stage.lifecycle :=
        fun hspares => hspares hx.symm
      refine iff_of_false ?_ hnot
      rw [reported_of_lookup hrow', lifecycle_of_expired (Option.some_ne_none _)]
      exact fun heq => hne (Option.some.inj heq).symm
    · rw [if_neg hx] at hrow'
      exact iff_of_true (hsame hrow' hsr') (Ne.symm hx)
  | slotCommitted d =>
    obtain ⟨hnumber, hids⟩ := honce.apart hc'
    rw [IntentRow.onEntry, lastIndex_eq_none.mpr (hids id hid')] at hrow'
    rw [SlotRow.onEntry, if_neg hnumber] at hsr'
    exact iff_of_true (hsame hrow' hsr') trivial
  | slotAttested a =>
    have hstay : SlotRow.attested a sr = sr := by rw [SlotRow.attested, if_neg hcommitted]
    rw [SlotRow.onEntry, Option.map_some, hstay, ite_self] at hsr'
    exact iff_of_true (hsame hrow' hsr') trivial
  | slotsProven p =>
    have hstay : SlotRow.proven p sr = sr := by rw [SlotRow.proven, if_neg hpreconfirmed]
    rw [SlotRow.onEntry, Option.map_some, hstay, ite_self] at hsr'
    exact iff_of_true (hsame hrow' hsr') trivial
  | attestFailed f | proveFailed f =>
    rw [SlotRow.onEntry, Option.map_some] at hsr'
    split_ifs at hsr' with hf
    · rw [hreport _ hrow' hsr', Option.some.injEq, Entry.Spares]
      exact ⟨fun heq _ => heq.symm, fun heq => (heq hf).symm⟩
    · exact iff_of_true (hsame hrow' hsr') fun hin => absurd hin hf

end Projections

open Projections in
/-- **When a terminal lifecycle stays.**  For every log that commits no slot twice and no id
in two slots: a miss that is reported stays whatever comes, and a proven or failed intent is
reported as such from then on exactly when every further entry spares it. -/
theorem terminal_stays_iff (g : GuaranteeConfig) (log rest : Log)
    (honce : Log.CommittedOnce (log ++ rest)) (id : IntentId) (l : Lifecycle)
    (h : (ofLog g log).reported id = some l) (hl : l.Terminal) :
    (∀ n, (ofLog g (log ++ rest.take n)).reported id = some l) ↔
      l = .expired ∨ ∀ c ∈ log.commits, id ∈ c.intents → ∀ e ∈ rest, e.Spares id c.slot l := by
  -- one more entry of the rest
  have hsucc : ∀ n (hn : n < rest.length),
      log ++ rest.take (n + 1) = (log ++ rest.take n) ++ [rest[n]] := by
    intro n hn
    rw [List.take_succ_eq_append_getElem hn, List.append_assoc]
  have honce' : ∀ n, Log.CommittedOnce (log ++ rest.take n) := by
    intro n
    have hsplit : log ++ rest = (log ++ rest.take n) ++ rest.drop n := by
      rw [List.append_assoc, List.take_append_drop]
    rw [hsplit] at honce
    exact honce.of_append
  by_cases hne : l = .expired
  · subst hne
    refine iff_of_true (fun n => ?_) (Or.inl rfl)
    induction n with
    | zero => simpa using h
    | succ n ih =>
      by_cases hn : n < rest.length
      · rw [hsucc n hn]
        exact reported_append_of_expired ih _
      · rw [List.take_of_length_le (by omega)] at ih ⊢
        exact ih
  · rw [or_iff_right hne]
    obtain ⟨-, c, -, -, -, hc, hid, -⟩ := exists_slot_of_terminal h hl hne
    have hstep : ∀ n (hn : n < rest.length),
        (ofLog g (log ++ rest.take n)).reported id = some l →
          ((ofLog g (log ++ rest.take (n + 1))).reported id = some l ↔
            rest[n].Spares id c.slot l) := by
      intro n hn hat
      have honce₁ := honce' (n + 1)
      rw [hsucc n hn] at honce₁ ⊢
      exact reported_append_iff honce₁ hat hl hne (Log.mem_commits_append_left hc _) hid
    constructor
    · intro hstays c' hc' hid' e he
      obtain rfl := (honce.of_append).eq_of_mem hc hc' hid hid'
      obtain ⟨n, hn, rfl⟩ := List.getElem_of_mem he
      exact (hstep n hn (hstays n)).mp (hstays (n + 1))
    · intro hspares n
      induction n with
      | zero => simpa using h
      | succ n ih =>
        by_cases hn : n < rest.length
        · exact (hstep n hn ih).mpr (hspares c hc hid _ (List.getElem_mem hn))
        · rw [List.take_of_length_le (by omega)] at ih ⊢
          exact ih

/-- What may follow a proof: a ruling that comes twice, and a failure elsewhere. -/
def lateLog : Log :=
  [.slotAttested ⟨4, [2], ⟨Bytes.ofNat 32 9⟩⟩, .attestFailed ⟨5, "late"⟩]

theorem terminal_stays_iff_provenLog :
    (Projections.ofLog testGuarantee provenLog).reported ⟨Bytes.ofNat 32 7⟩ =
        some .finalProven ∧
      ∀ n, (Projections.ofLog testGuarantee (provenLog ++ lateLog.take n)).reported
        ⟨Bytes.ofNat 32 7⟩ = some .finalProven :=
  ⟨by decide +kernel, (terminal_stays_iff testGuarantee provenLog lateLog (by decide +kernel)
    ⟨Bytes.ofNat 32 7⟩ .finalProven (by decide +kernel) trivial).mpr
      (Or.inr (by decide +kernel))⟩

/-- A failure of attestation after the proof takes the proof back. -/
theorem proven_then_failed :
    ¬ ∀ (g : GuaranteeConfig) (log rest : Log), Log.CommittedOnce (log ++ rest) →
      ∀ (id : IntentId) (l : Lifecycle), (Projections.ofLog g log).reported id = some l →
        l.Terminal → (Projections.ofLog g (log ++ rest)).reported id = some l := by
  intro h
  have hreported := h testGuarantee provenLog [.attestFailed ⟨4, "late"⟩] (by decide +kernel)
    ⟨Bytes.ofNat 32 7⟩ .finalProven (by decide +kernel) trivial
  revert hreported
  decide +kernel

end Zequencer
