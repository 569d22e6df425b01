/-
# What is shown stays shown

A row is only ever added to: an orderly log holds no second place for an intent, no second
commit of a slot, and no second ruling or outcome that would replace the evidence.  So whatever a
receipt shows is on every receipt of a longer log, too.
-/
import Mathlib.Logic.Relation
import Zequencer.Projection.Coherence
import Zequencer.Projection.Steps

namespace Zequencer

variable {g : GuaranteeConfig} {batchSize : ℕ} {log : Log} {e : Entry} {id : IntentId}

/-! ### Rows -/

/-- The row of an intent is only added to. -/
structure IntentRow.KeptBy (row row' : IntentRow) : Prop where
  position : row'.position = row.position
  receivedAtMs : row'.receivedAtMs = row.receivedAtMs
  deadlineMs : row'.deadlineMs = row.deadlineMs
  /-- An intent in a slot stays there, and is not missed any more. -/
  place : ∀ slot, row.slot = some slot →
    row'.slot = some slot ∧ row'.indexInSlot = row.indexInSlot ∧ row'.expired = row.expired
  expired : row.expired ≠ none → row'.expired ≠ none

lemma IntentRow.KeptBy.refl (row : IntentRow) : row.KeptBy row :=
  ⟨rfl, rfl, rfl, fun _ h => ⟨h, rfl, rfl⟩, fun h => h⟩

lemma IntentRow.KeptBy.trans {row row' row'' : IntentRow} (h : row.KeptBy row')
    (h' : row'.KeptBy row'') : row.KeptBy row'' where
  position := h'.position.trans h.position
  receivedAtMs := h'.receivedAtMs.trans h.receivedAtMs
  deadlineMs := h'.deadlineMs.trans h.deadlineMs
  place := by
    intro slot hslot
    obtain ⟨hslot', hindex, hexpired⟩ := h.place slot hslot
    obtain ⟨hslot'', hindex', hexpired'⟩ := h'.place slot hslot'
    exact ⟨hslot'', hindex'.trans hindex, hexpired'.trans hexpired⟩
  expired := fun hexpired => h'.expired (h.expired hexpired)

/-- The row of a slot is only added to. -/
structure SlotRow.KeptBy (sr sr' : SlotRow) : Prop where
  committedAtMs : sr'.committedAtMs = sr.committedAtMs
  commitment : sr'.commitment = sr.commitment
  preconf : ∀ pc, sr.preconf = some pc → sr'.preconf = some pc
  proof : ∀ pr, sr.proof = some pr → sr'.proof = some pr

lemma SlotRow.KeptBy.refl (sr : SlotRow) : sr.KeptBy sr :=
  ⟨rfl, rfl, fun _ h => h, fun _ h => h⟩

lemma SlotRow.KeptBy.trans {sr sr' sr'' : SlotRow} (h : sr.KeptBy sr') (h' : sr'.KeptBy sr'') :
    sr.KeptBy sr'' where
  committedAtMs := h'.committedAtMs.trans h.committedAtMs
  commitment := h'.commitment.trans h.commitment
  preconf := fun pc hpc => h'.preconf pc (h.preconf pc hpc)
  proof := fun pr hpr => h'.proof pr (h.proof pr hpr)

lemma SlotRow.keptBy_attested {slot : ℕ} {sr : SlotRow} (h : sr.Evident log slot)
    (a : SlotAttested) : sr.KeptBy (sr.attested a) := by
  rw [SlotRow.attested]
  split_ifs with hstage
  · refine ⟨rfl, rfl, fun pc hpc => ?_, fun pr hpr => hpr⟩
    rw [h.committed hstage] at hpc
    exact absurd hpc (by simp)
  · exact KeptBy.refl sr

lemma SlotRow.keptBy_proven {slot : ℕ} {sr : SlotRow} (h : sr.Evident log slot)
    (p : SlotsProven) : sr.KeptBy (sr.proven p) := by
  rw [SlotRow.proven]
  split_ifs with hstage
  · refine ⟨rfl, rfl, fun pc hpc => hpc, fun pr hpr => ?_⟩
    rw [(h.preconfirmed hstage).2] at hpr
    exact absurd hpr (by simp)
  · exact KeptBy.refl sr

namespace Projections

/-- One more entry of an orderly log adds to the row of an intent. -/
lemma intentRow_keptBy_append (h' : Orderly batchSize (log ++ [e])) {row : IntentRow}
    (hrow : (ofLog g log).intents.lookup id = some row) :
    ∃ row', (ofLog g (log ++ [e])).intents.lookup id = some row' ∧ row.KeptBy row' := by
  have happly := lookup_intents_apply (ofLog g log) log.length e id
  rw [← ofLog_append, hrow] at happly
  rw [happly]
  cases e with
  | intentReceived r =>
    rw [IntentRow.onEntry, Option.getD_some, ite_self]
    exact ⟨row, rfl, .refl row⟩
  | intentExpired x =>
    rw [IntentRow.onEntry]
    split_ifs with hid
    · refine ⟨_, rfl, rfl, rfl, rfl, fun slot hslot => ?_, fun _ => Option.some_ne_none _⟩
      -- a miss is of an intent in no slot
      obtain ⟨c, hc, -, hmem⟩ := (intentRow_sourced g log id row hrow).slot slot hslot
      exact absurd (List.mem_flatMap.mpr ⟨c, hc, hid ▸ hmem⟩) (h'.misses log x [] rfl)
    · exact ⟨row, rfl, .refl row⟩
  | slotCommitted c =>
    rw [IntentRow.onEntry]
    cases hindex : lastIndex c.intents id with
    | none => exact ⟨row, rfl, .refl row⟩
    | some i =>
      refine ⟨_, rfl, rfl, rfl, rfl, fun slot hslot => ?_, fun h => h⟩
      -- the intent is in a slot of the log already
      obtain ⟨c', hc', -, hid⟩ := (intentRow_sourced g log id row hrow).slot slot hslot
      have hnodup := h'.intents
      rw [Log.commits_concat_slot, List.flatMap_append, List.nodup_append] at hnodup
      exact absurd rfl (hnodup.2.2 id (List.mem_flatMap.mpr ⟨c', hc', hid⟩) id
        (by simpa using mem_of_lastIndex hindex))
  | _ => exact ⟨row, rfl, .refl row⟩

lemma slotRow_keptBy_append (h' : Orderly batchSize (log ++ [e])) {slot : ℕ} {sr : SlotRow}
    (hsr : (ofLog g log).slots.lookup slot = some sr) :
    ∃ sr', (ofLog g (log ++ [e])).slots.lookup slot = some sr' ∧ sr.KeptBy sr' := by
  have hevident := slotRow_evident g log slot sr hsr
  have hfail : ∀ reason, sr.KeptBy (sr.fail reason) := fun reason => ⟨rfl, rfl, fun _ h => h,
    fun _ h => h⟩
  have happly := lookup_slots_apply (ofLog g log) log.length e slot
  rw [← ofLog_append, hsr] at happly
  rw [happly]
  cases e with
  | slotCommitted c =>
    rw [SlotRow.onEntry, if_neg]
    · exact ⟨sr, rfl, .refl sr⟩
    · rintro rfl
      obtain ⟨c', hc', hslot, -⟩ := slotRow_sourced g log c.slot sr hsr
      exact h'.not_committed c' hc' hslot
  | slotAttested a =>
    rw [SlotRow.onEntry]
    split_ifs
    · exact ⟨_, rfl, SlotRow.keptBy_attested hevident a⟩
    · exact ⟨sr, rfl, .refl sr⟩
  | slotsProven p =>
    rw [SlotRow.onEntry]
    split_ifs
    · exact ⟨_, rfl, SlotRow.keptBy_proven hevident p⟩
    · exact ⟨sr, rfl, .refl sr⟩
  | attestFailed f =>
    rw [SlotRow.onEntry]
    split_ifs
    · exact ⟨_, rfl, hfail _⟩
    · exact ⟨sr, rfl, .refl sr⟩
  | proveFailed f =>
    rw [SlotRow.onEntry]
    split_ifs
    · exact ⟨_, rfl, hfail _⟩
    · exact ⟨sr, rfl, .refl sr⟩
  | _ => exact ⟨sr, rfl, .refl sr⟩

end Projections

/-! ### Longer logs -/

section Longer

variable {rest : Log}

lemma orderly_take_append (horderly : ∀ n, Orderly batchSize ((log ++ (rest ++ [e])).take n)) :
    Orderly batchSize ((log ++ rest) ++ [e]) ∧
      ∀ n, Orderly batchSize ((log ++ rest).take n) := by
  constructor
  · have hall := horderly (log ++ (rest ++ [e])).length
    rwa [List.take_length, ← List.append_assoc] at hall
  · intro n
    have hmin := horderly (min n (log ++ rest).length)
    rw [← List.append_assoc, List.take_append_of_le_length (min_le_right _ _),
      ← List.take_eq_take_min] at hmin
    exact hmin

namespace Projections

lemma intentRow_keptBy (horderly : ∀ n, Orderly batchSize ((log ++ rest).take n))
    {row : IntentRow} (hrow : (ofLog g log).intents.lookup id = some row) :
    ∃ row', (ofLog g (log ++ rest)).intents.lookup id = some row' ∧ row.KeptBy row' := by
  induction rest using List.reverseRecOn with
  | nil => exact ⟨row, by rwa [List.append_nil], .refl row⟩
  | append_singleton rest e ih =>
    obtain ⟨hlast, hinit⟩ := orderly_take_append horderly
    obtain ⟨row₁, hrow₁, hkept₁⟩ := ih hinit
    obtain ⟨row₂, hrow₂, hkept₂⟩ := intentRow_keptBy_append hlast hrow₁
    rw [← List.append_assoc]
    exact ⟨row₂, hrow₂, hkept₁.trans hkept₂⟩

lemma slotRow_keptBy (horderly : ∀ n, Orderly batchSize ((log ++ rest).take n)) {slot : ℕ}
    {sr : SlotRow} (hsr : (ofLog g log).slots.lookup slot = some sr) :
    ∃ sr', (ofLog g (log ++ rest)).slots.lookup slot = some sr' ∧ sr.KeptBy sr' := by
  induction rest using List.reverseRecOn with
  | nil => exact ⟨sr, by rwa [List.append_nil], .refl sr⟩
  | append_singleton rest e ih =>
    obtain ⟨hlast, hinit⟩ := orderly_take_append horderly
    obtain ⟨sr₁, hsr₁, hkept₁⟩ := ih hinit
    obtain ⟨sr₂, hsr₂, hkept₂⟩ := slotRow_keptBy_append hlast hsr₁
    rw [← List.append_assoc]
    exact ⟨sr₂, hsr₂, hkept₁.trans hkept₂⟩

/-- The stage law holds in every log whose prefixes are orderly. -/
lemma stageLaw_ofLog (horderly : ∀ n, Orderly batchSize (log.take n)) :
    ∀ slot, ∀ sr ∈ (ofLog g log).slots.lookup slot, StageLaw log slot sr := by
  induction log using List.reverseRecOn with
  | nil =>
    intro slot sr hsr
    obtain ⟨c, hc, -⟩ := slotRow_sourced g [] slot sr hsr
    simp at hc
  | append_singleton log e ih =>
    have hall : ∀ n, Orderly batchSize (([] ++ (log ++ [e])).take n) := horderly
    obtain ⟨hlast, hinit⟩ := orderly_take_append hall
    have hlog := hinit log.length
    rw [List.nil_append, List.take_length] at hlog
    exact StageLaw.append hlog hlast (ih hinit)

lemma reaches_reported (g : GuaranteeConfig) (id : IntentId)
    (horderly : ∀ n, Orderly batchSize ((log ++ rest).take n)) :
    Relation.ReflTransGen Lifecycle.Edge ((ofLog g log).reported id)
      ((ofLog g (log ++ rest)).reported id) := by
  induction rest using List.reverseRecOn with
  | nil => rw [List.append_nil]
  | append_singleton rest e ih =>
    obtain ⟨hlast, hinit⟩ := orderly_take_append horderly
    have hedge := hlast.edge (g := g) (stageLaw_ofLog hinit) id
    rw [List.append_assoc] at hedge
    exact (ih hinit).tail hedge

end Projections

end Longer

/-! ### Receipts -/

/-- What a receipt shows, a later one shows, too. -/
structure Receipt.KeptBy (r r' : Receipt) : Prop where
  intentId : r'.intentId = r.intentId
  logPosition : r'.logPosition = r.logPosition
  lifecycle : Relation.ReflTransGen Lifecycle.Edge (some r.lifecycle) (some r'.lifecycle)
  sequence : ∀ s, r.sequence = some s → r'.sequence = some s
  /-- The terms of the guarantee are the same. -/
  terms : { r'.guarantee with state := r.guarantee.state } = r.guarantee
  met : ∀ slot committedAt, r.guarantee.state = .met slot committedAt →
    r'.guarantee.state = .met slot committedAt
  missed : (∃ deadline missedAt, r.guarantee.state = .missed deadline missedAt) →
    ∃ deadline missedAt, r'.guarantee.state = .missed deadline missedAt
  preconf : ∀ pc, r.preconf = some pc → r'.preconf = some pc
  proof : ∀ pr, r.proof = some pr → r'.proof = some pr

namespace Projections

variable {rest : Log}

lemma receiptOf_of_lookup {p : Projections} {row : IntentRow} {l : Lifecycle}
    (hrow : p.intents.lookup id = some row) (hl : p.lifecycle row = some l) (nowMs : UInt64) :
    p.receiptOf id nowMs = some (p.receiptAt id row l nowMs) := by
  simp only [receiptOf, hrow, hl, Option.bind_eq_bind, Option.bind_some]
  rfl

lemma sequence_eq_some {p : Projections} {row : IntentRow} {s : SequencePosition}
    (h : p.sequence row = some s) : ∃ index sr, row.slot = some s.slot ∧
      row.indexInSlot = some index ∧ p.slots.lookup s.slot = some sr ∧
        s = ⟨s.slot, index, sr.commitment⟩ := by
  unfold sequence at h
  split at h
  · next slot index sr hslot hindex hsr =>
    obtain rfl := Option.some.inj h
    rw [slotRow, hslot, Option.bind_some] at hsr
    exact ⟨index, sr, hslot, hindex, hsr, rfl⟩
  · simp at h

lemma guaranteeState_of_expired {p : Projections} {row : IntentRow} {x : UInt64 × UInt64}
    (h : row.expired = some x) (nowMs : UInt64) :
    p.guaranteeState row nowMs = .missed x.1 x.2 := by
  simp only [guaranteeState, h]

lemma preconf_eq_some {p : Projections} {row : IntentRow} {pc : PreconfRef}
    (h : p.preconf row = some pc) : ∃ slot sr pc₀, row.slot = some slot ∧
      p.slots.lookup slot = some sr ∧ sr.preconf = some pc₀ ∧
        pc = ⟨slot, sr.commitment, hexEncode pc₀.quote, pc₀.signature⟩ := by
  simp only [preconf, Option.bind_eq_bind, Option.bind_eq_some_iff] at h
  obtain ⟨sr, hsr, pc₀, hpc₀, slot, hslot, heq⟩ := h
  rw [slotRow, hslot, Option.bind_some] at hsr
  exact ⟨slot, sr, pc₀, hslot, hsr, hpc₀, (Option.some.inj heq).symm⟩

lemma proof_eq_some {p : Projections} {row : IntentRow} {pr : ProofRef}
    (h : p.proof row = some pr) : ∃ slot sr pr₀, row.slot = some slot ∧
      p.slots.lookup slot = some sr ∧ sr.proof = some pr₀ ∧
        pr = ⟨pr₀.fromSlot, pr₀.toSlot, pr₀.handle.backend.asStr,
          hexEncode pr₀.handle.vkeyHash.toList, hexEncode pr₀.handle.proof⟩ := by
  simp only [proof, Option.bind_eq_bind, Option.bind_eq_some_iff] at h
  obtain ⟨sr, hsr, pr₀, hpr₀, heq⟩ := h
  obtain ⟨slot, hslot, hsr⟩ := Option.bind_eq_some_iff.mp hsr
  exact ⟨slot, sr, pr₀, hslot, hsr, hpr₀, (Option.some.inj heq).symm⟩

lemma statusOf_eq_some {p : Projections} {s : StatusResponse} (h : p.statusOf id = some s) :
    ∃ row, p.intents.lookup id = some row ∧ p.lifecycle row = some s.lifecycle ∧
      s = ⟨id, s.lifecycle, row.slot⟩ := by
  simp only [statusOf, Option.bind_eq_bind, Option.bind_eq_some_iff] at h
  obtain ⟨row, hrow, l, hl, heq⟩ := h
  obtain rfl := Option.some.inj heq
  exact ⟨row, hrow, hl, rfl⟩

theorem statusOf_keptBy (horderly : ∀ n, Orderly batchSize ((log ++ rest).take n))
    {s : StatusResponse} (h : (ofLog g log).statusOf id = some s) :
    ∃ s', (ofLog g (log ++ rest)).statusOf id = some s' ∧
      Relation.ReflTransGen Lifecycle.Edge (some s.lifecycle) (some s'.lifecycle) ∧
        ∀ slot, s.slot = some slot → s'.slot = some slot := by
  obtain ⟨row, hrow, hl, hs⟩ := statusOf_eq_some h
  obtain ⟨row', hrow', hkept⟩ := intentRow_keptBy horderly hrow
  obtain ⟨l', hl'⟩ := exists_lifecycle hrow'
  have hreaches := reaches_reported g id horderly
  rw [reported_of_lookup hrow, reported_of_lookup hrow', hl, hl'] at hreaches
  refine ⟨⟨id, l', row'.slot⟩, ?_, hreaches, fun slot hslot => (hkept.place slot ?_).1⟩
  · simp only [statusOf, hrow', hl', Option.bind_eq_bind, Option.bind_some]
    rfl
  · rw [hs] at hslot
    exact hslot

/-- **What a receipt shows is shown on every later one.** -/
theorem receiptOf_keptBy (horderly : ∀ n, Orderly batchSize ((log ++ rest).take n))
    {nowMs : UInt64} {r : Receipt} (h : (ofLog g log).receiptOf id nowMs = some r)
    (nowMs' : UInt64) :
    ∃ r', (ofLog g (log ++ rest)).receiptOf id nowMs' = some r' ∧ r.KeptBy r' := by
  obtain ⟨row, l, hrow, hl, rfl⟩ := receiptOf_eq_some h
  obtain ⟨row', hrow', hkept⟩ := intentRow_keptBy horderly hrow
  obtain ⟨l', hl'⟩ := exists_lifecycle hrow'
  have hreaches := reaches_reported g id horderly
  rw [reported_of_lookup hrow, reported_of_lookup hrow', hl, hl'] at hreaches
  refine ⟨_, receiptOf_of_lookup hrow' hl' nowMs', rfl, hkept.position, hreaches, ?_, ?_, ?_, ?_,
    ?_, ?_⟩
  · intro s hs
    obtain ⟨index, sr, hslot, hindex, hsr, heq⟩ := sequence_eq_some hs
    obtain ⟨hslot', hindex', -⟩ := hkept.place _ hslot
    obtain ⟨sr', hsr', hkept'⟩ := slotRow_keptBy horderly hsr
    simp only [receiptAt, sequence, slotRow_of_slot hslot' hsr', hslot', hindex', hindex,
      hkept'.commitment]
    exact congrArg some heq.symm
  · simp only [receiptAt, guarantee_ofLog, hkept.receivedAtMs, hkept.deadlineMs]
  · intro slot committedAt hstate
    obtain ⟨hslot, sr, hsr, rfl⟩ := guaranteeState_eq_met hrow hstate
    obtain ⟨hslot', -, hexpired⟩ := hkept.place _ hslot
    obtain ⟨sr', hsr', hkept'⟩ := slotRow_keptBy horderly hsr
    rcases standing hrow' nowMs' with
      ⟨deadline, missedAt, hmissed, -⟩ | ⟨hnone, -⟩ | ⟨slot', sr'', hslot'', hsr'', -, hstate'⟩
    · have hmissed' := guaranteeState_of_expired (p := ofLog g log) (hexpired.symm.trans hmissed)
        nowMs
      exact absurd (hstate.symm.trans hmissed') (by simp)
    · simp [hslot'] at hnone
    · obtain rfl := Option.some.inj (hslot'.symm.trans hslot'')
      obtain rfl := Option.some.inj (hsr'.symm.trans hsr'')
      exact hstate'.trans (by rw [hkept'.committedAtMs])
  · rintro ⟨deadline, missedAt, hstate⟩
    have hexpired : row.expired ≠ none := by
      rw [guaranteeState_eq_missed hrow hstate]
      exact Option.some_ne_none _
    obtain ⟨x, hx⟩ := Option.ne_none_iff_exists'.mp (hkept.expired hexpired)
    exact ⟨x.1, x.2, guaranteeState_of_expired hx nowMs'⟩
  · intro pc hpc
    obtain ⟨slot, sr, pc₀, hslot, hsr, hpc₀, rfl⟩ := preconf_eq_some hpc
    obtain ⟨sr', hsr', hkept'⟩ := slotRow_keptBy horderly hsr
    have hpreconf := preconf_of_slot (hkept.place _ hslot).1 hsr'
    rw [hkept'.preconf _ hpc₀, hkept'.commitment] at hpreconf
    exact hpreconf
  · intro pr hpr
    obtain ⟨slot, sr, pr₀, hslot, hsr, hpr₀, rfl⟩ := proof_eq_some hpr
    obtain ⟨sr', hsr', hkept'⟩ := slotRow_keptBy horderly hsr
    have hproof := proof_of_slot (hkept.place _ hslot).1 hsr'
    rw [hkept'.proof _ hpr₀] at hproof
    exact hproof

end Projections

end Zequencer
