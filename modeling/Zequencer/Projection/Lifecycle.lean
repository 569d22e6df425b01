/-
# The reported lifecycle

What status says of an intent is decided by its row and, once it is in a slot, by the stage
of that slot.  The two maps stay linked whatever the log: an intent that was received is
always reported, and the slot it points at is always there.
-/
import Zequencer.Projection.Rows

namespace Zequencer

variable {g : GuaranteeConfig} {log : Log} {id : IntentId}

/-- The lifecycle of an intent whose slot is at a stage. -/
def SlotStage.lifecycle : SlotStage → Lifecycle
  | .committed => .sequenced
  | .preconfirmed => .preconfirmed
  | .proven => .finalProven
  | .failed reason => .failed reason

lemma SlotStage.lifecycle_injective : Function.Injective SlotStage.lifecycle := by
  intro stage stage' h
  cases stage <;> cases stage' <;> simp_all [lifecycle]

lemma SlotRow.onEntry_ne_none {slot : ℕ} {row : Option SlotRow} {e : Entry} (h : row ≠ none) :
    SlotRow.onEntry slot row e ≠ none := by
  obtain ⟨sr, rfl⟩ := Option.ne_none_iff_exists'.mp h
  cases e <;> simp only [SlotRow.onEntry] <;> (try split_ifs) <;> simp

lemma IntentRow.onEntry_ne_none {pos : ℕ} {row : Option IntentRow} {e : Entry} (h : row ≠ none) :
    IntentRow.onEntry id pos row e ≠ none := by
  obtain ⟨row', rfl⟩ := Option.ne_none_iff_exists'.mp h
  cases e with
  | slotCommitted c =>
    simp only [IntentRow.onEntry]
    cases lastIndex c.intents id <;> simp
  | _ =>
    simp only [IntentRow.onEntry]
    (try split_ifs) <;> simp

namespace Projections

/-- The lifecycle that status reports. -/
def reported (p : Projections) (id : IntentId) : Option Lifecycle :=
  (p.statusOf id).map StatusResponse.lifecycle

/-! ### What it depends on -/

lemma reported_eq_bind (p : Projections) (id : IntentId) :
    p.reported id = (p.intents.lookup id).bind p.lifecycle := by
  unfold reported statusOf
  cases p.intents.lookup id with
  | none => rfl
  | some row => cases h : p.lifecycle row <;> simp [h]

lemma reported_of_lookup {p : Projections} {row : IntentRow} (h : p.intents.lookup id = some row) :
    p.reported id = p.lifecycle row := by
  rw [reported_eq_bind, h, Option.bind_some]

lemma reported_of_lookup_eq_none {p : Projections} (h : p.intents.lookup id = none) :
    p.reported id = none := by
  rw [reported_eq_bind, h, Option.bind_none]

variable {p : Projections} {row : IntentRow}

lemma lifecycle_of_expired (h : row.expired ≠ none) : p.lifecycle row = some .expired := by
  rw [lifecycle, if_pos (Option.isSome_iff_ne_none.mpr h)]

lemma lifecycle_of_waiting (h : row.expired = none) (hslot : row.slot = none) :
    p.lifecycle row = some .received := by
  simp [lifecycle, h, hslot]

lemma lifecycle_of_slot (h : row.expired = none) {slot : ℕ} (hslot : row.slot = some slot) :
    p.lifecycle row = (p.slots.lookup slot).map fun sr => sr.stage.lifecycle := by
  simp only [lifecycle, h, hslot, Option.isSome_none]
  cases p.slots.lookup slot with
  | none => rfl
  | some sr =>
    obtain ⟨committedAtMs, commitment, stage, preconf, proof⟩ := sr
    cases stage <;> rfl

lemma statusOf_eq_none_iff : p.statusOf id = none ↔ p.reported id = none := by
  rw [reported, Option.map_eq_none_iff]

/-- A receipt is found exactly when a status is. -/
lemma receiptOf_eq_none_iff {nowMs : UInt64} :
    p.receiptOf id nowMs = none ↔ p.reported id = none := by
  rw [reported_eq_bind, receiptOf]
  cases p.intents.lookup id with
  | none => simp
  | some row => cases h : p.lifecycle row <;> simp [h]

/-- The receipt that is read off a row. -/
def receiptAt (p : Projections) (id : IntentId) (row : IntentRow) (l : Lifecycle)
    (nowMs : UInt64) : Receipt :=
  ⟨id, l, row.position, p.sequence row,
    ⟨row.receivedAtMs, p.guarantee.maxSlots, p.guarantee.deadlineFor row.receivedAtMs,
      row.deadlineMs, p.guaranteeState row nowMs⟩, p.preconf row, p.proof row⟩

lemma receiptOf_eq_some {nowMs : UInt64} {r : Receipt} (h : p.receiptOf id nowMs = some r) :
    ∃ row l, p.intents.lookup id = some row ∧ p.lifecycle row = some l ∧
      r = p.receiptAt id row l nowMs := by
  simp only [receiptOf, Option.bind_eq_bind, Option.bind_eq_some_iff] at h
  obtain ⟨row, hrow, l, hl, hreceipt⟩ := h
  exact ⟨row, l, hrow, hl, (Option.some.inj hreceipt).symm⟩

/-! ### What the log must hold -/

lemma lookup_slots_ne_none_iff {slot : ℕ} :
    (ofLog g log).slots.lookup slot ≠ none ↔ ∃ c ∈ log.commits, c.slot = slot := by
  constructor
  · intro h
    obtain ⟨sr, hsr⟩ := Option.ne_none_iff_exists'.mp h
    obtain ⟨c, hc, hslot, -⟩ := slotRow_sourced g log slot sr hsr
    exact ⟨c, hc, hslot⟩
  · induction log using List.reverseRecOn with
    | nil => simp
    | append_singleton log e ih =>
      rintro ⟨c, hc, rfl⟩
      rw [ofLog_append, lookup_slots_apply]
      rw [Log.commits_append, List.mem_append] at hc
      rcases hc with hc | hc
      · exact SlotRow.onEntry_ne_none (ih ⟨c, hc, rfl⟩)
      · obtain rfl := List.mem_singleton.mp (Log.mem_commits.mp hc)
        simp [SlotRow.onEntry]

/-- There is a row for every intent received, and for no other. -/
lemma lookup_intents_ne_none_iff :
    (ofLog g log).intents.lookup id ≠ none ↔ ∃ r ∈ log.received, r.intentId = id := by
  constructor
  · intro h
    obtain ⟨row, hrow⟩ := Option.ne_none_iff_exists'.mp h
    obtain ⟨r, hr, hid, -⟩ := (intentRow_sourced g log id row hrow).received
    exact ⟨r, hr, hid⟩
  · induction log using List.reverseRecOn with
    | nil => simp
    | append_singleton log e ih =>
      rintro ⟨r, hr, rfl⟩
      rw [ofLog_append, lookup_intents_apply]
      rw [Log.received_append, List.mem_append] at hr
      rcases hr with hr | hr
      · exact IntentRow.onEntry_ne_none (ih ⟨r, hr, rfl⟩)
      · obtain rfl := List.mem_singleton.mp (Log.mem_received.mp hr)
        simp [IntentRow.onEntry]

lemma exists_slotRow {slot : ℕ} (hrow : (ofLog g log).intents.lookup id = some row)
    (hslot : row.slot = some slot) : ∃ sr, (ofLog g log).slots.lookup slot = some sr := by
  obtain ⟨c, hc, hcslot, -⟩ := (intentRow_sourced g log id row hrow).slot slot hslot
  exact Option.ne_none_iff_exists'.mp (lookup_slots_ne_none_iff.mpr ⟨c, hc, hcslot⟩)

lemma exists_lifecycle (hrow : (ofLog g log).intents.lookup id = some row) :
    ∃ l, (ofLog g log).lifecycle row = some l := by
  by_cases hexpired : row.expired = none
  · cases hslot : row.slot with
    | none => exact ⟨_, lifecycle_of_waiting hexpired hslot⟩
    | some slot =>
      obtain ⟨sr, hsr⟩ := exists_slotRow hrow hslot
      exact ⟨sr.stage.lifecycle, by rw [lifecycle_of_slot hexpired hslot, hsr, Option.map_some]⟩
  · exact ⟨_, lifecycle_of_expired hexpired⟩

/-- Where an intent stands: its lifecycle and the state of its guarantee go together. -/
lemma standing (hrow : (ofLog g log).intents.lookup id = some row) (nowMs : UInt64) :
    (∃ deadline missedAt, row.expired = some (deadline, missedAt) ∧
        (ofLog g log).lifecycle row = some .expired ∧
          (ofLog g log).guaranteeState row nowMs = .missed deadline missedAt) ∨
      (row.slot = none ∧ (ofLog g log).lifecycle row = some .received ∧
        ((ofLog g log).guaranteeState row nowMs = .pending ∨
          (ofLog g log).guaranteeState row nowMs = .overdue)) ∨
      ∃ slot sr, row.slot = some slot ∧ (ofLog g log).slots.lookup slot = some sr ∧
        (ofLog g log).lifecycle row = some sr.stage.lifecycle ∧
          (ofLog g log).guaranteeState row nowMs = .met slot sr.committedAtMs := by
  cases hexpired : row.expired with
  | some x =>
    left
    refine ⟨x.1, x.2, rfl, lifecycle_of_expired (hexpired ▸ Option.some_ne_none x), ?_⟩
    simp [guaranteeState, hexpired]
  | none =>
    right
    cases hslot : row.slot with
    | none =>
      left
      refine ⟨rfl, lifecycle_of_waiting hexpired hslot, ?_⟩
      have hstate : (ofLog g log).guaranteeState row nowMs =
          if (ofLog g log).guarantee.deadlineFor row.receivedAtMs < nowMs then .overdue
          else .pending := by
        simp [guaranteeState, hexpired, hslot]
      rw [hstate]
      by_cases hlate : (ofLog g log).guarantee.deadlineFor row.receivedAtMs < nowMs
      · exact Or.inr (if_pos hlate)
      · exact Or.inl (if_neg hlate)
    | some slot =>
      right
      obtain ⟨sr, hsr⟩ := exists_slotRow hrow hslot
      refine ⟨slot, sr, rfl, hsr, ?_, ?_⟩
      · rw [lifecycle_of_slot hexpired hslot, hsr, Option.map_some]
      · simp [guaranteeState, slotRow, hexpired, hslot, hsr]

lemma guaranteeState_eq_met {nowMs : UInt64} {slot : ℕ} {committedAt : UInt64}
    (hrow : (ofLog g log).intents.lookup id = some row)
    (h : (ofLog g log).guaranteeState row nowMs = .met slot committedAt) :
    row.slot = some slot ∧
      ∃ sr, (ofLog g log).slots.lookup slot = some sr ∧ sr.committedAtMs = committedAt := by
  rcases standing hrow nowMs with
    ⟨_, _, -, -, hstate⟩ | ⟨-, -, hstate | hstate⟩ | ⟨slot', sr, hslot, hsr, -, hstate⟩
  · simp [hstate] at h
  · simp [hstate] at h
  · simp [hstate] at h
  · rw [hstate] at h
    obtain ⟨rfl, rfl⟩ := GuaranteeState.met.inj h
    exact ⟨hslot, sr, hsr, rfl⟩

lemma guaranteeState_eq_missed {nowMs deadline missedAt : UInt64}
    (hrow : (ofLog g log).intents.lookup id = some row)
    (h : (ofLog g log).guaranteeState row nowMs = .missed deadline missedAt) :
    row.expired = some (deadline, missedAt) := by
  rcases standing hrow nowMs with
    ⟨_, _, hexpired, -, hstate⟩ | ⟨-, -, hstate | hstate⟩ | ⟨_, _, -, -, -, hstate⟩
  · rw [hstate] at h
    obtain ⟨rfl, rfl⟩ := GuaranteeState.missed.inj h
    exact hexpired
  · simp [hstate] at h
  · simp [hstate] at h
  · simp [hstate] at h

/-- Status knows exactly the intents received. -/
lemma reported_ne_none_iff :
    (ofLog g log).reported id ≠ none ↔ ∃ r ∈ log.received, r.intentId = id := by
  rw [← lookup_intents_ne_none_iff (g := g)]
  cases hrow : (ofLog g log).intents.lookup id with
  | none => simp [reported_of_lookup_eq_none hrow]
  | some row =>
    obtain ⟨l, hl⟩ := exists_lifecycle hrow
    simp [reported_of_lookup hrow, hl]

end Projections

end Zequencer
