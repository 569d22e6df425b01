/-
# Independent entries commute

An entry changes the rows of the intents and slots it is about, and reads no other; where it
stands in the log is kept in the row of an admission only.  So two entries about different
intents and slots may change places, and what status and receipts say does not depend on how
the appends of independent stages interleave.
-/
import Zequencer.Projection.Lifecycle

namespace Zequencer

/-! ### What an entry is about -/

namespace Entry

/-- The intents an entry is about. -/
def ids : Entry → List IntentId
  | .intentReceived r => [r.intentId]
  | .intentExpired x => [x.intentId]
  | .slotCommitted c => c.intents
  | _ => []

/-- The slots an entry is about. -/
def slots : Entry → List ℕ
  | .slotCommitted c => [c.slot]
  | .slotAttested a => [a.slot]
  | .attestFailed f => [f.slot]
  | .slotsProven p => slotRange p.fromSlot p.toSlot
  | .proveFailed f => slotRange f.fromSlot f.toSlot
  | _ => []

/-- Two entries about different intents and different slots. -/
structure Apart (e e' : Entry) : Prop where
  ids : ∀ id ∈ e.ids, id ∉ e'.ids
  slots : ∀ slot ∈ e.slots, slot ∉ e'.slots

end Entry

lemma SlotRow.onEntry_of_notMem {slot : ℕ} {e : Entry} (h : slot ∉ e.slots)
    (row : Option SlotRow) : SlotRow.onEntry slot row e = row := by
  cases e with
  | intentReceived r => rfl
  | intentExpired x => rfl
  | slotCommitted c => exact if_neg fun heq => h (List.mem_singleton.mpr heq)
  | slotAttested a => exact if_neg fun heq => h (List.mem_singleton.mpr heq)
  | attestFailed f => exact if_neg fun heq => h (List.mem_singleton.mpr heq)
  | slotsProven p => exact if_neg fun hle => h (mem_slotRange.mpr hle)
  | proveFailed f => exact if_neg fun hle => h (mem_slotRange.mpr hle)

lemma IntentRow.onEntry_of_notMem {id : IntentId} {e : Entry} (h : id ∉ e.ids) (pos : ℕ)
    (row : Option IntentRow) : IntentRow.onEntry id pos row e = row := by
  cases e with
  | intentReceived r => exact if_neg fun heq => h (List.mem_singleton.mpr heq)
  | intentExpired x => exact if_neg fun heq => h (List.mem_singleton.mpr heq)
  | slotCommitted c =>
    have hout : lastIndex c.intents id = none := lastIndex_eq_none.mpr h
    simp only [onEntry, hout]
  | _ => rfl

/-! ### Rows without their place in the log -/

/-- The row of an intent, wherever it was admitted. -/
def IntentRow.anywhere (row : IntentRow) : IntentRow := { row with position := 0 }

/-- The receipt of an intent, wherever it was admitted. -/
def Receipt.anywhere (r : Receipt) : Receipt := { r with logPosition := 0 }

lemma IntentRow.eq_of_anywhere {row row' : IntentRow} (h : row.anywhere = row'.anywhere) :
    row' = { row with position := row'.position } := by
  cases row
  cases row'
  simp only [anywhere, IntentRow.mk.injEq] at h ⊢
  grind

/-- An entry does the same to a row wherever the two of them stand. -/
lemma IntentRow.anywhere_onEntry (id : IntentId) (pos : ℕ) (row : Option IntentRow) (e : Entry) :
    (onEntry id pos row e).map anywhere = onEntry id 0 (row.map anywhere) e := by
  cases e with
  | intentReceived r =>
    simp only [onEntry]
    split_ifs
    · cases row <;> rfl
    · rfl
  | intentExpired x =>
    simp only [onEntry]
    split_ifs
    · cases row <;> rfl
    · rfl
  | slotCommitted c =>
    simp only [onEntry]
    cases lastIndex c.intents id with
    | none => rfl
    | some i => cases row <;> rfl
  | _ => rfl

/-! ### Read models that agree -/

/-- Two read models that differ in the log positions they recorded, at most. -/
structure Projections.Agree (p q : Projections) : Prop where
  guarantee : p.guarantee = q.guarantee
  intents : ∀ id, (p.intents.lookup id).map IntentRow.anywhere =
    (q.intents.lookup id).map IntentRow.anywhere
  slots : ∀ slot, p.slots.lookup slot = q.slots.lookup slot

namespace Projections

variable {p q r : Projections} {id : IntentId}

lemma Agree.refl (p : Projections) : p.Agree p := ⟨rfl, fun _ => rfl, fun _ => rfl⟩

lemma Agree.trans (h : p.Agree q) (h' : q.Agree r) : p.Agree r :=
  ⟨h.guarantee.trans h'.guarantee, fun id => (h.intents id).trans (h'.intents id),
    fun slot => (h.slots slot).trans (h'.slots slot)⟩

lemma Agree.apply (h : p.Agree q) (pos pos' : ℕ) (e : Entry) :
    (p.apply pos e).Agree (q.apply pos' e) where
  guarantee := by rw [guarantee_apply, guarantee_apply, h.guarantee]
  intents := by
    intro id
    rw [lookup_intents_apply, lookup_intents_apply, IntentRow.anywhere_onEntry,
      IntentRow.anywhere_onEntry, h.intents]
  slots := by
    intro slot
    rw [lookup_slots_apply, lookup_slots_apply, h.slots]

lemma Agree.exists_eq (h : p.Agree q) :
    ∃ intents cursor, q = { p with intents := intents, cursor := cursor } := by
  have hslots : p.slots = q.slots := Finmap.ext_lookup h.slots
  refine ⟨q.intents, q.cursor, ?_⟩
  rw [h.guarantee, hslots]

lemma Agree.lookup_eq_some (h : p.Agree q) {row : IntentRow}
    (hrow : p.intents.lookup id = some row) :
    ∃ pos, q.intents.lookup id = some { row with position := pos } := by
  have hid := h.intents id
  rw [hrow] at hid
  cases hrow' : q.intents.lookup id with
  | none =>
    rw [hrow'] at hid
    simp at hid
  | some row' =>
    rw [hrow'] at hid
    have heq := IntentRow.eq_of_anywhere (Option.some.inj hid)
    exact ⟨row'.position, congrArg some heq⟩

lemma Agree.lookup_eq_none (h : p.Agree q) (hrow : p.intents.lookup id = none) :
    q.intents.lookup id = none := by
  have hid := h.intents id
  rwa [hrow, Option.map_none, eq_comm, Option.map_eq_none_iff] at hid

lemma Agree.statusOf (h : p.Agree q) (id : IntentId) : p.statusOf id = q.statusOf id := by
  cases hrow : p.intents.lookup id with
  | none =>
    simp only [Projections.statusOf, hrow, h.lookup_eq_none hrow, Option.bind_eq_bind,
      Option.bind_none]
  | some row =>
    obtain ⟨pos, hrow'⟩ := h.lookup_eq_some hrow
    simp only [Projections.statusOf, hrow, hrow', Option.bind_eq_bind, Option.bind_some]
    obtain ⟨intents, cursor, rfl⟩ := h.exists_eq
    rfl

/-- They give the same receipt, but for the position. -/
lemma Agree.receiptOf (h : p.Agree q) (id : IntentId) (nowMs : UInt64) :
    (p.receiptOf id nowMs).map Receipt.anywhere = (q.receiptOf id nowMs).map Receipt.anywhere := by
  cases hrow : p.intents.lookup id with
  | none =>
    simp only [Projections.receiptOf, hrow, h.lookup_eq_none hrow, Option.bind_eq_bind,
      Option.bind_none]
  | some row =>
    obtain ⟨pos, hrow'⟩ := h.lookup_eq_some hrow
    simp only [Projections.receiptOf, hrow, hrow', Option.bind_eq_bind, Option.bind_some]
    obtain ⟨intents, cursor, rfl⟩ := h.exists_eq
    have hl : lifecycle { p with intents := intents, cursor := cursor }
      { row with position := pos } = p.lifecycle row := rfl
    rw [hl]
    cases p.lifecycle row <;> rfl

/-! ### Two entries in either order -/

lemma agree_of_apart (p : Projections) {e e' : Entry} (h : e.Apart e') (pos pos' : ℕ) :
    ((p.apply pos e).apply pos' e').Agree ((p.apply pos e').apply pos' e) where
  guarantee := by rw [guarantee_apply, guarantee_apply, guarantee_apply, guarantee_apply]
  intents := by
    intro id
    simp only [lookup_intents_apply]
    by_cases hid : id ∈ e.ids
    · rw [IntentRow.onEntry_of_notMem (h.ids id hid), IntentRow.onEntry_of_notMem (h.ids id hid),
        IntentRow.anywhere_onEntry, IntentRow.anywhere_onEntry]
    · rw [IntentRow.onEntry_of_notMem hid, IntentRow.onEntry_of_notMem hid,
        IntentRow.anywhere_onEntry, IntentRow.anywhere_onEntry]
  slots := by
    intro slot
    simp only [lookup_slots_apply]
    by_cases hslot : slot ∈ e.slots
    · rw [SlotRow.onEntry_of_notMem (h.slots slot hslot),
        SlotRow.onEntry_of_notMem (h.slots slot hslot)]
    · rw [SlotRow.onEntry_of_notMem hslot, SlotRow.onEntry_of_notMem hslot]

lemma Agree.ofLog_append {g : GuaranteeConfig} {log log' : Log}
    (h : (ofLog g log).Agree (ofLog g log')) (rest : Log) :
    (ofLog g (log ++ rest)).Agree (ofLog g (log' ++ rest)) := by
  induction rest using List.reverseRecOn with
  | nil => rwa [List.append_nil, List.append_nil]
  | append_singleton rest e ih =>
    rw [← List.append_assoc, ← List.append_assoc, Projections.ofLog_append,
      Projections.ofLog_append]
    exact ih.apply _ _ e

end Projections

/-- **Entries of concurrent stages commute.**  In every state of the read model, two adjacent
entries that are about different intents and different slots lead to the same rows in either
order, but for the log positions in the rows of the intents; so status is the same for every
intent, and so is the receipt at any time, but for its log position. -/
theorem independent_entries_commute (p : Projections) (pos : ℕ) (e e' : Entry)
    (h : e.Apart e') :
    let q := (p.apply pos e).apply (pos + 1) e'
    let q' := (p.apply pos e').apply (pos + 1) e
    (∀ id, (q.intents.lookup id).map IntentRow.anywhere =
        (q'.intents.lookup id).map IntentRow.anywhere) ∧
      (∀ slot, q.slots.lookup slot = q'.slots.lookup slot) ∧
      (∀ id, q.statusOf id = q'.statusOf id) ∧
      ∀ id nowMs, (q.receiptOf id nowMs).map Receipt.anywhere =
        (q'.receiptOf id nowMs).map Receipt.anywhere := by
  intro q q'
  have hagree : q.Agree q' := p.agree_of_apart h pos (pos + 1)
  exact ⟨hagree.intents, hagree.slots, hagree.statusOf, hagree.receiptOf⟩

/-- A miss of one intent beside the commit of a slot with the other. -/
def missBesideCommit : Log :=
  [.intentReceived ⟨⟨Bytes.ofNat 32 0⟩, dummy 0, testNow⟩,
    .intentReceived ⟨⟨Bytes.ofNat 32 1⟩, dummy 1, testNow⟩]

theorem independent_entries_commute_missBesideCommit :
    let p := Projections.ofLog testGuarantee missBesideCommit
    let miss : Entry := .intentExpired ⟨⟨Bytes.ofNat 32 0⟩, testNow + 1000, testNow + 1001⟩
    let commit : Entry := .slotCommitted ⟨0, [⟨Bytes.ofNat 32 1⟩], 2, ⟨Bytes.ofNat 32 2⟩, testNow⟩
    let q := (p.apply 2 miss).apply 3 commit
    let q' := (p.apply 2 commit).apply 3 miss
    (∀ id, (q.intents.lookup id).map IntentRow.anywhere =
        (q'.intents.lookup id).map IntentRow.anywhere) ∧
      (∀ slot, q.slots.lookup slot = q'.slots.lookup slot) ∧
      (∀ id, q.statusOf id = q'.statusOf id) ∧
      ∀ id nowMs, (q.receiptOf id nowMs).map Receipt.anywhere =
        (q'.receiptOf id nowMs).map Receipt.anywhere :=
  independent_entries_commute _ 2 _ _ ⟨by decide +kernel, by decide +kernel⟩

/-! ### Whole logs -/

/-- The logs that the appends of independent stages may lead to. -/
inductive Log.Interleaves : Log → Log → Prop
  | refl (log : Log) : Interleaves log log
  | swap (log rest : Log) {e e' : Entry} (h : e.Apart e') :
      Interleaves (log ++ [e, e'] ++ rest) (log ++ [e', e] ++ rest)
  | trans {log log' log'' : Log} (h : Interleaves log log') (h' : Interleaves log' log'') :
      Interleaves log log''

/-- **Interleavings make no difference.**  Logs that differ in the order of entries about
different intents and slots have read models that agree. -/
theorem interleavings_agree (g : GuaranteeConfig) {log log' : Log} (h : log.Interleaves log') :
    (Projections.ofLog g log).Agree (Projections.ofLog g log') := by
  induction h with
  | refl log => exact .refl _
  | @swap log rest e e' h =>
    refine Projections.Agree.ofLog_append ?_ rest
    have hpair : ∀ x y : Entry, Projections.ofLog g (log ++ [x, y]) =
        ((Projections.ofLog g log).apply log.length x).apply (log.length + 1) y := by
      intro x y
      rw [List.append_cons, Projections.ofLog_append, Projections.ofLog_append,
        List.length_append, List.length_singleton]
    rw [hpair, hpair]
    exact Projections.agree_of_apart _ h _ _
  | trans _ _ ih ih' => exact ih.trans ih'

end Zequencer
