/-
# The read model, row by row

The row of a slot depends on the entries about that slot only, and the row of an intent on
the entries about that intent; each is a small state machine over the log.  What a row
says is in the log.
-/
import Zequencer.Log.Views
import Zequencer.Source.Projection

namespace Zequencer

/-! ### One row at a time -/

/-- The last place of an id in a slot. -/
def lastIndex (ids : List IntentId) (id : IntentId) : Option ℕ :=
  (ids.zipIdx.filter fun e => e.1 = id).getLast?.map Prod.snd

lemma lastIndex_concat (ids : List IntentId) (id id' : IntentId) :
    lastIndex (ids ++ [id']) id = if id' = id then some ids.length else lastIndex ids id := by
  rw [lastIndex, List.zipIdx_append, List.filter_append]
  by_cases h : id' = id
  · simp [h]
  · simp [h, lastIndex]

lemma lastIndex_eq_none {ids : List IntentId} {id : IntentId} :
    lastIndex ids id = none ↔ id ∉ ids := by
  induction ids using List.reverseRecOn with
  | nil => simp [lastIndex]
  | append_singleton ids id' ih =>
    rw [lastIndex_concat]
    by_cases h : id' = id
    · simp [h]
    · have hne : ¬ id = id' := fun heq => h heq.symm
      simp [h, hne, ih]

lemma mem_of_lastIndex {ids : List IntentId} {id : IntentId} {i : ℕ}
    (h : lastIndex ids id = some i) : id ∈ ids := by
  by_contra hout
  rw [lastIndex_eq_none.mpr hout] at h
  simp at h

namespace SlotRow

/-- The row a slot starts with. -/
def opened (c : SlotCommitted) : SlotRow := ⟨c.committedAtMs, c.commitment, .committed, none, none⟩

/-- What an entry does to the row of one slot. -/
def onEntry (slot : ℕ) (row : Option SlotRow) : Entry → Option SlotRow
  | .slotCommitted c => if slot = c.slot then some (opened c) else row
  | .slotAttested a => if slot = a.slot then row.map (attested a) else row
  | .slotsProven p => if p.fromSlot ≤ slot ∧ slot ≤ p.toSlot then row.map (proven p) else row
  | .attestFailed f => if slot = f.slot then row.map (fail f.reason) else row
  | .proveFailed f =>
    if f.fromSlot ≤ slot ∧ slot ≤ f.toSlot then row.map (fail f.reason) else row
  | _ => row

end SlotRow

namespace IntentRow

/-- The row an intent starts with. -/
def admitted (pos : ℕ) (r : IntentReceived) : IntentRow :=
  ⟨pos, r.receivedAt, r.intent.deadlineMs, none, none, none⟩

/-- What an entry does to the row of one intent. -/
def onEntry (id : IntentId) (pos : ℕ) (row : Option IntentRow) : Entry → Option IntentRow
  | .intentReceived r => if id = r.intentId then some (row.getD (admitted pos r)) else row
  | .intentExpired x =>
    if id = x.intentId then
      row.map fun row => { row with expired := some (x.guaranteeDeadlineMs, x.atMs) }
    else row
  | .slotCommitted c =>
    match lastIndex c.intents id with
    | some i =>
      row.map fun row => { row with slot := some c.slot, indexInSlot := some (UInt32.ofNat i) }
    | none => row
  | _ => row

end IntentRow

lemma mem_slotRange {fromSlot toSlot slot : ℕ} :
    slot ∈ slotRange fromSlot toSlot ↔ fromSlot ≤ slot ∧ slot ≤ toSlot := by
  rw [slotRange, List.mem_range'_1]
  omega

lemma slotRange_nodup (fromSlot toSlot : ℕ) : (slotRange fromSlot toSlot).Nodup :=
  List.nodup_range'

namespace Projections

variable {g : GuaranteeConfig} {log : Log}

lemma lookup_slots_apply (p : Projections) (pos : ℕ) (e : Entry) (slot : ℕ) :
    (p.apply pos e).slots.lookup slot = SlotRow.onEntry slot (p.slots.lookup slot) e := by
  cases e with
  | intentReceived r => rfl
  | intentExpired x => rfl
  | slotCommitted c => exact HashMap.lookup_insert_ite _ _ _ _
  | slotAttested a =>
    simp only [apply, SlotRow.onEntry, HashMap.lookup_modify]
    by_cases h : slot = a.slot
    · subst h
      simp
    · simp [h]
  | attestFailed f =>
    simp only [apply, SlotRow.onEntry, HashMap.lookup_modify]
    by_cases h : slot = f.slot
    · subst h
      simp
    · simp [h]
  | slotsProven s =>
    simp only [apply, SlotRow.onEntry, HashMap.lookup_modifyAll _ (slotRange_nodup _ _),
      mem_slotRange]
  | proveFailed f =>
    simp only [apply, SlotRow.onEntry, HashMap.lookup_modifyAll _ (slotRange_nodup _ _),
      mem_slotRange]

/-- A slot gives its ids their last place in it. -/
lemma lookup_place (slot : ℕ) (ids : List IntentId) (m : HashMap IntentId IntentRow)
    (id : IntentId) :
    (place slot ids m).lookup id =
      match lastIndex ids id with
      | some i => (m.lookup id).map fun row =>
          { row with slot := some slot, indexInSlot := some (UInt32.ofNat i) }
      | none => m.lookup id := by
  induction ids using List.reverseRecOn with
  | nil => rfl
  | append_singleton ids id' ih =>
    have hconcat : place slot (ids ++ [id']) m =
        HashMap.modify (place slot ids m) id' fun row =>
          { row with slot := some slot, indexInSlot := some (UInt32.ofNat ids.length) } := by
      simp [place, List.zipIdx_append, List.foldl_append]
    rw [hconcat, HashMap.lookup_modify, lastIndex_concat]
    by_cases h : id = id'
    · subst h
      rw [if_pos rfl, if_pos rfl, ih]
      cases lastIndex ids id <;> cases m.lookup id <;> rfl
    · have hne : ¬ id' = id := fun heq => h heq.symm
      rw [if_neg h, if_neg hne, ih]

lemma lookup_intents_apply (p : Projections) (pos : ℕ) (e : Entry) (id : IntentId) :
    (p.apply pos e).intents.lookup id = IntentRow.onEntry id pos (p.intents.lookup id) e := by
  cases e with
  | intentReceived r =>
    simp only [apply, IntentRow.onEntry, HashMap.lookup_orInsert]
    by_cases h : id = r.intentId
    · subst h
      simp [IntentRow.admitted]
    · simp [h]
  | intentExpired x =>
    simp only [apply, IntentRow.onEntry, HashMap.lookup_modify]
    by_cases h : id = x.intentId
    · subst h
      simp
    · simp [h]
  | slotCommitted c => exact lookup_place _ _ _ _
  | _ => rfl

/-! ### The read model of a log -/

@[simp] lemma guarantee_apply (p : Projections) (pos : ℕ) (e : Entry) :
    (p.apply pos e).guarantee = p.guarantee := by
  cases e <;> rfl

@[simp] lemma cursor_apply (p : Projections) (pos : ℕ) (e : Entry) :
    (p.apply pos e).cursor = pos + 1 := rfl

lemma ofLog_append (log : Log) (e : Entry) :
    ofLog g (log ++ [e]) = (ofLog g log).apply log.length e := by
  have hread : (log ++ [e]).readFrom 0 = log.readFrom 0 ++ [(log.length, e)] := by
    simp [Log.readFrom, List.zipIdx_append]
  rw [ofLog, hread, applyBatch, List.foldl_append]
  rfl

@[simp] lemma guarantee_ofLog (g : GuaranteeConfig) (log : Log) :
    (ofLog g log).guarantee = g := by
  induction log using List.reverseRecOn with
  | nil => rfl
  | append_singleton log e ih => rw [ofLog_append, guarantee_apply, ih]

@[simp] lemma cursor_ofLog (g : GuaranteeConfig) (log : Log) :
    (ofLog g log).cursor = log.length := by
  induction log using List.reverseRecOn with
  | nil => rfl
  | append_singleton log e ih => rw [ofLog_append, cursor_apply, List.length_append]; rfl

/-- **Batches make no difference.**  A projector at the read model of a prefix of the log
that applies whatever it reads from its cursor is at the read model of a longer prefix. -/
theorem applyBatch_ofLog (g : GuaranteeConfig) (log : Log) {k : ℕ} (hk : k ≤ log.length)
    (n : ℕ) :
    (ofLog g (log.take k)).applyBatch
        ((log.readFrom (ofLog g (log.take k)).cursor).take n) = ofLog g (log.take (k + n)) := by
  rw [cursor_ofLog, List.length_take, min_eq_left hk]
  induction n generalizing k with
  | zero => rfl
  | succ n ih =>
    by_cases hlt : k < log.length
    · have hget : log[k]? = some log[k] := List.getElem?_eq_getElem hlt
      have htake : log.take (k + 1) = log.take k ++ [log[k]] :=
        List.take_succ_eq_append_getElem hlt
      have hstep : (ofLog g (log.take k)).apply k log[k] = ofLog g (log.take (k + 1)) := by
        rw [htake, ofLog_append, List.length_take, min_eq_left hk]
      have hsum : k + (n + 1) = k + 1 + n := by omega
      have hrest := ih hlt
      rw [← hstep] at hrest
      rw [Log.readFrom_eq_cons hget, List.take_succ_cons, hsum, ← hrest]
      rfl
    · have hle : log.length ≤ k := not_lt.mp hlt
      have htake : log.take k = log := List.take_of_length_le hle
      have htake' : log.take (k + (n + 1)) = log := List.take_of_length_le (by omega)
      rw [Log.readFrom_eq_nil hle, htake, htake', List.take_nil]
      rfl

/-! ### Induction over the rows -/

/-- The rule for slot rows: a row is opened by a commit, and moved by the later entries about
its slot. -/
lemma slotRow_induction {slot : ℕ} {P : Log → SlotRow → Prop}
    (append : ∀ log e row, P log row → P (log ++ [e]) row)
    (opened : ∀ (log : Log) c, c.slot = slot → P (log ++ [.slotCommitted c]) (.opened c))
    (attested : ∀ (log : Log) a row, a.slot = slot → P log row →
      P (log ++ [.slotAttested a]) (row.attested a))
    (proven : ∀ (log : Log) p row, p.fromSlot ≤ slot ∧ slot ≤ p.toSlot → P log row →
      P (log ++ [.slotsProven p]) (row.proven p))
    (fail : ∀ (log : Log) e reason row, P log row → P (log ++ [e]) (row.fail reason))
    (log : Log) : ∀ row ∈ (ofLog g log).slots.lookup slot, P log row := by
  induction log using List.reverseRecOn with
  | nil => simp [ofLog, applyBatch, Log.readFrom, new]
  | append_singleton log e ih =>
    rw [ofLog_append, lookup_slots_apply]
    have hkeep : ∀ row ∈ (ofLog g log).slots.lookup slot, P (log ++ [e]) row :=
      fun row hrow => append log e row (ih row hrow)
    have hmap : ∀ f : SlotRow → SlotRow, (∀ row, P log row → P (log ++ [e]) (f row)) →
        ∀ row ∈ ((ofLog g log).slots.lookup slot).map f, P (log ++ [e]) row := by
      intro f hf row' hrow'
      obtain ⟨row, hrow, rfl⟩ := Option.map_eq_some_iff.mp hrow'
      exact hf row (ih row hrow)
    intro row hrow
    cases e with
    | slotCommitted c =>
      rw [SlotRow.onEntry] at hrow
      split_ifs at hrow with hslot
      · obtain rfl : SlotRow.opened c = row := Option.some.inj hrow
        exact opened log c hslot.symm
      · exact hkeep row hrow
    | slotAttested a =>
      rw [SlotRow.onEntry] at hrow
      split_ifs at hrow with hslot
      · exact hmap _ (fun row h => attested log a row hslot.symm h) row hrow
      · exact hkeep row hrow
    | slotsProven p =>
      rw [SlotRow.onEntry] at hrow
      split_ifs at hrow with hin
      · exact hmap _ (fun row h => proven log p row hin h) row hrow
      · exact hkeep row hrow
    | attestFailed f | proveFailed f =>
      rw [SlotRow.onEntry] at hrow
      split_ifs at hrow
      · exact hmap _ (fun row h => fail log _ f.reason row h) row hrow
      · exact hkeep row hrow
    | _ => exact hkeep row hrow

/-- The rule for intent rows: a row is admitted once, then expired and placed. -/
lemma intentRow_induction {id : IntentId} {P : Log → IntentRow → Prop}
    (append : ∀ log e row, P log row → P (log ++ [e]) row)
    (admitted : ∀ (log : Log) r, r.intentId = id → (ofLog g log).intents.lookup id = none →
      P (log ++ [.intentReceived r]) (.admitted log.length r))
    (expired : ∀ (log : Log) x row, x.intentId = id → P log row → P (log ++ [.intentExpired x])
      { row with expired := some (x.guaranteeDeadlineMs, x.atMs) })
    (placed : ∀ (log : Log) c i row, lastIndex c.intents id = some i → P log row →
      P (log ++ [.slotCommitted c])
        { row with slot := some c.slot, indexInSlot := some (UInt32.ofNat i) })
    (log : Log) : ∀ row ∈ (ofLog g log).intents.lookup id, P log row := by
  induction log using List.reverseRecOn with
  | nil => simp [ofLog, applyBatch, Log.readFrom, new]
  | append_singleton log e ih =>
    rw [ofLog_append, lookup_intents_apply]
    have hkeep : ∀ row ∈ (ofLog g log).intents.lookup id, P (log ++ [e]) row :=
      fun row hrow => append log e row (ih row hrow)
    intro row hrow
    cases e with
    | intentReceived r =>
      rw [IntentRow.onEntry] at hrow
      split_ifs at hrow with hid
      · cases hlookup : (ofLog g log).intents.lookup id with
        | some row₀ =>
          obtain rfl : row₀ = row := by simpa [hlookup] using hrow
          exact hkeep row₀ hlookup
        | none =>
          obtain rfl : IntentRow.admitted log.length r = row := by simpa [hlookup] using hrow
          exact admitted log r hid.symm hlookup
      · exact hkeep row hrow
    | intentExpired x =>
      rw [IntentRow.onEntry] at hrow
      split_ifs at hrow with hid
      · obtain ⟨row₀, hrow₀, rfl⟩ := Option.map_eq_some_iff.mp hrow
        exact expired log x row₀ hid.symm (ih row₀ hrow₀)
      · exact hkeep row hrow
    | slotCommitted c =>
      rw [IntentRow.onEntry] at hrow
      cases hindex : lastIndex c.intents id with
      | some i =>
        simp only [hindex] at hrow
        obtain ⟨row₀, hrow₀, rfl⟩ := Option.map_eq_some_iff.mp hrow
        exact placed log c i row₀ hindex (ih row₀ hrow₀)
      | none =>
        simp only [hindex] at hrow
        exact hkeep row hrow
    | _ => exact hkeep row hrow

end Projections

/-! ### What the rows say is in the log -/

/-- The row of an intent repeats what the log says of it. -/
structure IntentRow.Sourced (log : Log) (id : IntentId) (row : IntentRow) : Prop where
  received : ∃ r ∈ log.received, r.intentId = id ∧ r.receivedAt = row.receivedAtMs ∧
    r.intent.deadlineMs = row.deadlineMs
  slot : ∀ slot, row.slot = some slot → ∃ c ∈ log.commits, c.slot = slot ∧ id ∈ c.intents
  expired : ∀ deadline missedAt, row.expired = some (deadline, missedAt) →
    ⟨id, deadline, missedAt⟩ ∈ log.expiries

/-- The row of a slot repeats what the log says of it. -/
def SlotRow.Sourced (log : Log) (slot : ℕ) (row : SlotRow) : Prop :=
  ∃ c ∈ log.commits, c.slot = slot ∧ c.committedAtMs = row.committedAtMs ∧
    c.commitment = row.commitment

lemma IntentRow.Sourced.append {log : Log} {id : IntentId} {row : IntentRow}
    (h : row.Sourced log id) (e : Entry) : row.Sourced (log ++ [e]) id where
  received := by
    obtain ⟨r, hr, hrow⟩ := h.received
    exact ⟨r, Log.mem_received_append_left hr _, hrow⟩
  slot := by
    intro slot hslot
    obtain ⟨c, hc, hrow⟩ := h.slot slot hslot
    exact ⟨c, Log.mem_commits_append_left hc _, hrow⟩
  expired := fun deadline missedAt hexpired =>
    Log.mem_expiries_append_left (h.expired deadline missedAt hexpired) _

lemma SlotRow.Sourced.append {log : Log} {slot : ℕ} {row : SlotRow}
    (h : row.Sourced log slot) (e : Entry) : row.Sourced (log ++ [e]) slot := by
  obtain ⟨c, hc, hrow⟩ := h
  exact ⟨c, Log.mem_commits_append_left hc _, hrow⟩

theorem Projections.intentRow_sourced (g : GuaranteeConfig) (log : Log) (id : IntentId) :
    ∀ row ∈ (ofLog g log).intents.lookup id, row.Sourced log id := by
  refine intentRow_induction (P := fun log row => row.Sourced log id)
    ?append ?admitted ?expired ?placed log
  case append => exact fun log e row h => h.append e
  case admitted =>
    intro log r hid _
    refine ⟨⟨r, by simp, hid, rfl, rfl⟩, ?_, ?_⟩
    · intro slot hslot
      simp [IntentRow.admitted] at hslot
    · intro deadline missedAt hexpired
      simp [IntentRow.admitted] at hexpired
  case expired =>
    intro log x row hid h
    have h₀ := h.append (.intentExpired x)
    refine ⟨h₀.received, h₀.slot, ?_⟩
    intro deadline missedAt hexpired
    obtain ⟨rfl, rfl⟩ : x.guaranteeDeadlineMs = deadline ∧ x.atMs = missedAt := by
      simpa using hexpired
    simp [← hid]
  case placed =>
    intro log c i row hindex h
    have h₀ := h.append (.slotCommitted c)
    refine ⟨h₀.received, ?_, h₀.expired⟩
    intro slot hslot
    exact ⟨c, by simp, by simpa using hslot, mem_of_lastIndex hindex⟩

theorem Projections.slotRow_sourced (g : GuaranteeConfig) (log : Log) (slot : ℕ) :
    ∀ row ∈ (ofLog g log).slots.lookup slot, row.Sourced log slot := by
  refine slotRow_induction (P := fun log row => row.Sourced log slot)
    ?append ?opened ?attested ?proven ?fail log
  case append => exact fun log e row h => h.append e
  case opened => exact fun log c hslot => ⟨c, by simp, hslot, rfl, rfl⟩
  -- the later entries about a slot change neither its commitment nor its closing time
  case attested =>
    intro log a row _ h
    have h₀ := h.append (.slotAttested a)
    rw [SlotRow.attested]
    split_ifs
    · exact h₀
    · exact h₀
  case proven =>
    intro log p row _ h
    have h₀ := h.append (.slotsProven p)
    rw [SlotRow.proven]
    split_ifs
    · exact h₀
    · exact h₀
  case fail => exact fun log e reason row h => h.append e

end Zequencer
