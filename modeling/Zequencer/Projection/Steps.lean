/-
# The steps of the status machine

Several entries move a slot or an intent without asking where it stands, so which steps the
reported lifecycle takes rests on the order of the entries.  In an orderly log every entry
comes where it may: a ruling on a slot not ruled on, an outcome over attested slots that no
outcome has reached, a miss of an intent in no slot.
-/
import Zequencer.Projection.Lifecycle
import Zequencer.Prover.Ranges

namespace Zequencer

/-- One step of what status reports of an intent: nothing, or an edge of the machine. -/
inductive Lifecycle.Edge : Option Lifecycle → Option Lifecycle → Prop
  | same (l) : Edge l l
  | receive : Edge none (some .received)
  | sequence : Edge (some .received) (some .sequenced)
  | expire : Edge (some .received) (some .expired)
  | preconfirm : Edge (some .sequenced) (some .preconfirmed)
  | failAttest (reason : String) : Edge (some .sequenced) (some (.failed reason))
  | prove : Edge (some .preconfirmed) (some .finalProven)
  | failProve (reason : String) : Edge (some .preconfirmed) (some (.failed reason))

/-- No edge leaves these. -/
def Lifecycle.Terminal : Lifecycle → Prop
  | .expired => True
  | .finalProven => True
  | .failed _ => True
  | _ => False

instance : DecidablePred Lifecycle.Terminal := fun l => by
  cases l <;> unfold Lifecycle.Terminal <;> infer_instance

lemma Lifecycle.Edge.of_terminal {l : Lifecycle} {l' : Option Lifecycle}
    (h : Edge (some l) l') (hl : l.Terminal) : l' = some l := by
  cases h with
  | same => rfl
  | _ => exact hl.elim

/-! ### Orderly logs -/

/-- A miss is of an intent that is in no slot so far. -/
def MissesFirst (log : Log) : Prop :=
  ∀ (pre : Log) x post, log = pre ++ .intentExpired x :: post →
    x.intentId ∉ pre.commits.flatMap SlotCommitted.intents

/-- The entries of a log come in an order that the stages keep to. -/
structure Orderly (batchSize : ℕ) (log : Log) : Prop where
  numbered : Log.Numbered log
  ruled : Log.RuledInOrder log
  ranges : RangesInOrder batchSize log
  /-- No intent is committed twice. -/
  intents : (log.commits.flatMap SlotCommitted.intents).Nodup
  misses : MissesFirst log

variable {g : GuaranteeConfig} {batchSize : ℕ} {log : Log} {e : Entry} {id : IntentId}

/-- The stage of a slot repeats what the log says of it. -/
structure StageLaw (log : Log) (slot : ℕ) (sr : SlotRow) : Prop where
  committed : slot ∉ log.rulings → sr.stage = .committed
  preconfirmed : slot ∈ log.attested → (∀ r ∈ log.ranges, ¬ (r.1 ≤ slot ∧ slot ≤ r.2)) →
    sr.stage = .preconfirmed

/-! ### One entry of an orderly log -/

lemma Orderly.not_mem_rulings {slot : ℕ} (h : Orderly batchSize (log ++ [e]))
    (he : e.ruling? = some slot) : slot ∉ log.rulings := by
  have hnodup : (Log.rulings (log ++ [e])).Nodup := h.ruled.slots ▸ List.nodup_range
  rw [Log.rulings_append_of_some he, List.nodup_append] at hnodup
  intro hmem
  exact hnodup.2.2 slot hmem slot (List.mem_singleton_self _) rfl

/-- The slots of a new outcome are attested, and in no range so far. -/
lemma Orderly.attested_of_range {r : ℕ × ℕ} {slot : ℕ} (h : Orderly batchSize (log ++ [e]))
    (he : e.range? = some r) (hslot : r.1 ≤ slot ∧ slot ≤ r.2) :
    slot ∈ log.attested ∧ ∀ r' ∈ log.ranges, ¬ (r'.1 ≤ slot ∧ slot ≤ r'.2) := by
  have hranges : Log.ranges (log ++ [e]) = log.ranges ++ [r] := by
    simp [Log.ranges, he]
  constructor
  · have hmem : slot ∈ Log.attested (log ++ [e]) := by
      refine h.ranges.attested r ?_ slot hslot.1 hslot.2
      rw [hranges]
      exact List.mem_append_right _ (List.mem_singleton_self _)
    refine (Log.mem_attested_append hmem).resolve_right fun hruling => ?_
    cases e <;> simp [Entry.range?, Entry.ruling?] at he hruling
  · intro r' hr' hin
    have hascending := h.ranges.ascending
    rw [hranges, List.pairwise_concat] at hascending
    have hlt := hascending.2 r' hr'
    omega

lemma Orderly.not_committed {c : SlotCommitted} (h : Orderly batchSize (log ++ [.slotCommitted c])) :
    ∀ c' ∈ log.commits, c'.slot ≠ c.slot := by
  intro c' hc' hslot
  have hnodup : ((log.commits ++ [c]).map SlotCommitted.slot).Nodup := by
    have hnum : (Log.commits (log ++ [.slotCommitted c])).map SlotCommitted.slot = _ := h.numbered
    rw [← Log.commits_concat_slot, hnum]
    exact List.nodup_range
  rw [List.map_append, List.nodup_append] at hnodup
  exact hnodup.2.2 _ (List.mem_map_of_mem hc') c.slot (by simp) hslot

lemma StageLaw.append (hlog : Orderly batchSize log) (h' : Orderly batchSize (log ++ [e]))
    (h : ∀ slot, ∀ sr ∈ (Projections.ofLog g log).slots.lookup slot, StageLaw log slot sr) :
    ∀ slot, ∀ sr ∈ (Projections.ofLog g (log ++ [e])).slots.lookup slot,
      StageLaw (log ++ [e]) slot sr := by
  intro slot sr hsr
  rw [Projections.ofLog_append, Projections.lookup_slots_apply] at hsr
  -- an entry that rules on other slots, and settles others, if any
  have hkeep : e.ruling? ≠ some slot →
      sr ∈ (Projections.ofLog g log).slots.lookup slot → StageLaw (log ++ [e]) slot sr := by
    intro hruling hsr
    have hlaw := h slot sr hsr
    refine ⟨fun hnot => hlaw.committed fun hmem => hnot ?_, fun hattested hranges =>
      hlaw.preconfirmed ((Log.mem_attested_append hattested).resolve_right hruling) fun r hr =>
        hranges r ?_⟩
    · rw [Log.rulings_append]
      exact List.mem_append_left _ hmem
    · rw [Log.ranges, List.filterMap_append]
      exact List.mem_append_left _ hr
  -- a slot of a range just settled
  have hsettled : ∀ r, e.range? = some r → r.1 ≤ slot ∧ slot ≤ r.2 →
      StageLaw (log ++ [e]) slot sr := by
    intro r hr hin
    have hattested := (h'.attested_of_range hr hin).1
    refine ⟨fun hnot => absurd ?_ hnot, fun _ hranges => absurd hin (hranges r ?_)⟩
    · rw [Log.rulings_append]
      exact List.mem_append_left _ (Log.mem_rulings_of_attested hattested)
    · rw [Log.ranges, List.filterMap_append]
      refine List.mem_append_right _ ?_
      simp [hr]
  cases e with
  | intentReceived r => exact hkeep (by simp [Entry.ruling?]) hsr
  | intentExpired x => exact hkeep (by simp [Entry.ruling?]) hsr
  | slotCommitted c =>
    rw [SlotRow.onEntry] at hsr
    split_ifs at hsr with hslot
    · obtain rfl : SlotRow.opened c = sr := Option.some.inj hsr
      refine ⟨fun _ => rfl, fun hattested => ?_⟩
      -- nothing is attested before it is committed
      have hmem : c.slot ∈ log.rulings := by
        rw [Log.attested_append, List.mem_append] at hattested
        refine Log.mem_rulings_of_attested (hattested.resolve_right ?_ |> (hslot ▸ ·))
        simp [Log.attested, Entry.attested?]
      obtain ⟨c', hc', hcc'⟩ := hlog.ruled.after.exists_commit hmem
      exact absurd hcc' (h'.not_committed c' hc')
    · exact hkeep (by simp [Entry.ruling?]) hsr
  | slotAttested a =>
    rw [SlotRow.onEntry] at hsr
    split_ifs at hsr with hslot
    · obtain ⟨sr₀, hsr₀, rfl⟩ := Option.map_eq_some_iff.mp hsr
      have hnot : slot ∉ log.rulings := h'.not_mem_rulings (by rw [hslot]; rfl)
      have hstage := (h slot sr₀ hsr₀).committed hnot
      refine ⟨fun hnot' => absurd ?_ hnot', fun _ _ => ?_⟩
      · exact Log.mem_rulings_concat (by rw [hslot]; rfl)
      · rw [SlotRow.attested, if_pos hstage]
    · exact hkeep (by simpa [Entry.ruling?] using fun h => hslot h.symm) hsr
  | attestFailed f =>
    rw [SlotRow.onEntry] at hsr
    split_ifs at hsr with hslot
    · refine ⟨fun hnot' => absurd ?_ hnot', fun hattested => absurd hattested ?_⟩
      · exact Log.mem_rulings_concat (by rw [hslot]; rfl)
      · rw [hslot]
        exact h'.ruled.not_attested (q := log.length) (f := f) (by simp)
    · exact hkeep (by simpa [Entry.ruling?] using fun h => hslot h.symm) hsr
  | slotsProven p =>
    rw [SlotRow.onEntry] at hsr
    split_ifs at hsr with hin
    · exact hsettled (p.fromSlot, p.toSlot) rfl hin
    · exact hkeep (by simp [Entry.ruling?]) hsr
  | proveFailed f =>
    rw [SlotRow.onEntry] at hsr
    split_ifs at hsr with hin
    · exact hsettled (f.fromSlot, f.toSlot) rfl hin
    · exact hkeep (by simp [Entry.ruling?]) hsr

/-! ### The steps -/

namespace Projections

/-- Where the row of the intent stays, the lifecycle moves with the stage of its slot. -/
lemma edge_of_slots {p' : Projections} (hrow : p'.intents.lookup id = (ofLog g log).intents.lookup id)
    (hslots : ∀ slot, ∀ sr ∈ (ofLog g log).slots.lookup slot, ∃ sr' ∈ p'.slots.lookup slot,
      Lifecycle.Edge (some sr.stage.lifecycle) (some sr'.stage.lifecycle)) :
    Lifecycle.Edge ((ofLog g log).reported id) (p'.reported id) := by
  cases hlookup : (ofLog g log).intents.lookup id with
  | none =>
    rw [reported_of_lookup_eq_none hlookup, reported_of_lookup_eq_none (hrow.trans hlookup)]
    exact .same _
  | some row =>
    rw [reported_of_lookup hlookup, reported_of_lookup (hrow.trans hlookup)]
    by_cases hexpired : row.expired = none
    · cases hslot : row.slot with
      | none =>
        rw [lifecycle_of_waiting hexpired hslot, lifecycle_of_waiting hexpired hslot]
        exact .same _
      | some slot =>
        obtain ⟨sr, hsr⟩ := exists_slotRow hlookup hslot
        obtain ⟨sr', hsr', hedge⟩ := hslots slot sr hsr
        rw [lifecycle_of_slot hexpired hslot, lifecycle_of_slot hexpired hslot, hsr,
          Option.mem_def.mp hsr', Option.map_some, Option.map_some]
        exact hedge
    · rw [lifecycle_of_expired hexpired, lifecycle_of_expired hexpired]
      exact .same _

/-- A miss of an intent that is in no slot expires it. -/
lemma edge_of_miss {x : IntentExpired}
    (hx : x.intentId ∉ log.commits.flatMap SlotCommitted.intents) :
    Lifecycle.Edge ((ofLog g log).reported id)
      ((ofLog g (log ++ [.intentExpired x])).reported id) := by
  have hrow := lookup_intents_apply (ofLog g log) log.length (.intentExpired x) id
  rw [← ofLog_append, IntentRow.onEntry] at hrow
  by_cases hid : id = x.intentId
  · rw [if_pos hid] at hrow
    cases hlookup : (ofLog g log).intents.lookup id with
    | none =>
      rw [hlookup, Option.map_none] at hrow
      rw [reported_of_lookup_eq_none hlookup, reported_of_lookup_eq_none hrow]
      exact .same _
    | some row =>
      rw [hlookup, Option.map_some] at hrow
      have hslot : row.slot = none := by
        by_contra hne
        obtain ⟨slot, hslot⟩ := Option.ne_none_iff_exists'.mp hne
        obtain ⟨c, hc, -, hmem⟩ := (intentRow_sourced g log id row hlookup).slot slot hslot
        exact hx (List.mem_flatMap.mpr ⟨c, hc, hid ▸ hmem⟩)
      have hafter : (ofLog g (log ++ [.intentExpired x])).lifecycle
          { row with expired := some (x.guaranteeDeadlineMs, x.atMs) } = some .expired :=
        lifecycle_of_expired (Option.some_ne_none _)
      rw [reported_of_lookup hlookup, reported_of_lookup hrow, hafter]
      by_cases hexpired : row.expired = none
      · rw [lifecycle_of_waiting hexpired hslot]
        exact .expire
      · rw [lifecycle_of_expired hexpired]
        exact .same _
  · rw [if_neg hid] at hrow
    refine edge_of_slots hrow fun slot sr hsr => ⟨sr, ?_, .same _⟩
    rw [ofLog_append]
    exact hsr

/-- A new slot sequences the intents in it, which are in no slot so far. -/
lemma edge_of_commit {c : SlotCommitted} (hslot : ∀ c' ∈ log.commits, c'.slot ≠ c.slot)
    (hids : ∀ i ∈ c.intents, i ∉ log.commits.flatMap SlotCommitted.intents) :
    Lifecycle.Edge ((ofLog g log).reported id)
      ((ofLog g (log ++ [.slotCommitted c])).reported id) := by
  have hrow := lookup_intents_apply (ofLog g log) log.length (.slotCommitted c) id
  have hslots := lookup_slots_apply (ofLog g log) log.length (.slotCommitted c)
  simp only [← ofLog_append, IntentRow.onEntry, SlotRow.onEntry] at hrow hslots
  cases hindex : lastIndex c.intents id with
  | none =>
    rw [hindex] at hrow
    refine edge_of_slots hrow fun slot sr hsr => ⟨sr, ?_, .same _⟩
    have hne : slot ≠ c.slot := by
      rintro rfl
      obtain ⟨c', hc', hcc', -⟩ := slotRow_sourced g log _ sr hsr
      exact hslot c' hc' hcc'
    rw [hslots, if_neg hne]
    exact hsr
  | some i =>
    have hmem : id ∈ c.intents := mem_of_lastIndex hindex
    rw [hindex] at hrow
    cases hlookup : (ofLog g log).intents.lookup id with
    | none =>
      simp only [hlookup, Option.map_none] at hrow
      rw [reported_of_lookup_eq_none hlookup, reported_of_lookup_eq_none hrow]
      exact .same _
    | some row =>
      simp only [hlookup, Option.map_some] at hrow
      generalize hrow' : ({ row with
        slot := some c.slot, indexInSlot := some (UInt32.ofNat i) } : IntentRow) = row' at hrow
      have hexpired' : row'.expired = row.expired := by rw [← hrow']
      have hslot' : row'.slot = some c.slot := by rw [← hrow']
      rw [reported_of_lookup hlookup, reported_of_lookup hrow]
      by_cases hexpired : row.expired = none
      · have hwaiting : row.slot = none := by
          by_contra hne
          obtain ⟨slot, hrslot⟩ := Option.ne_none_iff_exists'.mp hne
          obtain ⟨c', hc', -, hmem'⟩ := (intentRow_sourced g log id row hlookup).slot slot hrslot
          exact hids id hmem (List.mem_flatMap.mpr ⟨c', hc', hmem'⟩)
        rw [lifecycle_of_waiting hexpired hwaiting,
          lifecycle_of_slot (hexpired'.trans hexpired) hslot', hslots, if_pos rfl]
        exact .sequence
      · rw [lifecycle_of_expired hexpired, lifecycle_of_expired (hexpired' ▸ hexpired)]
        exact .same _

end Projections

open Projections in
/-- **One more entry of an orderly log takes one edge.** -/
theorem Orderly.edge (h' : Orderly batchSize (log ++ [e]))
    (hstages : ∀ slot, ∀ sr ∈ (ofLog g log).slots.lookup slot, StageLaw log slot sr)
    (id : IntentId) :
    Lifecycle.Edge ((ofLog g log).reported id) ((ofLog g (log ++ [e])).reported id) := by
  have hslots := lookup_slots_apply (ofLog g log) log.length e
  have hrow := lookup_intents_apply (ofLog g log) log.length e id
  rw [← ofLog_append] at hrow
  simp only [← ofLog_append] at hslots
  cases e with
  | intentReceived r =>
    rw [IntentRow.onEntry] at hrow
    cases hlookup : (ofLog g log).intents.lookup id with
    | none =>
      rw [hlookup] at hrow
      split_ifs at hrow with hid
      · rw [reported_of_lookup_eq_none hlookup, reported_of_lookup hrow,
          lifecycle_of_waiting rfl rfl]
        exact .receive
      · rw [reported_of_lookup_eq_none hlookup, reported_of_lookup_eq_none hrow]
        exact .same _
    | some row =>
      rw [hlookup, Option.getD_some, ite_self, ← hlookup] at hrow
      exact edge_of_slots hrow fun slot sr hsr => ⟨sr, (hslots slot).trans hsr, .same _⟩
  | intentExpired x => exact edge_of_miss (h'.misses log x [] rfl)
  | slotCommitted c =>
    refine edge_of_commit h'.not_committed fun i hi hmem => ?_
    have hnodup := h'.intents
    rw [Log.commits_append, List.flatMap_append, List.nodup_append] at hnodup
    exact hnodup.2.2 i hmem i (by simpa [Log.commits, Entry.committed?] using hi) rfl
  | slotAttested a =>
    refine edge_of_slots hrow fun slot sr hsr => ?_
    rw [hslots, SlotRow.onEntry, Option.mem_def.mp hsr]
    split_ifs with hslot
    · refine ⟨_, rfl, ?_⟩
      rw [SlotRow.attested]
      split_ifs with hstage
      · rw [hstage]
        exact .preconfirm
      · exact .same _
    · exact ⟨sr, rfl, .same _⟩
  | attestFailed f =>
    refine edge_of_slots hrow fun slot sr hsr => ?_
    rw [hslots, SlotRow.onEntry, Option.mem_def.mp hsr]
    split_ifs with hslot
    · have hnot : slot ∉ log.rulings := h'.not_mem_rulings (by rw [hslot]; rfl)
      refine ⟨_, rfl, ?_⟩
      rw [(hstages slot sr hsr).committed hnot]
      exact .failAttest _
    · exact ⟨sr, rfl, .same _⟩
  | slotsProven p =>
    refine edge_of_slots hrow fun slot sr hsr => ?_
    rw [hslots, SlotRow.onEntry, Option.mem_def.mp hsr]
    split_ifs with hin
    · refine ⟨_, rfl, ?_⟩
      rw [SlotRow.proven]
      split_ifs with hstage
      · rw [hstage]
        exact .prove
      · exact .same _
    · exact ⟨sr, rfl, .same _⟩
  | proveFailed f =>
    refine edge_of_slots hrow fun slot sr hsr => ?_
    rw [hslots, SlotRow.onEntry, Option.mem_def.mp hsr]
    split_ifs with hin
    · obtain ⟨hattested, hranges⟩ := h'.attested_of_range (r := (f.fromSlot, f.toSlot)) rfl hin
      refine ⟨_, rfl, ?_⟩
      rw [(hstages slot sr hsr).preconfirmed hattested hranges]
      exact .failProve _
    · exact ⟨sr, rfl, .same _⟩

end Zequencer
