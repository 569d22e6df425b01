/-
# What the log says of an intent

Status answers from rows that are moved entry by entry.  What it ought to answer can be read
off the log without them: whether the intent was received, whether it was missed, which slot it
is in, how that slot was ruled on and how the range over it came out.  On an orderly log the two
agree, so the read model says of an intent what the log says of it, and nothing else.
-/
import Zequencer.Projection.Steps
import Zequencer.Sequencer.Disposition

namespace Zequencer

/-! ### Read off the log -/

/-- What a slot was ruled: the stage that the ruling brings. -/
def Entry.ruledAs? (slot : ℕ) : Entry → Option SlotStage
  | .slotAttested a => if a.slot = slot then some .preconfirmed else none
  | .attestFailed f => if f.slot = slot then some (.failed f.reason) else none
  | _ => none

/-- How a range over a slot came out. -/
def Entry.settledAs? (slot : ℕ) : Entry → Option SlotStage
  | .slotsProven p => if p.fromSlot ≤ slot ∧ slot ≤ p.toSlot then some .proven else none
  | .proveFailed f =>
    if f.fromSlot ≤ slot ∧ slot ≤ f.toSlot then some (.failed f.reason) else none
  | _ => none

namespace Log

/-- The stage of a slot: what it was ruled and, if it was attested, how its range came out. -/
def slotStage (log : Log) (slot : ℕ) : SlotStage :=
  match log.findSome? (Entry.ruledAs? slot) with
  | none => .committed
  | some .preconfirmed => (log.findSome? (Entry.settledAs? slot)).getD .preconfirmed
  | some stage => stage

/-- The slot an intent is in. -/
def slotOf (log : Log) (id : IntentId) : Option ℕ :=
  (log.commits.find? fun c => id ∈ c.intents).map SlotCommitted.slot

/-- What became of an intent. -/
def story (log : Log) (id : IntentId) : Option Lifecycle :=
  if ∀ r ∈ log.received, r.intentId ≠ id then none
  else if ∃ x ∈ log.expiries, x.intentId = id then some .expired
  else some ((log.slotOf id).elim .received fun slot => (log.slotStage slot).lifecycle)

/-- Nothing becomes of an intent before it is received. -/
def ReceivedFirst (log : Log) : Prop :=
  ∀ (pre : Log) e post, log = pre ++ e :: post →
    ∀ id ∈ e.disposes, ∃ r ∈ pre.received, r.intentId = id

variable {log : Log} {e : Entry} {id : IntentId} {slot : ℕ}

lemma ReceivedFirst.append (h : ReceivedFirst log)
    (he : ∀ id ∈ e.disposes, ∃ r ∈ log.received, r.intentId = id) :
    ReceivedFirst (log ++ [e]) := by
  intro pre x post hlog
  rcases append_singleton_eq_append_cons hlog with ⟨rfl, rfl, -⟩ | ⟨post', hlog'⟩
  · exact he
  · exact h pre x post' hlog'

lemma ReceivedFirst.of_append {rest : Log} (h : ReceivedFirst (log ++ rest)) :
    ReceivedFirst log := by
  rintro pre x post rfl
  exact h pre x (post ++ rest) (by simp)

lemma ReceivedFirst.received (h : ReceivedFirst log) (hid : id ∈ log.disposed) :
    ∃ r ∈ log.received, r.intentId = id := by
  obtain ⟨e, he, hide⟩ := List.mem_flatMap.mp hid
  obtain ⟨pre, post, rfl⟩ := List.append_of_mem he
  obtain ⟨r, hr, hrid⟩ := h pre e post rfl id hide
  exact ⟨r, mem_received_append_left hr _, hrid⟩

/-! ### Rulings and outcomes -/

lemma findSome?_ruledAs_eq_none_iff :
    log.findSome? (Entry.ruledAs? slot) = none ↔ slot ∉ log.rulings := by
  rw [List.findSome?_eq_none_iff, mem_rulings]
  constructor
  · rintro h ⟨e, he, hslot⟩
    have hnone := h e he
    cases e <;> simp [Entry.ruling?, Entry.ruledAs?] at hslot hnone
    · exact hnone hslot
    · exact hnone hslot
  · intro h e he
    cases e with
    | slotAttested a => exact if_neg fun hslot => h ⟨_, he, congrArg some hslot⟩
    | attestFailed f => exact if_neg fun hslot => h ⟨_, he, congrArg some hslot⟩
    | _ => rfl

lemma findSome?_settledAs_eq_none_iff :
    log.findSome? (Entry.settledAs? slot) = none ↔
      ∀ r ∈ log.ranges, ¬ (r.1 ≤ slot ∧ slot ≤ r.2) := by
  rw [List.findSome?_eq_none_iff]
  constructor
  · intro h r hr hin
    obtain ⟨e, he, hrange⟩ := List.mem_filterMap.mp hr
    have hnone := h e he
    cases e with
    | slotsProven p | proveFailed f =>
      obtain rfl := Option.some.inj hrange
      rw [Entry.settledAs?, if_pos hin] at hnone
      simp at hnone
    | _ => simp [Entry.range?] at hrange
  · intro h e he
    cases e with
    | slotsProven p => exact if_neg (h (p.fromSlot, p.toSlot) (List.mem_filterMap.mpr ⟨_, he, rfl⟩))
    | proveFailed f => exact if_neg (h (f.fromSlot, f.toSlot) (List.mem_filterMap.mpr ⟨_, he, rfl⟩))
    | _ => rfl

lemma RuledInOrder.ruledAs_of_attested (h : RuledInOrder log) (hslot : slot ∈ log.attested) :
    log.findSome? (Entry.ruledAs? slot) = some .preconfirmed := by
  cases hruled : log.findSome? (Entry.ruledAs? slot) with
  | none =>
    exact absurd (mem_rulings_of_attested hslot) (findSome?_ruledAs_eq_none_iff.mp hruled)
  | some stage =>
    obtain ⟨e, he, hstage⟩ := List.exists_of_findSome?_eq_some hruled
    cases e with
    | slotAttested a =>
      rw [Entry.ruledAs?, Option.ite_none_right_eq_some] at hstage
      exact hstage.2.symm
    | attestFailed f =>
      rw [Entry.ruledAs?, Option.ite_none_right_eq_some] at hstage
      obtain ⟨q, hq⟩ := List.mem_iff_getElem?.mp he
      exact absurd (hstage.1 ▸ hslot) (h.not_attested hq)
    | _ => simp [Entry.ruledAs?] at hstage

lemma findSome?_concat {β : Type*} (f : Entry → Option β) (log : Log) (e : Entry) :
    List.findSome? f (log ++ [e]) = (log.findSome? f).or (f e) := by
  simp [List.findSome?_append]

/-- An entry that neither rules on a slot nor settles it leaves its stage. -/
lemma slotStage_concat_of_none (hruled : e.ruledAs? slot = none)
    (hsettled : e.settledAs? slot = none) : slotStage (log ++ [e]) slot = log.slotStage slot := by
  simp only [slotStage, findSome?_concat, hruled, hsettled, Option.or_none]

lemma slotStage_of_not_ruled (h : slot ∉ log.rulings) : log.slotStage slot = .committed := by
  simp only [slotStage, findSome?_ruledAs_eq_none_iff.mpr h]

/-! ### What stays -/

lemma findSome?_append_of_some {β : Type*} {f : Entry → Option β} {b : β}
    (h : log.findSome? f = some b) (rest : Log) : List.findSome? f (log ++ rest) = some b := by
  rw [List.findSome?_append, h, Option.some_or]

lemma slotStage_append (h : (log.slotStage slot).lifecycle.Terminal) (rest : Log) :
    slotStage (log ++ rest) slot = log.slotStage slot := by
  unfold slotStage at h ⊢
  cases hruled : log.findSome? (Entry.ruledAs? slot) with
  | none => simp [hruled, SlotStage.lifecycle, Lifecycle.Terminal] at h
  | some stage =>
    rw [findSome?_append_of_some hruled]
    cases stage with
    | preconfirmed =>
      simp only [hruled] at h
      cases hsettled : log.findSome? (Entry.settledAs? slot) with
      | none => simp [hsettled, SlotStage.lifecycle, Lifecycle.Terminal] at h
      | some stage => simp only [findSome?_append_of_some hsettled]
    | _ => rfl

lemma slotOf_append (h : log.slotOf id = some slot) (rest : Log) :
    slotOf (log ++ rest) id = some slot := by
  rw [slotOf, commits_append, List.find?_append, Option.map_or, ← slotOf, h, Option.some_or]

lemma exists_slotOf {c : SlotCommitted} (hc : c ∈ log.commits) (hid : id ∈ c.intents) :
    ∃ c' ∈ log.commits, id ∈ c'.intents ∧ log.slotOf id = some c'.slot := by
  cases hfind : log.commits.find? fun c => id ∈ c.intents with
  | none => simpa [hid] using List.find?_eq_none.mp hfind c hc
  | some c' =>
    refine ⟨c', List.mem_of_find?_eq_some hfind, ?_, by rw [slotOf, hfind, Option.map_some]⟩
    simpa using List.find?_some hfind

lemma story_of_missed {r : IntentReceived} {x : IntentExpired} (hr : r ∈ log.received)
    (hid : r.intentId = id) (hx : x ∈ log.expiries) (hxid : x.intentId = id) :
    log.story id = some .expired := by
  rw [story, if_neg fun h => h r hr hid, if_pos ⟨x, hx, hxid⟩]

lemma story_of_slot {r : IntentReceived} (hr : r ∈ log.received) (hid : r.intentId = id)
    (hx : ∀ x ∈ log.expiries, x.intentId ≠ id) (hslot : log.slotOf id = some slot) :
    log.story id = some (log.slotStage slot).lifecycle := by
  rw [story, if_neg fun h => h r hr hid, if_neg fun ⟨x, hmem, hxid⟩ => hx x hmem hxid, hslot,
    Option.elim_some]

lemma terminal_slotStage (hslot : slot ∈ log.rulings)
    (hsettled : log.findSome? (Entry.ruledAs? slot) = some .preconfirmed →
      ∃ r ∈ log.ranges, r.1 ≤ slot ∧ slot ≤ r.2) :
    (log.slotStage slot).lifecycle.Terminal := by
  cases hruled : log.findSome? (Entry.ruledAs? slot) with
  | none => exact absurd hslot (findSome?_ruledAs_eq_none_iff.mp hruled)
  | some stage =>
    obtain ⟨e, -, he⟩ := List.exists_of_findSome?_eq_some hruled
    cases e with
    | attestFailed f =>
      rw [Entry.ruledAs?, Option.ite_none_right_eq_some] at he
      obtain ⟨-, he⟩ := he
      obtain rfl := Option.some.inj he
      simp only [slotStage, hruled]
      trivial
    | slotAttested a =>
      rw [Entry.ruledAs?, Option.ite_none_right_eq_some] at he
      obtain ⟨-, he⟩ := he
      obtain rfl := Option.some.inj he
      obtain ⟨r, hr, hin⟩ := hsettled hruled
      cases hfound : log.findSome? (Entry.settledAs? slot) with
      | none => exact absurd hin (findSome?_settledAs_eq_none_iff.mp hfound r hr)
      | some stage =>
        simp only [slotStage, hruled, hfound, Option.getD_some]
        obtain ⟨e, -, he⟩ := List.exists_of_findSome?_eq_some hfound
        cases e with
        | slotsProven p | proveFailed f =>
          rw [Entry.settledAs?, Option.ite_none_right_eq_some] at he
          obtain ⟨-, he⟩ := he
          obtain rfl := Option.some.inj he
          trivial
        | _ => simp [Entry.settledAs?] at he
    | _ => simp [Entry.ruledAs?] at he

/-- Where misses come before slots, the end of a story stays. -/
lemma story_append {l : Lifecycle} {rest : Log} (hmisses : MissesFirst (log ++ rest))
    (h : log.story id = some l) (hl : l.Terminal) : story (log ++ rest) id = some l := by
  have hreceived : ¬ ∀ r ∈ log.received, r.intentId ≠ id := by
    intro hnot
    rw [story, if_pos hnot] at h
    simp at h
  push Not at hreceived
  obtain ⟨r, hr, hid⟩ := hreceived
  have hr' := mem_received_append_left hr rest
  by_cases hmiss : ∃ x ∈ log.expiries, x.intentId = id
  · obtain ⟨x, hx, hxid⟩ := hmiss
    rw [story_of_missed hr hid hx hxid] at h
    rw [← h]
    exact story_of_missed hr' hid (mem_expiries_append_left hx rest) hxid
  · push Not at hmiss
    cases hslot : log.slotOf id with
    | none =>
      rw [story, if_neg fun h => h r hr hid, if_neg fun ⟨x, hx, hxid⟩ => hmiss x hx hxid,
        hslot] at h
      obtain rfl := Option.some.inj h
      exact hl.elim
    | some slot =>
      rw [story_of_slot hr hid hmiss hslot] at h
      obtain rfl := Option.some.inj h
      have hmiss' : ∀ x ∈ expiries (log ++ rest), x.intentId ≠ id := by
        intro x hx hxid
        rw [expiries_append, List.mem_append] at hx
        rcases hx with hx | hx
        · exact hmiss x hx hxid
        · -- a miss after the slot
          obtain ⟨mid, post, hrest⟩ := List.append_of_mem (mem_expiries.mp hx)
          refine hmisses (log ++ mid) x post (by rw [hrest, List.append_assoc]) ?_
          rw [commits_append, List.flatMap_append, hxid]
          refine List.mem_append_left _ (not_not.mp fun hnot => ?_)
          rw [slotOf, List.find?_eq_none.mpr fun c hc hidc =>
            hnot (List.mem_flatMap.mpr ⟨c, hc, by simpa using hidc⟩)] at hslot
          simp at hslot
      rw [story_of_slot hr' hid hmiss' (slotOf_append hslot rest), slotStage_append hl]

end Log

/-! ### The rows say what the log says -/

variable {g : GuaranteeConfig} {batchSize : ℕ} {log : Log} {e : Entry} {id : IntentId}

/-- In an orderly log, a slot that is not ruled on is in no range. -/
lemma Orderly.no_range {slot : ℕ} (h : Orderly batchSize log) (hslot : slot ∉ log.rulings) :
    ∀ r ∈ log.ranges, ¬ (r.1 ≤ slot ∧ slot ≤ r.2) := fun r hr hin =>
  hslot (Log.mem_rulings_of_attested (h.ranges.attested r hr slot hin.1 hin.2))

lemma Orderly.slotStage_ruling (hlog : Orderly batchSize log) (slot : ℕ) (stage : SlotStage)
    (h' : Orderly batchSize (log ++ [e])) (hruling : e.ruling? = some slot)
    (hruled : e.ruledAs? slot = some stage) (hsettled : e.settledAs? slot = none) :
    log.slotStage slot = .committed ∧ Log.slotStage (log ++ [e]) slot = stage := by
  have hnot := h'.not_mem_rulings hruling
  refine ⟨Log.slotStage_of_not_ruled hnot, ?_⟩
  have hnone := Log.findSome?_settledAs_eq_none_iff.mpr (hlog.no_range hnot)
  simp only [Log.slotStage, Log.findSome?_concat, Log.findSome?_ruledAs_eq_none_iff.mpr hnot,
    hruled, hsettled, hnone, Option.none_or, Option.getD_none]
  cases stage <;> rfl

lemma Orderly.slotStage_outcome (hlog : Orderly batchSize log) {slot : ℕ} {r : ℕ × ℕ}
    (stage : SlotStage) (h' : Orderly batchSize (log ++ [e])) (hr : e.range? = some r)
    (hin : r.1 ≤ slot ∧ slot ≤ r.2) (hruled : e.ruledAs? slot = none)
    (hsettled : e.settledAs? slot = some stage) :
    log.slotStage slot = .preconfirmed ∧ Log.slotStage (log ++ [e]) slot = stage := by
  obtain ⟨hattested, hranges⟩ := h'.attested_of_range hr hin
  have hruledAs := hlog.ruled.ruledAs_of_attested hattested
  have hnone := Log.findSome?_settledAs_eq_none_iff.mpr hranges
  constructor
  · simp only [Log.slotStage, hruledAs, hnone, Option.getD_none]
  · simp only [Log.slotStage, Log.findSome?_concat, hruledAs, hruled, hnone, hsettled,
      Option.or_none, Option.none_or, Option.getD_some]

/-- One more entry of an orderly log: the rows of the slots still say what the log says. -/
lemma stage_append (hlog : Orderly batchSize log) (h' : Orderly batchSize (log ++ [e]))
    (h : ∀ slot, ∀ sr ∈ (Projections.ofLog g log).slots.lookup slot,
      sr.stage = log.slotStage slot) :
    ∀ slot, ∀ sr ∈ (Projections.ofLog g (log ++ [e])).slots.lookup slot,
      sr.stage = Log.slotStage (log ++ [e]) slot := by
  intro slot sr hsr
  rw [Projections.ofLog_append, Projections.lookup_slots_apply] at hsr
  have hkeep : e.ruledAs? slot = none → e.settledAs? slot = none →
      sr ∈ (Projections.ofLog g log).slots.lookup slot →
        sr.stage = Log.slotStage (log ++ [e]) slot := by
    intro hruled hsettled hsr
    rw [Log.slotStage_concat_of_none hruled hsettled]
    exact h slot sr hsr
  cases e with
  | intentReceived r => exact hkeep rfl rfl hsr
  | intentExpired x => exact hkeep rfl rfl hsr
  | slotCommitted c =>
    rw [SlotRow.onEntry] at hsr
    split_ifs at hsr with hslot
    · obtain rfl : SlotRow.opened c = sr := Option.some.inj hsr
      -- nothing is ruled on before it is committed
      refine (Log.slotStage_of_not_ruled ?_).symm
      rw [Log.rulings_append_of_none rfl, hslot]
      intro hmem
      obtain ⟨c', hc', hcc'⟩ := hlog.ruled.after.exists_commit hmem
      exact h'.not_committed c' hc' hcc'
    · exact hkeep rfl rfl hsr
  | slotAttested a =>
    rw [SlotRow.onEntry] at hsr
    split_ifs at hsr with hslot
    · obtain ⟨sr₀, hsr₀, rfl⟩ := Option.map_eq_some_iff.mp hsr
      obtain ⟨hbefore, hafter⟩ := hlog.slotStage_ruling slot .preconfirmed h'
        (congrArg some hslot.symm) (if_pos hslot.symm) rfl
      rw [hafter, SlotRow.attested, if_pos ((h slot sr₀ hsr₀).trans hbefore)]
    · exact hkeep (if_neg (Ne.symm hslot)) rfl hsr
  | attestFailed f =>
    rw [SlotRow.onEntry] at hsr
    split_ifs at hsr with hslot
    · obtain ⟨sr₀, -, rfl⟩ := Option.map_eq_some_iff.mp hsr
      exact (hlog.slotStage_ruling slot (.failed f.reason) h'
        (congrArg some hslot.symm) (if_pos hslot.symm) rfl).2.symm
    · exact hkeep (if_neg (Ne.symm hslot)) rfl hsr
  | slotsProven p =>
    rw [SlotRow.onEntry] at hsr
    split_ifs at hsr with hin
    · obtain ⟨sr₀, hsr₀, rfl⟩ := Option.map_eq_some_iff.mp hsr
      obtain ⟨hbefore, hafter⟩ := hlog.slotStage_outcome (r := (p.fromSlot, p.toSlot))
        .proven h' rfl hin rfl (if_pos hin)
      rw [hafter, SlotRow.proven, if_pos ((h slot sr₀ hsr₀).trans hbefore)]
    · exact hkeep rfl (if_neg hin) hsr
  | proveFailed f =>
    rw [SlotRow.onEntry] at hsr
    split_ifs at hsr with hin
    · obtain ⟨sr₀, -, rfl⟩ := Option.map_eq_some_iff.mp hsr
      exact (hlog.slotStage_outcome (r := (f.fromSlot, f.toSlot)) (.failed f.reason) h'
        rfl hin rfl (if_pos hin)).2.symm
    · exact hkeep rfl (if_neg hin) hsr

lemma Log.slotOf_append_of_none (h : e.committed? = none) (id : IntentId) :
    Log.slotOf (log ++ [e]) id = log.slotOf id := by
  rw [slotOf, commits_concat_of_none h, slotOf]

lemma Log.slotOf_eq_none_iff :
    log.slotOf id = none ↔ id ∉ log.commits.flatMap SlotCommitted.intents := by
  simp [slotOf, List.find?_eq_none]

/-- The row of an intent says where it is, and whether it was missed. -/
structure IntentRow.Tells (log : Log) (id : IntentId) (row : IntentRow) : Prop where
  slot : row.slot = log.slotOf id
  expired : row.expired ≠ none ↔ ∃ x ∈ log.expiries, x.intentId = id

lemma IntentRow.Tells.append {row : IntentRow} (h : row.Tells log id)
    (hc : e.committed? = none) (hx : e.expired? = none) : row.Tells (log ++ [e]) id where
  slot := by rw [h.slot, Log.slotOf_append_of_none hc]
  expired := by rw [h.expired, Log.expiries_concat_of_none hx]

/-- One more entry: the rows of the intents still say what the log says. -/
lemma row_append (h' : Orderly batchSize (log ++ [e])) (hfirst : Log.ReceivedFirst log)
    (h : ∀ id, ∀ row ∈ (Projections.ofLog g log).intents.lookup id, row.Tells log id) :
    ∀ id, ∀ row ∈ (Projections.ofLog g (log ++ [e])).intents.lookup id,
      row.Tells (log ++ [e]) id := by
  intro id row hrow
  rw [Projections.ofLog_append, Projections.lookup_intents_apply] at hrow
  cases e with
  | intentReceived r =>
    rw [IntentRow.onEntry] at hrow
    have hkeep : row ∈ (Projections.ofLog g log).intents.lookup id →
        row.Tells (log ++ [.intentReceived r]) id := fun hrow => (h id row hrow).append rfl rfl
    split_ifs at hrow with hid
    · cases hlookup : (Projections.ofLog g log).intents.lookup id with
      | some row₀ =>
        obtain rfl : row₀ = row := by simpa [hlookup] using hrow
        exact hkeep hlookup
      | none =>
        obtain rfl : IntentRow.admitted log.length r = row := by simpa [hlookup] using hrow
        -- a new intent was not disposed of
        have hnot : id ∉ log.disposed := fun hmem =>
          Projections.lookup_intents_ne_none_iff.mpr (hfirst.received hmem) hlookup
        constructor
        · rw [Log.slotOf_append_of_none rfl]
          refine (Log.slotOf_eq_none_iff.mpr fun hmem => hnot ?_).symm
          obtain ⟨c, hc, hidc⟩ := List.mem_flatMap.mp hmem
          exact List.mem_flatMap.mpr ⟨_, Log.mem_commits.mp hc, hidc⟩
        · rw [Log.expiries_concat_of_none rfl]
          refine iff_of_false (by simp [IntentRow.admitted]) ?_
          rintro ⟨x, hx, hxid⟩
          exact hnot (List.mem_flatMap.mpr ⟨_, Log.mem_expiries.mp hx,
            List.mem_singleton.mpr hxid.symm⟩)
    · exact hkeep hrow
  | intentExpired x =>
    rw [IntentRow.onEntry] at hrow
    have hexpiries : Log.expiries (log ++ [.intentExpired x]) = log.expiries ++ [x] := by
      simp [Log.expiries, Entry.expired?]
    split_ifs at hrow with hid
    · obtain ⟨row₀, hrow₀, rfl⟩ := Option.map_eq_some_iff.mp hrow
      refine ⟨by rw [Log.slotOf_append_of_none rfl]; exact (h id row₀ hrow₀).slot, ?_⟩
      refine iff_of_true (Option.some_ne_none _) ⟨x, ?_, hid.symm⟩
      rw [hexpiries]
      exact List.mem_append_right _ (List.mem_singleton_self x)
    · refine ⟨by rw [Log.slotOf_append_of_none rfl]; exact (h id row hrow).slot, ?_⟩
      rw [(h id row hrow).expired, hexpiries]
      simp [Ne.symm hid]
  | slotCommitted c =>
    rw [IntentRow.onEntry] at hrow
    have hslotOf : Log.slotOf (log ++ [.slotCommitted c]) id =
        (log.slotOf id).or (if id ∈ c.intents then some c.slot else none) := by
      rw [Log.slotOf, Log.commits_concat_slot, List.find?_append, Option.map_or, Log.slotOf,
        List.find?_singleton]
      by_cases hmem : id ∈ c.intents
      · simp [hmem]
      · simp [hmem]
    cases hindex : lastIndex c.intents id with
    | none =>
      simp only [hindex] at hrow
      refine ⟨?_, by rw [Log.expiries_concat_of_none rfl]; exact (h id row hrow).expired⟩
      rw [hslotOf, if_neg (lastIndex_eq_none.mp hindex), Option.or_none]
      exact (h id row hrow).slot
    | some i =>
      simp only [hindex] at hrow
      have hmem := mem_of_lastIndex hindex
      obtain ⟨row₀, hrow₀, rfl⟩ := Option.map_eq_some_iff.mp hrow
      refine ⟨?_, by rw [Log.expiries_concat_of_none rfl]; exact (h id row₀ hrow₀).expired⟩
      -- the intent is in no other slot
      have hnot : id ∉ log.commits.flatMap SlotCommitted.intents := by
        have hnodup := h'.intents
        rw [Log.commits_concat_slot, List.flatMap_append, List.nodup_append] at hnodup
        exact fun hin => hnodup.2.2 id hin id (by simpa using hmem) rfl
      rw [hslotOf, Log.slotOf_eq_none_iff.mpr hnot, if_pos hmem, Option.none_or]
  | slotAttested a => exact (h id row hrow).append rfl rfl
  | attestFailed f => exact (h id row hrow).append rfl rfl
  | slotsProven p => exact (h id row hrow).append rfl rfl
  | proveFailed f => exact (h id row hrow).append rfl rfl

open Projections in
/-- On a log that is orderly throughout, and disposes of no intent it has not received, status
says of every intent what the log says of it. -/
theorem reported_eq_story (horderly : ∀ n, Orderly batchSize (log.take n))
    (hfirst : log.ReceivedFirst) (id : IntentId) :
    (ofLog g log).reported id = log.story id := by
  have hrows : ∀ n, (∀ slot, ∀ sr ∈ (ofLog g (log.take n)).slots.lookup slot,
        sr.stage = Log.slotStage (log.take n) slot) ∧
      ∀ id, ∀ row ∈ (ofLog g (log.take n)).intents.lookup id, row.Tells (log.take n) id := by
    intro n
    induction n with
    | zero =>
      refine ⟨fun slot sr hsr => ?_, fun id row hrow => ?_⟩
      · obtain ⟨c, hc, -⟩ := slotRow_sourced g [] slot sr hsr
        simp at hc
      · obtain ⟨r, hr, -⟩ := (intentRow_sourced g [] id row hrow).received
        simp at hr
    | succ n ih =>
      by_cases hn : n < log.length
      · have hsucc : log.take (n + 1) = log.take n ++ [log[n]] := by
          rw [List.take_append_getElem hn]
        have horderly' := horderly (n + 1)
        have hfirst' : Log.ReceivedFirst (log.take n ++ log.drop n) := by
          rwa [List.take_append_drop]
        rw [hsucc] at horderly' ⊢
        exact ⟨stage_append (horderly n) horderly' ih.1,
          row_append horderly' hfirst'.of_append ih.2⟩
      · rw [List.take_of_length_le (by omega)] at ih ⊢
        exact ih
  have hlog := hrows log.length
  rw [List.take_length] at hlog
  cases hrow : (ofLog g log).intents.lookup id with
  | none =>
    have hnot : ∀ r ∈ log.received, r.intentId ≠ id := fun r hr hid =>
      lookup_intents_ne_none_iff.mpr ⟨r, hr, hid⟩ hrow
    rw [reported_of_lookup_eq_none hrow, Log.story, if_pos hnot]
  | some row =>
    have hreceived : ¬ ∀ r ∈ log.received, r.intentId ≠ id := by
      obtain ⟨r, hr, hid, -⟩ := (intentRow_sourced g log id row hrow).received
      exact fun h => h r hr hid
    obtain ⟨hslot, hexpired⟩ := hlog.2 id row hrow
    rw [reported_of_lookup hrow, Log.story, if_neg hreceived]
    by_cases hmiss : ∃ x ∈ log.expiries, x.intentId = id
    · rw [if_pos hmiss, lifecycle_of_expired (hexpired.mpr hmiss)]
    · have hnone : row.expired = none := not_not.mp (mt hexpired.mp hmiss)
      rw [if_neg hmiss, ← hslot]
      cases hplace : row.slot with
      | none => rw [lifecycle_of_waiting hnone hplace, Option.elim_none]
      | some slot =>
        obtain ⟨sr, hsr⟩ := exists_slotRow hrow hplace
        rw [lifecycle_of_slot hnone hplace, hsr, Option.map_some, Option.elim_some,
          hlog.1 slot sr hsr]

end Zequencer
