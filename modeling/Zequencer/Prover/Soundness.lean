/-
# The prover is sound on any log

One run of the prover, from any cursor and next slot, over a log that says anything.  Beside
the task stand the entries it has taken up and the batches it has handed to the backend, and
an account of the task in these terms: the next slot is the number of rulings followed, what
is awaited is what was committed last, and what is pending was attested in its turn.
-/
import Zequencer.Prover.Awaiting
import Zequencer.Prover.Batches

namespace Zequencer

variable {cfg : BatchConfig} {first : ℕ} {processed : List Entry}
  {handed : List (List CommittedSlot)} {v : ProverVars}

/-! ### What a list of entries says -/

/-- The slot to be ruled on next after these entries, when it was `first` before them.  Rulings
on other slots do not count. -/
def nextRuled (first : ℕ) (entries : List Entry) : ℕ :=
  entries.foldl (fun next e => if e.ruling? = some next then next + 1 else next) first

/-- The last commit of a slot among these entries. -/
def lastCommit? (slot : ℕ) (entries : List Entry) : Option SlotCommitted :=
  ((Log.commits entries).filter fun c => c.slot = slot).getLast?

/-- After `pre`, the entry `e` is the ruling that takes the next slot past `slot`. -/
structure TakesPast (first : ℕ) (entries : List Entry) (slot : ℕ) (pre : List Entry)
    (e : Entry) : Prop where
  within : pre ++ [e] <+: entries
  reached : nextRuled first pre = slot
  ruling : e.ruling? = some slot

lemma nextRuled_concat (first : ℕ) (entries : List Entry) (e : Entry) :
    nextRuled first (entries ++ [e]) =
      if e.ruling? = some (nextRuled first entries) then nextRuled first entries + 1
      else nextRuled first entries := by
  rw [nextRuled, List.foldl_append]
  rfl

lemma nextRuled_concat_of_ne {e : Entry} (h : e.ruling? ≠ some (nextRuled first processed)) :
    nextRuled first (processed ++ [e]) = nextRuled first processed := by
  rw [nextRuled_concat, if_neg h]

lemma nextRuled_mono (first : ℕ) {entries entries' : List Entry} (h : entries <+: entries') :
    nextRuled first entries ≤ nextRuled first entries' := by
  obtain ⟨rest, rfl⟩ := h
  induction rest using List.reverseRecOn with
  | nil => rw [List.append_nil]
  | append_singleton rest e ih =>
    rw [← List.append_assoc, nextRuled_concat]
    split_ifs
    · omega
    · exact ih

lemma nextRuled_lt {bound : ℕ} {entries : List Entry} (hfirst : first < bound)
    (h : ∀ e ∈ entries, ∀ slot ∈ e.ruling?, slot + 1 < bound) :
    nextRuled first entries < bound := by
  induction entries using List.reverseRecOn with
  | nil => exact hfirst
  | append_singleton entries e ih =>
    rw [nextRuled_concat]
    split_ifs with hr
    · exact h e (by simp) _ hr
    · exact ih fun e' he' => h e' (List.mem_append_left _ he')

lemma lastCommit?_concat_of_none {e : Entry} (he : e.committed? = none) (slot : ℕ) :
    lastCommit? slot (processed ++ [e]) = lastCommit? slot processed := by
  rw [lastCommit?, Log.commits_concat_of_none he]
  rfl

lemma lastCommit?_concat_commit (c : SlotCommitted) (slot : ℕ) :
    lastCommit? slot (processed ++ [.slotCommitted c]) =
      if slot = c.slot then some c else lastCommit? slot processed := by
  rw [lastCommit?, Log.commits_concat_slot, List.filter_append]
  by_cases h : slot = c.slot
  · rw [if_pos h, List.filter_singleton, decide_eq_true h.symm]
    exact List.getLast?_concat
  · rw [if_neg h, List.filter_singleton, decide_eq_false (Ne.symm h)]
    exact congrArg List.getLast? (List.append_nil _)

lemma slot_of_lastCommit? {slot : ℕ} {c : SlotCommitted} (h : lastCommit? slot processed = some c) :
    c.slot = slot := by
  have hmem := (List.mem_filter.mp (List.mem_of_getLast? h)).2
  simpa using hmem

lemma lastCommit?_eq_none {slot : ℕ} (h : ∀ c ∈ Log.commits processed, c.slot ≠ slot) :
    lastCommit? slot processed = none := by
  rw [lastCommit?, List.getLast?_eq_none_iff, List.filter_eq_nil_iff]
  simpa using h

lemma TakesPast.eq {entries pre pre' : List Entry} {slot : ℕ} {e e' : Entry}
    (h : TakesPast first entries slot pre e) (h' : TakesPast first entries slot pre' e') :
    pre = pre' ∧ e = e' := by
  -- two prefixes of different length would both start at this slot, and the longer one is past it
  have hlen : ∀ {p p' : List Entry} {x x' : Entry}, TakesPast first entries slot p x →
      TakesPast first entries slot p' x' → p'.length ≤ p.length := by
    intro p p' x x' hx hx'
    by_contra hlt
    have hprefix : p ++ [x] <+: p' := by
      refine List.prefix_of_prefix_length_le hx.within
        ((List.prefix_append p' [x']).trans hx'.within) ?_
      rw [List.length_append, List.length_singleton]
      omega
    have hmono := nextRuled_mono first hprefix
    rw [nextRuled_concat, hx.reached, if_pos hx.ruling, hx'.reached] at hmono
    omega
  have hconcat : pre ++ [e] = pre' ++ [e'] := by
    have heq : pre.length = pre'.length := le_antisymm (hlen h' h) (hlen h h')
    refine (List.prefix_of_prefix_length_le h.within h'.within ?_).eq_of_length ?_
    · rw [List.length_append, List.length_append, heq]
      rfl
    · rw [List.length_append, List.length_append, heq]
      rfl
  obtain ⟨hpre, he⟩ := List.append_inj' hconcat rfl
  exact ⟨hpre, List.singleton_inj.mp he⟩

/-- A slot with the contents it was committed with last, released by its attestation. -/
def Released (first : ℕ) (processed : List Entry) (c : CommittedSlot) : Prop :=
  ∃ pre a, TakesPast first processed c.slot pre (.slotAttested a) ∧
    (lastCommit? c.slot pre).map SlotCommitted.contents = some c

lemma Released.concat {c : CommittedSlot} (h : Released first processed c) (e : Entry) :
    Released first (processed ++ [e]) c := by
  obtain ⟨pre, a, htakes, hlast⟩ := h
  exact ⟨pre, a, ⟨htakes.within.trans (List.prefix_append _ _), htakes.reached, htakes.ruling⟩,
    hlast⟩

/-! ### The account of a run -/

lemma RunFrom.mem {slots : List CommittedSlot} (h : RunFrom first slots) {c : CommittedSlot}
    (hc : c ∈ slots) : first ≤ c.slot ∧ c.slot < first + slots.length := by
  have hmem : c.slot ∈ slots.map CommittedSlot.slot := List.mem_map_of_mem hc
  rw [h] at hmem
  exact List.mem_range'_1.mp hmem

/-- The batches handed over: each a range of released slots, above the ranges before it. -/
structure HandedWell (first : ℕ) (processed : List Entry) (handed : List (List CommittedSlot)) :
    Prop where
  batches : ∀ batch ∈ handed, ∃ fromSlot toSlot, IsBatch fromSlot toSlot batch
  ascending : handed.Pairwise fun batch batch' => ∀ c ∈ batch, ∀ c' ∈ batch', c.slot < c'.slot
  released : ∀ batch ∈ handed, ∀ c ∈ batch, Released first processed c

/-- What a running task holds, in terms of what it has taken up and handed over. -/
structure Account (first : ℕ) (v : ProverVars) (processed : List Entry)
    (handed : List (List CommittedSlot)) : Prop where
  next : v.nextSlot = nextRuled first processed
  awaiting : ∀ slot, v.nextSlot ≤ slot →
    v.awaiting.lookup slot = (lastCommit? slot processed).map SlotCommitted.contents
  pending : ∃ start, RunFrom start v.pending ∧ start + v.pending.length = v.nextSlot ∧
    ∀ batch ∈ handed, ∀ c ∈ batch, c.slot < start
  released : ∀ c ∈ v.pending, Released first processed c

/-- What the backend is proving. -/
def ProverTask.inFlight? : ProverTask → Option (List CommittedSlot)
  | .proving _ _ _ taken _ => some taken
  | _ => none

/-- The task, and all it has handed over, is accounted for. -/
structure Accounted (first : ℕ) (processed : List Entry) (handed : List (List CommittedSlot))
    (task : ProverTask) : Prop where
  well : HandedWell first processed handed
  vars : ∀ v batch, task.vars? = some (v, batch) → Account first v processed handed

lemma HandedWell.concat (h : HandedWell first processed handed) (e : Entry) :
    HandedWell first (processed ++ [e]) handed where
  batches := h.batches
  ascending := h.ascending
  released := fun batch hbatch c hc => (h.released batch hbatch c hc).concat e

lemma accounted_flush (hwell : HandedWell first processed handed)
    (hnext : v.nextSlot = nextRuled first processed)
    (hawaiting : ∀ slot, v.nextSlot ≤ slot →
      v.awaiting.lookup slot = (lastCommit? slot processed).map SlotCommitted.contents)
    {start : ℕ} (hrun : RunFrom start v.pending) (hle : start + v.pending.length ≤ v.nextSlot)
    (hbelow : ∀ batch ∈ handed, ∀ c ∈ batch, c.slot < start)
    (hreleased : ∀ c ∈ v.pending, Released first processed c) (k : AfterFlush) :
    Accounted first processed (handed ++ (flush v k).inFlight?.toList) (flush v k) := by
  by_cases hp : v.pending = []
  · rw [flush_eq_panicked.mpr hp]
    refine ⟨?_, by simp [ProverTask.vars?]⟩
    show HandedWell first processed (handed ++ [])
    rwa [List.append_nil]
  · rw [flush_of_ne_nil k hp]
    show Accounted first processed (handed ++ [v.pending]) _
    refine ⟨⟨?_, ?_, ?_⟩, ?_⟩
    · intro batch hbatch
      rcases List.mem_append.mp hbatch with hbatch | hbatch
      · exact hwell.batches batch hbatch
      · obtain rfl := List.mem_singleton.mp hbatch
        exact ⟨_, _, hrun.isBatch hp⟩
    · refine List.pairwise_concat.mpr ⟨hwell.ascending, ?_⟩
      intro batch hbatch c hc c' hc'
      exact (hbelow batch hbatch c hc).trans_le (hrun.mem hc').1
    · intro batch hbatch
      rcases List.mem_append.mp hbatch with hbatch | hbatch
      · exact hwell.released batch hbatch
      · obtain rfl := List.mem_singleton.mp hbatch
        exact hreleased
    · rintro v' batch' hv
      obtain ⟨rfl, rfl⟩ := Prod.mk.inj (Option.some.inj hv)
      refine ⟨hnext, hawaiting, ⟨v.nextSlot, RunFrom.nil _, rfl, ?_⟩, by simp⟩
      intro batch hbatch c hc
      rcases List.mem_append.mp hbatch with hbatch | hbatch
      · have hlt := hbelow batch hbatch c hc
        omega
      · obtain rfl := List.mem_singleton.mp hbatch
        have hlt := (hrun.mem hc).2
        omega

lemma Account.flush (h : Account first v processed handed)
    (hwell : HandedWell first processed handed) (k : AfterFlush) :
    Accounted first processed (handed ++ (flush v k).inFlight?.toList) (flush v k) := by
  obtain ⟨start, hrun, hend, hbelow⟩ := h.pending
  exact accounted_flush hwell h.next h.awaiting hrun hend.le hbelow h.released k

lemma Account.running (h : Account first v processed handed)
    (hwell : HandedWell first processed handed) (task : ProverTask) {batch : List Entry}
    (hv : task.vars? = some (v, batch)) (hflight : task.inFlight? = none) :
    Accounted first processed (handed ++ task.inFlight?.toList) task := by
  rw [hflight, Option.toList_none, List.append_nil]
  refine ⟨hwell, fun v' batch' hv' => ?_⟩
  rw [hv] at hv'
  obtain ⟨rfl, -⟩ := Prod.mk.inj (Option.some.inj hv')
  exact h

lemma Account.sizeCheck (h : Account first v processed handed)
    (hwell : HandedWell first processed handed) (batch : List Entry) :
    Accounted first processed (handed ++ (sizeCheck cfg v batch).inFlight?.toList)
      (sizeCheck cfg v batch) := by
  rcases sizeCheck_cases cfg v batch with ⟨-, hcheck⟩ | ⟨-, hcheck⟩
  · rw [hcheck]
    exact h.running hwell (.draining v batch) rfl rfl
  · rw [hcheck]
    exact h.flush hwell _

/-! ### One entry -/

lemma Account.pass (h : Account first v processed handed) {e : Entry}
    (hc : e.committed? = none) (hr : e.ruling? ≠ some v.nextSlot) :
    Account first v (processed ++ [e]) handed where
  next := by rw [nextRuled_concat_of_ne (h.next ▸ hr), h.next]
  awaiting := fun slot hslot => by rw [lastCommit?_concat_of_none hc, h.awaiting slot hslot]
  pending := h.pending
  released := fun c hc => (h.released c hc).concat e

lemma Account.commit (h : Account first v processed handed) (c : SlotCommitted) :
    Account first { v with awaiting := v.awaiting.insert c.slot c.contents }
      (processed ++ [.slotCommitted c]) handed where
  next := by
    rw [nextRuled_concat_of_ne (by simp [Entry.ruling?])]
    exact h.next
  awaiting := fun slot hslot => by
    rw [HashMap.lookup_insert_ite, lastCommit?_concat_commit]
    split_ifs
    · rfl
    · exact h.awaiting slot hslot
  pending := h.pending
  released := fun c' hc' => (h.released c' hc').concat _

/-- The ruling on the next slot, before what becomes of the slot. -/
lemma Account.ruled (h : Account first v processed handed) {e : Entry} {slot : ℕ}
    (hr : e.ruling? = some slot) (hslot : slot = v.nextSlot) :
    v.nextSlot + 1 = nextRuled first (processed ++ [e]) ∧
      ∀ slot', v.nextSlot + 1 ≤ slot' → (v.awaiting.erase slot).lookup slot' =
        (lastCommit? slot' (processed ++ [e])).map SlotCommitted.contents := by
  constructor
  · rw [nextRuled_concat, ← h.next, if_pos (hslot ▸ hr)]
  · intro slot' hle
    rw [HashMap.lookup_erase_ite, if_neg (by omega), h.awaiting slot' (by omega),
      lastCommit?_concat_of_none (Entry.committed?_of_ruling? hr)]

/-- The loop body keeps the account. -/
lemma EntryMove.accounted {e : Entry} {batch : List Entry} {task : ProverTask}
    (hmove : EntryMove cfg v e batch task) (hwell : HandedWell first processed handed)
    (h : Account first v processed handed) :
    Accounted first (processed ++ [e]) (handed ++ task.inFlight?.toList) task := by
  have hwell' := hwell.concat e
  cases hmove with
  | pass _ _ hc hr => exact (h.pass hc (by simp [hr])).sizeCheck hwell' batch
  | commit c => exact (h.commit c).sizeCheck hwell' batch
  | stale _ _ slot hr hlt =>
    have hne : e.ruling? ≠ some v.nextSlot := by
      rw [hr]
      simpa using hlt.ne
    exact (h.pass (Entry.committed?_of_ruling? hr) hne).running hwell' (.draining v batch) rfl rfl
  | gap | missing =>
    refine ⟨?_, by simp [ProverTask.vars?]⟩
    simpa [ProverTask.inFlight?] using hwell'
  | attested a _ s hslot hs =>
    obtain ⟨hnext, hawaiting⟩ := h.ruled (e := .slotAttested a) rfl hslot
    obtain ⟨start, hrun, hend, hbelow⟩ := h.pending
    rw [h.awaiting a.slot hslot.ge] at hs
    -- the contents are kept under the number of their slot
    have hnumber : s.slot = a.slot := by
      obtain ⟨c, hc, rfl⟩ := Option.map_eq_some_iff.mp hs
      exact slot_of_lastCommit? hc
    refine Account.sizeCheck ⟨hnext, hawaiting, ⟨start, hrun.concat ?_, ?_, hbelow⟩, ?_⟩ hwell'
      batch
    · rw [hnumber, hslot, hend]
    · show start + (v.pending ++ [s]).length = v.nextSlot + 1
      rw [List.length_append, List.length_singleton]
      omega
    · intro c hc
      rcases List.mem_append.mp hc with hc | hc
      · exact (h.released c hc).concat _
      · obtain rfl := List.mem_singleton.mp hc
        rw [← hnumber] at hs
        refine ⟨processed, a, ⟨List.prefix_rfl, ?_, ?_⟩, hs⟩
        · rw [hnumber, hslot, h.next]
        · exact congrArg some hnumber.symm
  | failed f _ hslot hp =>
    obtain ⟨hnext, hawaiting⟩ := h.ruled (e := .attestFailed f) rfl hslot
    obtain ⟨start, -, hend, hbelow⟩ := h.pending
    refine Account.sizeCheck ⟨hnext, hawaiting, ⟨v.nextSlot + 1, ?_, ?_, ?_⟩, ?_⟩ hwell' batch
    · show RunFrom _ v.pending
      rw [hp]
      exact RunFrom.nil _
    · show v.nextSlot + 1 + v.pending.length = _
      rw [hp, List.length_nil, add_zero]
    · intro batch' hbatch' c hc
      have hlt := hbelow batch' hbatch' c hc
      omega
    · show ∀ c ∈ v.pending, _
      rw [hp]
      simp
  | failedFlush f _ hslot hp =>
    obtain ⟨hnext, hawaiting⟩ := h.ruled (e := .attestFailed f) rfl hslot
    obtain ⟨start, hrun, hend, hbelow⟩ := h.pending
    -- the batch ends right below the failed slot
    refine accounted_flush
      (v := { v with awaiting := v.awaiting.erase f.slot, nextSlot := v.nextSlot + 1 })
      hwell' hnext hawaiting hrun ?_ hbelow (fun c hc => (h.released c hc).concat _) _
    exact hend.le.trans (Nat.le_succ _)

lemma EntryMove.cursor_eq {e : Entry} {batch : List Entry} {task : ProverTask}
    (hmove : EntryMove cfg v e batch task) {v' : ProverVars} {batch' : List Entry}
    (hv : task.vars? = some (v', batch')) : v'.cursor = v.cursor ∧ batch' = batch := by
  cases hmove with
  | pass | commit | attested | failed =>
    obtain ⟨-, hcursor, -, hbatch⟩ := keepsVars_sizeCheck cfg _ batch v' batch' hv
    exact ⟨hcursor, hbatch⟩
  | failedFlush f =>
    obtain ⟨-, hcursor, -, hbatch⟩ := keepsVars_flush _ (.atSizeCheck batch) v' batch' hv
    exact ⟨hcursor, hbatch⟩
  | stale =>
    obtain ⟨rfl, rfl⟩ := Prod.mk.inj (Option.some.inj hv)
    exact ⟨rfl, rfl⟩
  | gap | missing => simp [ProverTask.vars?] at hv

lemma ne_recovering {task : ProverTask} (h : task.vars? ≠ none ∨ task = .panicked)
    (scanned : Scanned) : task ≠ .recovering scanned := by
  rintro rfl
  simp [ProverTask.vars?] at h

lemma EntryMove.ne_recovering {e : Entry} {batch : List Entry} {task : ProverTask}
    (hmove : EntryMove cfg v e batch task) (scanned : Scanned) : task ≠ .recovering scanned := by
  cases hmove with
  | pass | commit | attested | failed =>
    exact Zequencer.ne_recovering (sizeCheck_running cfg _ batch) scanned
  | failedFlush => exact Zequencer.ne_recovering (flush_running _ _) scanned
  | stale | gap | missing => simp

/-! ### One run -/

/-- The entry a step takes up. -/
def takenUp : ProverEvent → ProverTask → Option Entry
  | .process, .draining _ (entry :: _) => some entry
  | _, _ => none

/-- What a step hands to the backend: what is in flight after it, and was not before. -/
def handedOver (task : ProverTask) (e : ProverEvent) (task' : ProverTask) :
    Option (List CommittedSlot) :=
  match task, e with
  | .proving _ _ _ _ _, .proved _ => task'.inFlight?
  | .proving _ _ _ _ _, _ => none
  | _, _ => task'.inFlight?

/-- The task, with the entries it has taken up and the batches it has handed over. -/
structure ProverSession where
  task : ProverTask
  processed : List Entry
  handed : List (List CommittedSlot)

/-- The prover from where recovery has left it. -/
def proverFrom (cfg : BatchConfig) (cursor nextSlot : ℕ) :
    Stage Entry ProverSession ProverEvent where
  init := ⟨.waiting ⟨∅, [], cursor, nextSlot⟩, [], []⟩
  step log s e :=
    let (task, entry) := proverStep cfg log s.task e
    (⟨task, s.processed ++ (takenUp e s.task).toList,
      s.handed ++ (handedOver s.task e task).toList⟩, entry)

/-- The prover on a log that holds anything, while anything is appended. -/
def proverRun (cfg : BatchConfig) (log : Log) (cursor nextSlot : ℕ)
    (es : List (ProverEvent ⊕ Entry)) : Stage.World Entry (ProverSession × Unit) :=
  ((proverFrom cfg cursor nextSlot).par (Stage.surroundings fun _ _ => True)).runFrom
    ⟨log, (proverFrom cfg cursor nextSlot).init, ()⟩ es

/-- The account of a run that started at `cursor`, and its place in the log. -/
structure SessionInv (cursor nextSlot : ℕ) (log : Log) (s : ProverSession) : Prop where
  accounted : Accounted nextSlot s.processed s.handed s.task
  upTo : s.processed <+: log.drop cursor
  reading : ∀ v batch, s.task.vars? = some (v, batch) →
    s.processed ++ batch <+: log.drop cursor ∧
      v.cursor = cursor + (s.processed ++ batch).length
  recovered : ∀ scanned, s.task ≠ .recovering scanned

section Session

variable {cursor nextSlot : ℕ} {log : Log} {s : ProverSession}

lemma SessionInv.init (cfg : BatchConfig) (cursor nextSlot : ℕ) (log : Log) :
    SessionInv cursor nextSlot log (proverFrom cfg cursor nextSlot).init where
  accounted := by
    refine ⟨⟨by simp [proverFrom], List.Pairwise.nil, by simp [proverFrom]⟩, ?_⟩
    rintro v batch hv
    obtain ⟨rfl, rfl⟩ := Prod.mk.inj (Option.some.inj hv)
    refine ⟨rfl, fun slot _ => ?_, ⟨nextSlot, RunFrom.nil _, rfl, by simp [proverFrom]⟩, by simp⟩
    rfl
  upTo := List.nil_prefix
  reading := by
    rintro v batch hv
    obtain ⟨rfl, rfl⟩ := Prod.mk.inj (Option.some.inj hv)
    exact ⟨List.nil_prefix, rfl⟩
  recovered := by simp [proverFrom]

lemma SessionInv.append (h : SessionInv cursor nextSlot log s) (log' : Log) :
    SessionInv cursor nextSlot (log ++ log') s := by
  have hgrow : log.drop cursor <+: (log ++ log').drop cursor := by
    rw [List.drop_append]
    exact List.prefix_append _ _
  exact ⟨h.accounted, h.upTo.trans hgrow,
    fun v batch hv => ⟨(h.reading v batch hv).1.trans hgrow, (h.reading v batch hv).2⟩,
    h.recovered⟩

lemma SessionInv.still (h : SessionInv cursor nextSlot log s) :
    SessionInv cursor nextSlot log ⟨s.task, s.processed ++ (none : Option Entry).toList,
      s.handed ++ (none : Option (List CommittedSlot)).toList⟩ := by
  rw [Option.toList_none, Option.toList_none, List.append_nil, List.append_nil]
  exact h

lemma SessionInv.crash (h : SessionInv cursor nextSlot log s) :
    SessionInv cursor nextSlot log ⟨.down, s.processed ++ (none : Option Entry).toList,
      s.handed ++ (none : Option (List CommittedSlot)).toList⟩ := by
  have hdown : SessionInv cursor nextSlot log ⟨.down, s.processed, s.handed⟩ :=
    ⟨⟨h.accounted.well, by simp [ProverTask.vars?]⟩, h.upTo, by simp [ProverTask.vars?], by simp⟩
  exact hdown.still

lemma SessionInv.read {v : ProverVars} (h : SessionInv cursor nextSlot log ⟨.waiting v, processed,
    handed⟩) (n : ℕ) :
    SessionInv cursor nextSlot log
      ⟨.draining { v with cursor := v.cursor + ((log.drop v.cursor).take n).length }
        ((log.drop v.cursor).take n), processed, handed⟩ := by
  obtain ⟨-, hcursor⟩ := h.reading v [] rfl
  rw [List.append_nil] at hcursor
  have hdrop : log.drop cursor = processed ++ log.drop v.cursor := by
    obtain ⟨rest, hrest⟩ := h.upTo
    have hrest' : processed ++ rest = log.drop cursor := hrest
    rw [hcursor, ← List.drop_drop, ← hrest', List.drop_left]
  have haccount := h.accounted.vars v [] rfl
  refine ⟨⟨h.accounted.well, ?_⟩, h.upTo, ?_, by simp⟩
  · rintro v' batch' hv
    obtain ⟨rfl, rfl⟩ := Prod.mk.inj (Option.some.inj hv)
    exact ⟨haccount.next, haccount.awaiting, haccount.pending, haccount.released⟩
  · rintro v' batch' hv
    obtain ⟨rfl, rfl⟩ := Prod.mk.inj (Option.some.inj hv)
    constructor
    · rw [hdrop]
      exact (List.prefix_append_right_inj processed).mpr (List.take_prefix _ _)
    · show v.cursor + _ = cursor + (processed ++ _).length
      rw [List.length_append, hcursor, Nat.add_assoc]

/-- A running task takes up the next entry, or none, and goes on at its place. -/
lemma SessionInv.goOn {task task' : ProverTask}
    (h : SessionInv cursor nextSlot log ⟨task, processed, handed⟩) {o : Option Entry}
    {batch : List Entry} (hv : task.vars? = some (v, o.toList ++ batch))
    (haccount : Accounted nextSlot (processed ++ o.toList)
      (handed ++ task'.inFlight?.toList) task')
    (hplace : ∀ v' batch', task'.vars? = some (v', batch') →
      v'.cursor = v.cursor ∧ batch' = batch)
    (hrec : ∀ scanned, task' ≠ .recovering scanned) :
    SessionInv cursor nextSlot log
      ⟨task', processed ++ o.toList, handed ++ task'.inFlight?.toList⟩ := by
  obtain ⟨hread, hcursor⟩ := h.reading v _ hv
  rw [← List.append_assoc] at hread hcursor
  refine ⟨haccount, (List.prefix_append _ _).trans hread, fun v' batch' hv' => ?_, hrec⟩
  obtain ⟨hcursor', rfl⟩ := hplace v' batch' hv'
  exact ⟨hread, hcursor'.trans hcursor⟩

lemma SessionInv.keepOn {task : ProverTask}
    (h : SessionInv cursor nextSlot log ⟨task, processed, handed⟩) (task' : ProverTask)
    {batch : List Entry} (hv : task.vars? = some (v, batch))
    (haccount : Accounted nextSlot processed (handed ++ task'.inFlight?.toList) task')
    (hplace : ∀ v' batch', task'.vars? = some (v', batch') →
      v'.cursor = v.cursor ∧ batch' = batch)
    (hrec : ∀ scanned, task' ≠ .recovering scanned) :
    SessionInv cursor nextSlot log ⟨task', processed ++ (none : Option Entry).toList,
      handed ++ task'.inFlight?.toList⟩ := by
  refine h.goOn (o := none) hv ?_ hplace hrec
  rw [Option.toList_none, List.append_nil]
  exact haccount

lemma KeepsVars.place {task : ProverTask} {batch : List Entry} (h : KeepsVars v batch task)
    (v' : ProverVars) (batch' : List Entry) (hv : task.vars? = some (v', batch')) :
    v'.cursor = v.cursor ∧ batch' = batch := by
  obtain ⟨-, hcursor, -, hbatch⟩ := h v' batch' hv
  exact ⟨hcursor, hbatch⟩

/-- Every step of the run keeps the account. -/
lemma SessionInv.step (h : SessionInv cursor nextSlot log s) {e : ProverEvent} (he : e ≠ .scan) :
    SessionInv cursor nextSlot
      (log ++ ((proverFrom cfg cursor nextSlot).step log s e).2.toList)
      ((proverFrom cfg cursor nextSlot).step log s e).1 := by
  refine SessionInv.append ?_ _
  show SessionInv cursor nextSlot log ⟨(proverStep cfg log s.task e).1, _, _⟩
  obtain ⟨task, processed, handed⟩ := s
  cases e with
  | scan => exact absurd rfl he
  | crash => cases task <;> exact h.crash
  | readHead =>
    cases task with
    | recovering scanned => exact absurd rfl (h.recovered scanned)
    | _ => exact h.still
  | doorbell n =>
    cases task with
    | waiting v =>
      have hread := (h.read n).still
      rw [← cursor_getLast?_readFrom, ← map_snd_readFrom] at hread
      exact hread
    | _ => exact h.still
  | process =>
    cases task with
    | draining v batch =>
      have haccount := h.accounted.vars v batch rfl
      cases batch with
      | nil =>
        exact h.keepOn (.waiting v) rfl (haccount.running h.accounted.well _ rfl rfl)
          (keepsVars_of_vars rfl).place (by simp)
      | cons entry batch =>
        have hmove := processEntry_move cfg v entry batch
        exact h.goOn (o := some entry) rfl
          (hmove.accounted h.accounted.well haccount) (fun _ _ hv => hmove.cursor_eq hv)
          hmove.ne_recovering
    | _ => exact h.still
  | tick =>
    cases task with
    | waiting v =>
      by_cases hp : v.pending = []
      · simp only [proverStep, hp, List.isEmpty_nil, if_true]
        exact h.still
      · have hne : v.pending.isEmpty = false := by simpa using hp
        simp only [proverStep, hne]
        have haccount := h.accounted.vars v [] rfl
        exact h.keepOn _ rfl (haccount.flush h.accounted.well .select)
          (keepsVars_flush v .select).place (ne_recovering (flush_running v .select))
    | _ => exact h.still
  | proved answer =>
    cases task with
    | proving v fromSlot toSlot taken k =>
      have hwell := h.accounted.well
      have haccount := h.accounted.vars v k.batch rfl
      cases k with
      | select =>
        exact h.keepOn (.waiting v) rfl (haccount.running hwell _ rfl rfl)
          (keepsVars_of_vars rfl).place (by simp)
      | atSizeCheck batch =>
        exact h.keepOn _ rfl (haccount.sizeCheck hwell batch)
          (keepsVars_sizeCheck cfg v batch).place (ne_recovering (sizeCheck_running cfg v batch))
      | atNext batch =>
        exact h.keepOn (.draining v batch) rfl (haccount.running hwell _ rfl rfl)
          (keepsVars_of_vars rfl).place (by simp)
    | _ => exact h.still

/-! ### Stopping -/

lemma processEntry_gap {e : Entry} {slot : ℕ} (hr : e.ruling? = some slot) (h : v.nextSlot < slot)
    (batch : List Entry) :
    processEntry cfg v e batch = .stopped (.slotGap v.nextSlot slot) := by
  cases e with
  | slotAttested a =>
    obtain rfl : a.slot = slot := Option.some.inj hr
    dsimp only [processEntry]
    rw [if_neg h.not_gt, if_pos h.ne']
  | attestFailed f =>
    obtain rfl : f.slot = slot := Option.some.inj hr
    dsimp only [processEntry]
    rw [if_neg h.not_gt, if_pos h.ne']
  | _ => simp [Entry.ruling?] at hr

lemma processEntry_missing {a : SlotAttested} (h : a.slot = v.nextSlot)
    (hs : v.awaiting.lookup a.slot = none) (batch : List Entry) :
    processEntry cfg v (.slotAttested a) batch = .stopped (.missingCommit a.slot) := by
  dsimp only [processEntry]
  rw [if_neg h.not_lt, if_neg (not_not.mpr h), hs]

/-- The run is over, with these batches handed over. -/
def Over (handed : List (List CommittedSlot)) (s : ProverSession) : Prop :=
  (s.task = .down ∨ ∃ err, s.task = .stopped err) ∧ s.handed = handed

lemma Over.step (h : Over handed s) {e : ProverEvent} (he : e ≠ .scan) :
    Over handed ((proverFrom cfg cursor nextSlot).step log s e).1 := by
  obtain ⟨task, processed, handed'⟩ := s
  obtain ⟨hend, rfl⟩ := h
  rcases hend with hdown | ⟨err, hstopped⟩
  · obtain rfl : task = .down := hdown
    cases e with
    | scan => exact absurd rfl he
    | _ => exact ⟨Or.inl rfl, List.append_nil _⟩
  · obtain rfl : task = .stopped err := hstopped
    cases e with
    | crash => exact ⟨Or.inl rfl, List.append_nil _⟩
    | _ => exact ⟨Or.inr ⟨err, rfl⟩, List.append_nil _⟩

lemma Over.runFrom {w : Stage.World Entry (ProverSession × Unit)} (h : Over handed w.state.1)
    {es : List (ProverEvent ⊕ Entry)} (hone : .inl .scan ∉ es) :
    Over handed (((proverFrom cfg cursor nextSlot).par
      (Stage.surroundings fun _ _ => True)).runFrom w es).state.1 := by
  refine Stage.runFrom_induction _
    (P := fun w : Stage.World Entry (ProverSession × Unit) => Over handed w.state.1) h ?_
  rintro w (e | x) he hw
  · show Over handed ((proverFrom cfg cursor nextSlot).step w.log w.state.1 e).1
    exact hw.step fun hscan => hone (hscan ▸ he)
  · exact hw

lemma proverRun_append (cfg : BatchConfig) (log : Log) (cursor nextSlot : ℕ)
    (es es' : List (ProverEvent ⊕ Entry)) :
    proverRun cfg log cursor nextSlot (es ++ es') =
      ((proverFrom cfg cursor nextSlot).par (Stage.surroundings fun _ _ => True)).runFrom
        (proverRun cfg log cursor nextSlot es) es' :=
  Stage.runFrom_append _ _ es es'

/-- An entry that stops the task is the last one taken up, and no batch follows. -/
lemma stops_of_processEntry {es es' : List (ProverEvent ⊕ Entry)} {e : Entry}
    {batch : List Entry} {err : ProveError}
    (htask : (proverRun cfg log cursor nextSlot es).state.1.task = .draining v (e :: batch))
    (hstop : processEntry cfg v e batch = .stopped err) (hone : .inl .scan ∉ es') :
    (proverRun cfg log cursor nextSlot (es ++ [.inl .process])).state.1.task = .stopped err ∧
      (proverRun cfg log cursor nextSlot (es ++ .inl .process :: es')).state.1.handed =
        (proverRun cfg log cursor nextSlot es).state.1.handed := by
  rw [proverRun_append, proverRun_append, Stage.runFrom_cons, Stage.runFrom_cons,
    Stage.runFrom_nil]
  generalize proverRun cfg log cursor nextSlot es = w at htask ⊢
  obtain ⟨log', ⟨task, processed, handed⟩, u⟩ := w
  obtain rfl : task = .draining v (e :: batch) := htask
  refine ⟨hstop, ?_⟩
  refine (Over.runFrom ⟨Or.inr ⟨err, hstop⟩, ?_⟩ hone).2
  show handed ++ (handedOver _ _ (processEntry cfg v e batch)).toList = handed
  rw [hstop]
  exact List.append_nil handed

/-! ### Every run -/

/-- The run lemma: the account holds after every schedule within one run. -/
lemma sessionInv_run (cfg : BatchConfig) (log : Log) (cursor nextSlot : ℕ)
    {es : List (ProverEvent ⊕ Entry)} (hone : .inl .scan ∉ es) :
    SessionInv cursor nextSlot (proverRun cfg log cursor nextSlot es).log
      (proverRun cfg log cursor nextSlot es).state.1 := by
  refine Stage.runFrom_induction _
    (P := fun w : Stage.World Entry (ProverSession × Unit) =>
      SessionInv cursor nextSlot w.log w.state.1)
    (SessionInv.init cfg cursor nextSlot log) ?_
  rintro w (e | x) he hw
  · exact hw.step fun h => hone (h ▸ he)
  · exact hw.append _

end Session

/-- **The prover is sound on any log.**  Whatever the log says and whatever is appended
meanwhile, from any cursor and next slot, with any batch size, timer ticks, reads and answers
of the backend, in one run: every batch handed to the backend is a range of slots, none left
out, above all slots handed over before; each slot has the contents that were committed for
it last before the ruling that took the next slot past it, and that ruling, the only one, is
an attestation.  The next slot counts the rulings followed from the log, and fits its type.
A ruling above the next slot, or an attestation of it whose contents were never processed,
stops the task, and no batch follows. -/
theorem prover_sound (cfg : BatchConfig) (log : Log) (cursor nextSlot : ℕ)
    (es : List (ProverEvent ⊕ Entry)) (hone : .inl .scan ∉ es) :
    let session := fun es => (proverRun cfg log cursor nextSlot es).state.1
    let s := session es
    s.processed <+: List.drop cursor (proverRun cfg log cursor nextSlot es).log ∧
      (∀ v batch, s.task.vars? = some (v, batch) →
        v.nextSlot = nextRuled nextSlot s.processed) ∧
      (nextSlot < 2 ^ 64 → (∀ e ∈ s.processed, ∀ slot ∈ e.ruling?, slot < 2 ^ 64 - 1) →
        nextRuled nextSlot s.processed < 2 ^ 64) ∧
      (∀ batch ∈ s.handed, ∃ fromSlot toSlot, IsBatch fromSlot toSlot batch) ∧
      (s.handed.Pairwise fun batch batch' => ∀ c ∈ batch, ∀ c' ∈ batch', c.slot < c'.slot) ∧
      (∀ batch ∈ s.handed, ∀ c ∈ batch, ∃ pre a,
        TakesPast nextSlot s.processed c.slot pre (.slotAttested a) ∧
          (∀ pre' e, TakesPast nextSlot s.processed c.slot pre' e →
            pre' = pre ∧ e = .slotAttested a) ∧
          (lastCommit? c.slot pre).map SlotCommitted.contents = some c) ∧
      ∀ es₁ es₂, es = es₁ ++ .inl .process :: es₂ → ∀ v e batch,
        (session es₁).task = .draining v (e :: batch) →
          (∀ slot, e.ruling? = some slot → nextRuled nextSlot (session es₁).processed < slot →
            (session (es₁ ++ [.inl .process])).task =
                .stopped (.slotGap (nextRuled nextSlot (session es₁).processed) slot) ∧
              s.handed = (session es₁).handed) ∧
            ∀ a, e = .slotAttested a → a.slot = nextRuled nextSlot (session es₁).processed →
              (∀ c ∈ Log.commits (session es₁).processed, c.slot ≠ a.slot) →
              (session (es₁ ++ [.inl .process])).task = .stopped (.missingCommit a.slot) ∧
                s.handed = (session es₁).handed := by
  intro session s
  have hinv := sessionInv_run cfg log cursor nextSlot hone
  have hwell : HandedWell nextSlot s.processed s.handed := hinv.accounted.well
  refine ⟨hinv.upTo, fun v batch hv => (hinv.accounted.vars v batch hv).next, ?_, hwell.batches,
    hwell.ascending, ?_, ?_⟩
  · intro hfirst hslots
    refine nextRuled_lt hfirst fun e he slot hslot => ?_
    have hlt := hslots e he slot hslot
    omega
  · intro batch hbatch c hc
    obtain ⟨pre, a, htakes, hlast⟩ := hwell.released batch hbatch c hc
    exact ⟨pre, a, htakes, fun pre' e h => h.eq htakes, hlast⟩
  · rintro es₁ es₂ rfl v e batch htask
    have hone₁ : Sum.inl ProverEvent.scan ∉ es₁ := fun h => hone (List.mem_append_left _ h)
    have hone₂ : Sum.inl ProverEvent.scan ∉ es₂ := fun h =>
      hone (List.mem_append_right _ (List.mem_cons_of_mem _ h))
    have haccount := (sessionInv_run cfg log cursor nextSlot hone₁).accounted.vars v (e :: batch)
      (by rw [htask]; rfl)
    refine ⟨fun slot hr hgap => ?_, ?_⟩
    · rw [← haccount.next] at hgap ⊢
      exact stops_of_processEntry htask (processEntry_gap hr hgap batch) hone₂
    · rintro a rfl hslot hnever
      rw [← haccount.next] at hslot
      refine stops_of_processEntry htask (processEntry_missing hslot ?_ batch) hone₂
      rw [haccount.awaiting a.slot hslot.ge, lastCommit?_eq_none hnever]
      rfl

/-- Slots 0 and 2 are attested, slot 1 fails between them, slot 2 is committed twice, and slot
4 is attested before slot 3. -/
def contradictoryLog : Log :=
  [.slotCommitted ⟨0, [], 0, @commit fixtureKeccak 0 [], testNow⟩,
    .slotCommitted ⟨2, [], 0, @commit fixtureKeccak 1 [], testNow⟩,
    .slotCommitted ⟨2, [], 0, @commit fixtureKeccak 2 [], testNow⟩,
    .slotAttested ⟨0, [], ⟨Bytes.ofNat 32 1⟩⟩, .attestFailed ⟨1, "enclave unavailable"⟩,
    .attestFailed ⟨1, "commitment mismatch"⟩, .slotAttested ⟨2, [], ⟨Bytes.ofNat 32 1⟩⟩,
    .slotAttested ⟨4, [], ⟨Bytes.ofNat 32 1⟩⟩]

/-- The failed slot closes the first batch and the timer the second, and slot 4 is next. -/
def upToTheGap : List (ProverEvent ⊕ Entry) :=
  [.inl (.doorbell 7), .inl .process, .inl .process, .inl .process, .inl .process, .inl .process,
    .inl (.proved (.error (.backend "out of memory"))), .inl .process, .inl .process,
    .inl .process, .inl .tick, .inl (.proved (.error (.backend "out of memory"))),
    .inl (.doorbell 3)]

theorem prover_sound_contradictoryLog :
    let s := (proverRun ⟨10, ⟨5, 0⟩⟩ contradictoryLog 0 0 (upToTheGap ++ [.inl .process])).state.1
    s.handed.map (List.map CommittedSlot.slot) = [[0], [2]] ∧
      (s.handed.Pairwise fun batch batch' => ∀ c ∈ batch, ∀ c' ∈ batch', c.slot < c'.slot) ∧
      s.task = .stopped (.slotGap 3 4) := by
  intro s
  have hsound := prover_sound ⟨10, ⟨5, 0⟩⟩ contradictoryLog 0 0 (upToTheGap ++ [.inl .process])
    (by simp [upToTheGap])
  obtain ⟨-, -, -, -, hascending, -, hstops⟩ := hsound
  refine ⟨by decide +kernel, hascending, ?_⟩
  obtain ⟨v, batch, htask⟩ : ∃ v batch,
      (proverRun ⟨10, ⟨5, 0⟩⟩ contradictoryLog 0 0 upToTheGap).state.1.task =
        .draining v (.slotAttested ⟨4, [], ⟨Bytes.ofNat 32 1⟩⟩ :: batch) := ⟨_, _, rfl⟩
  exact ((hstops upToTheGap [] rfl v _ batch htask).1 4 rfl (by decide +kernel)).1

end Zequencer
