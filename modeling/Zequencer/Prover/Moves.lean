/-
# What the prover can do

The moves of the prover, and what holds of them whatever the schedule: everything it keeps
comes from the log, so the ranges it settles end in committed slots.
-/
import Zequencer.Attester.Rulings
import Zequencer.Source.Prove

namespace Zequencer

variable {cfg : BatchConfig} {log : Log}

/-! ### Flushing -/

lemma flush_eq_panicked {v : ProverVars} {k : AfterFlush} :
    flush v k = .panicked ↔ v.pending = [] := by
  unfold flush
  cases hp : v.pending with
  | nil => simp
  | cons s rest => cases hl : (s :: rest).getLast? <;> simp_all

lemma flush_of_ne_nil {v : ProverVars} (k : AfterFlush) (h : v.pending ≠ []) :
    flush v k = .proving { v with pending := [] } (v.pending.head h).slot
      (v.pending.getLast h).slot v.pending k := by
  unfold flush
  rw [List.head?_eq_some_head h, List.getLast?_eq_some_getLast h]

lemma sizeCheck_cases (cfg : BatchConfig) (v : ProverVars) (batch : List Entry) :
    (v.pending.length < cfg.batchSize ∧ sizeCheck cfg v batch = .draining v batch) ∨
      (cfg.batchSize ≤ v.pending.length ∧ sizeCheck cfg v batch = flush v (.atNext batch)) := by
  unfold sizeCheck
  by_cases h : cfg.batchSize ≤ v.pending.length
  · exact Or.inr ⟨h, if_pos h⟩
  · exact Or.inl ⟨not_le.mp h, if_neg h⟩

/-! ### One entry -/

/-- What the loop body does with an entry. -/
inductive EntryMove (cfg : BatchConfig) (v : ProverVars) : Entry → List Entry → ProverTask → Prop
  | pass (e) (batch) (hc : e.committed? = none) (hr : e.ruling? = none) :
      EntryMove cfg v e batch (sizeCheck cfg v batch)
  | commit (c : SlotCommitted) (batch) :
      EntryMove cfg v (.slotCommitted c) batch
        (sizeCheck cfg { v with awaiting := v.awaiting.insert c.slot c.contents } batch)
  | stale (e) (batch) (slot : ℕ) (hr : e.ruling? = some slot) (h : slot < v.nextSlot) :
      EntryMove cfg v e batch (.draining v batch)
  | gap (e) (batch) (slot : ℕ) (hr : e.ruling? = some slot) (h : v.nextSlot < slot) :
      EntryMove cfg v e batch (.stopped (.slotGap v.nextSlot slot))
  | missing (a : SlotAttested) (batch) (h : a.slot = v.nextSlot)
      (hs : v.awaiting.lookup a.slot = none) :
      EntryMove cfg v (.slotAttested a) batch (.stopped (.missingCommit a.slot))
  | attested (a : SlotAttested) (batch) (s : CommittedSlot) (h : a.slot = v.nextSlot)
      (hs : v.awaiting.lookup a.slot = some s) :
      EntryMove cfg v (.slotAttested a) batch (sizeCheck cfg
        { v with
          awaiting := v.awaiting.erase a.slot
          pending := v.pending ++ [s]
          nextSlot := v.nextSlot + 1 } batch)
  | failed (f : AttestFailed) (batch) (h : f.slot = v.nextSlot) (hp : v.pending = []) :
      EntryMove cfg v (.attestFailed f) batch (sizeCheck cfg
        { v with awaiting := v.awaiting.erase f.slot, nextSlot := v.nextSlot + 1 } batch)
  | failedFlush (f : AttestFailed) (batch) (h : f.slot = v.nextSlot) (hp : v.pending ≠ []) :
      EntryMove cfg v (.attestFailed f) batch
        (flush { v with awaiting := v.awaiting.erase f.slot, nextSlot := v.nextSlot + 1 }
          (.atSizeCheck batch))

lemma processEntry_move (cfg : BatchConfig) (v : ProverVars) (e : Entry) (batch : List Entry) :
    EntryMove cfg v e batch (processEntry cfg v e batch) := by
  cases e with
  | slotCommitted c => exact .commit c batch
  | slotAttested a =>
    dsimp only [processEntry]
    rcases lt_trichotomy a.slot v.nextSlot with h | h | h
    · rw [if_pos h]
      exact .stale _ batch a.slot rfl h
    · rw [if_neg h.not_lt, if_neg (not_not.mpr h)]
      cases hs : v.awaiting.lookup a.slot with
      | none => exact .missing a batch h hs
      | some s => exact .attested a batch s h hs
    · rw [if_neg h.not_gt, if_pos h.ne']
      exact .gap _ batch a.slot rfl h
  | attestFailed f =>
    dsimp only [processEntry]
    rcases lt_trichotomy f.slot v.nextSlot with h | h | h
    · rw [if_pos h]
      exact .stale _ batch f.slot rfl h
    · rw [if_neg h.not_lt, if_neg (not_not.mpr h)]
      by_cases hp : v.pending = []
      · rw [if_pos (List.isEmpty_iff.mpr hp)]
        exact .failed f batch h hp
      · rw [if_neg (mt List.isEmpty_iff.mp hp)]
        exact .failedFlush f batch h hp
    · rw [if_neg h.not_gt, if_pos h.ne']
      exact .gap _ batch f.slot rfl h
  | _ => exact .pass _ batch rfl rfl

/-! ### One step -/

/-- The moves of the task: what a step does, and when. -/
inductive ProverMove (cfg : BatchConfig) (log : Log) :
    ProverTask → ProverEvent → ProverTask → Option Entry → Prop
  | idle (task) (e) : ProverMove cfg log task e task none
  | stop (task) (e) : e = .crash → ProverMove cfg log task e .down none
  | scan : ProverMove cfg log .down .scan (.recovering (proverScan log)) none
  | readHead (scanned : Scanned) (htimer : cfg.flushAfter ≠ .ZERO) :
      ProverMove cfg log (.recovering scanned) .readHead
        (.waiting ⟨∅, [], (recoverProver scanned log.head).1, scanned.nextSlot⟩) none
  | timer (scanned : Scanned) (h : cfg.flushAfter = .ZERO) :
      ProverMove cfg log (.recovering scanned) .readHead .timerPanicked none
  | read (v : ProverVars) (n : ℕ) :
      ProverMove cfg log (.waiting v) (.doorbell n)
        (.draining { v with cursor := v.cursor + ((log.drop v.cursor).take n).length }
          ((log.drop v.cursor).take n)) none
  | drained (v : ProverVars) : ProverMove cfg log (.draining v []) .process (.waiting v) none
  | entry (v : ProverVars) (entry : Entry) (batch : List Entry) (task : ProverTask)
      (h : EntryMove cfg v entry batch task) :
      ProverMove cfg log (.draining v (entry :: batch)) .process task none
  | tick (v : ProverVars) (h : v.pending ≠ []) :
      ProverMove cfg log (.waiting v) .tick (flush v .select) none
  | proved (v : ProverVars) (fromSlot toSlot : ℕ) (taken : List CommittedSlot) (k : AfterFlush)
      (answer : Except ProveFailure ProofHandle) :
      ProverMove cfg log (.proving v fromSlot toSlot taken k) (.proved answer) (k.resume cfg v)
        (some (outcome fromSlot toSlot answer))

lemma cursor_getLast?_readFrom (log : Log) (cursor n : ℕ) :
    ((((log.readFrom cursor).take n).getLast?.map fun e => e.1 + 1).getD cursor) =
      cursor + ((log.drop cursor).take n).length := by
  induction n generalizing cursor with
  | zero => simp
  | succ n ih =>
    cases he : log[cursor]? with
    | none =>
      have hle : log.length ≤ cursor := by simpa using he
      simp [Log.readFrom_eq_nil hle, List.drop_eq_nil_of_le hle]
    | some e =>
      obtain ⟨hlt, hget⟩ := List.getElem?_eq_some_iff.mp he
      rw [Log.readFrom_eq_cons he, List.take_succ_cons, List.drop_eq_getElem_cons hlt,
        List.take_succ_cons, List.length_cons, List.getLast?_cons, Option.map_some,
        Option.getD_some]
      have hrest := ih (cursor + 1)
      cases hl : ((log.readFrom (cursor + 1)).take n).getLast? with
      | none =>
        rw [hl, Option.map_none, Option.getD_none] at hrest
        rw [Option.getD_none]
        show cursor + 1 = _
        omega
      | some last =>
        rw [hl, Option.map_some, Option.getD_some] at hrest
        rw [Option.getD_some]
        omega

lemma map_snd_readFrom (log : Log) (cursor n : ℕ) :
    ((log.readFrom cursor).take n).map Prod.snd = (log.drop cursor).take n := by
  rw [Log.map_take_readFrom, Log.window, List.drop_take, Nat.add_sub_cancel_left]

lemma proverStep_move (cfg : BatchConfig) (log : Log) (task : ProverTask) (e : ProverEvent) :
    ProverMove cfg log task e (proverStep cfg log task e).1 (proverStep cfg log task e).2 := by
  cases e with
  | crash => cases task <;> exact .stop _ _ rfl
  | scan =>
    cases task with
    | down => exact .scan
    | _ => exact .idle _ _
  | readHead =>
    cases task with
    | recovering scanned =>
      by_cases htimer : cfg.flushAfter = .ZERO
      · simp only [proverStep, if_pos htimer]
        exact .timer scanned htimer
      · simp only [proverStep, if_neg htimer]
        exact .readHead scanned htimer
    | _ => exact .idle _ _
  | doorbell n =>
    cases task with
    | waiting v =>
      have hmove : ProverMove cfg log (.waiting v) (.doorbell n) _ none := .read v n
      rw [← cursor_getLast?_readFrom, ← map_snd_readFrom] at hmove
      exact hmove
    | _ => exact .idle _ _
  | process =>
    cases task with
    | draining v batch =>
      cases batch with
      | nil => exact .drained v
      | cons entry batch => exact .entry v entry batch _ (processEntry_move cfg v entry batch)
    | _ => exact .idle _ _
  | tick =>
    cases task with
    | waiting v =>
      by_cases hp : v.pending = []
      · simp only [proverStep, hp, List.isEmpty_nil, if_true]
        exact .idle _ _
      · have hne : v.pending.isEmpty = false := by simpa using hp
        simp only [proverStep, hne]
        exact .tick v hp
    | _ => exact .idle _ _
  | proved answer =>
    cases task with
    | proving v fromSlot toSlot taken k => exact .proved v fromSlot toSlot taken k answer
    | _ => exact .idle _ _

/-! ### The running task -/

/-- The entries still to process after a flush. -/
def AfterFlush.batch : AfterFlush → List Entry
  | .select => []
  | .atSizeCheck batch => batch
  | .atNext batch => batch

/-- The private data of a running task, with the entries read and not processed yet. -/
def ProverTask.vars? : ProverTask → Option (ProverVars × List Entry)
  | .waiting v => some (v, [])
  | .draining v batch => some (v, batch)
  | .proving v _ _ _ k => some (v, k.batch)
  | _ => none

/-- How far a running task has processed the log. -/
def ProverVars.processed (v : ProverVars) (batch : List Entry) : ℕ := v.cursor - batch.length

/-- `task` holds what `v` does, what is pending and in flight apart. -/
def KeepsVars (v : ProverVars) (batch : List Entry) (task : ProverTask) : Prop :=
  ∀ v' batch', task.vars? = some (v', batch') →
    v'.awaiting = v.awaiting ∧ v'.cursor = v.cursor ∧ v'.nextSlot = v.nextSlot ∧ batch' = batch

lemma keepsVars_of_vars {v : ProverVars} {batch : List Entry} {task : ProverTask}
    (h : task.vars? = some (v, batch)) : KeepsVars v batch task := by
  intro v' batch' h'
  obtain ⟨rfl, rfl⟩ := Prod.mk.inj (Option.some.inj (h.symm.trans h'))
  exact ⟨rfl, rfl, rfl, rfl⟩

lemma keepsVars_flush (v : ProverVars) (k : AfterFlush) : KeepsVars v k.batch (flush v k) := by
  intro v' batch' h
  by_cases hp : v.pending = []
  · rw [flush_eq_panicked.mpr hp] at h
    simp [ProverTask.vars?] at h
  · rw [flush_of_ne_nil k hp] at h
    obtain ⟨rfl, rfl⟩ := Prod.mk.inj (Option.some.inj h)
    exact ⟨rfl, rfl, rfl, rfl⟩

lemma keepsVars_sizeCheck (cfg : BatchConfig) (v : ProverVars) (batch : List Entry) :
    KeepsVars v batch (sizeCheck cfg v batch) := by
  rcases sizeCheck_cases cfg v batch with ⟨-, h⟩ | ⟨-, h⟩
  · rw [h]
    exact keepsVars_of_vars rfl
  · rw [h]
    exact keepsVars_flush v (.atNext batch)

/-! ### Whatever the schedule -/

/-- The contents of a slot of the log. -/
def Committed (log : Log) (s : CommittedSlot) : Prop := ∃ c ∈ log.commits, c.contents = s

/-- Everything the running task holds comes from the log. -/
structure HeldFromLog (log : Log) (v : ProverVars) (batch : List Entry) : Prop where
  batch : ∀ e ∈ batch, e ∈ log
  awaiting : ∀ slot s, v.awaiting.lookup slot = some s → Committed log s
  pending : ∀ s ∈ v.pending, Committed log s

/-- What the task holds, and the end of the range it is proving, come from the log. -/
def ProverReads (log : Log) : ProverTask → Prop
  | .waiting v => HeldFromLog log v []
  | .draining v batch => HeldFromLog log v batch
  | .proving v _ toSlot _ k => HeldFromLog log v k.batch ∧ ∃ c ∈ log.commits, c.slot = toSlot
  | _ => True

/-- Every range that was settled ends in a committed slot. -/
def SettledCommitted (log : Log) : Prop :=
  ∀ slot ∈ log.filterMap Entry.settledTo?, ∃ c ∈ log.commits, c.slot = slot

/-- What the prover writes: outcomes whose range ends in a committed slot. -/
def ProverWrites (log : Log) (e : Entry) : Prop :=
  ∃ fromSlot toSlot answer, e = outcome fromSlot toSlot answer ∧
    ∃ c ∈ log.commits, c.slot = toSlot

lemma Committed.append {s : CommittedSlot} (h : Committed log s) (log' : Log) :
    Committed (log ++ log') s := by
  obtain ⟨c, hc, hs⟩ := h
  exact ⟨c, Log.mem_commits_append_left hc log', hs⟩

lemma HeldFromLog.append {v : ProverVars} {batch : List Entry} (h : HeldFromLog log v batch)
    (log' : Log) : HeldFromLog (log ++ log') v batch where
  batch := fun e he => List.mem_append_left _ (h.batch e he)
  awaiting := fun slot s hs => (h.awaiting slot s hs).append log'
  pending := fun s hs => (h.pending s hs).append log'

lemma ProverReads.append {task : ProverTask} (h : ProverReads log task) (log' : Log) :
    ProverReads (log ++ log') task := by
  cases task with
  | waiting v => exact HeldFromLog.append h log'
  | draining v batch => exact HeldFromLog.append h log'
  | proving v fromSlot toSlot taken k =>
    obtain ⟨hheld, c, hc, hslot⟩ := h
    exact ⟨hheld.append log', c, Log.mem_commits_append_left hc log', hslot⟩
  | _ => trivial

lemma HeldFromLog.flush {v : ProverVars} {k : AfterFlush} (h : HeldFromLog log v k.batch) :
    ProverReads log (flush v k) := by
  by_cases hp : v.pending = []
  · rw [flush_eq_panicked.mpr hp]
    trivial
  · rw [flush_of_ne_nil k hp]
    obtain ⟨c, hc, hcontents⟩ := h.pending _ (List.getLast_mem hp)
    refine ⟨⟨h.batch, h.awaiting, by simp⟩, c, hc, ?_⟩
    rw [← hcontents]
    rfl

lemma HeldFromLog.sizeCheck {v : ProverVars} {batch : List Entry}
    (h : HeldFromLog log v batch) : ProverReads log (sizeCheck cfg v batch) := by
  rcases sizeCheck_cases cfg v batch with ⟨-, hcheck⟩ | ⟨-, hcheck⟩
  · rw [hcheck]
    exact h
  · rw [hcheck]
    exact HeldFromLog.flush (k := .atNext batch) h

lemma EntryMove.reads {v : ProverVars} {e : Entry} {batch : List Entry} {task : ProverTask}
    (hmove : EntryMove cfg v e batch task) (h : HeldFromLog log v (e :: batch)) :
    ProverReads log task := by
  have hbatch : ∀ e ∈ batch, e ∈ log := fun e he => h.batch e (List.mem_cons_of_mem _ he)
  have herase : ∀ slot slot' s, (v.awaiting.erase slot).lookup slot' = some s →
      Committed log s := by
    intro slot slot' s hs
    rw [HashMap.lookup_erase_ite] at hs
    split_ifs at hs
    exact h.awaiting slot' s hs
  cases hmove with
  | pass => exact HeldFromLog.sizeCheck ⟨hbatch, h.awaiting, h.pending⟩
  | commit c =>
    refine HeldFromLog.sizeCheck ⟨hbatch, fun slot s hs => ?_, h.pending⟩
    rw [HashMap.lookup_insert_ite] at hs
    split_ifs at hs
    · exact ⟨c, Log.mem_commits.mpr (h.batch _ List.mem_cons_self), Option.some.inj hs⟩
    · exact h.awaiting slot s hs
  | stale => exact ⟨hbatch, h.awaiting, h.pending⟩
  | gap | missing => trivial
  | attested a _ s _ hs =>
    refine HeldFromLog.sizeCheck ⟨hbatch, fun slot s' hs' => herase _ slot s' hs', ?_⟩
    intro s' hs'
    rcases List.mem_append.mp hs' with hs' | hs'
    · exact h.pending s' hs'
    · obtain rfl := List.mem_singleton.mp hs'
      exact h.awaiting _ _ hs
  | failed =>
    exact HeldFromLog.sizeCheck ⟨hbatch, fun slot s' hs' => herase _ slot s' hs', h.pending⟩
  | failedFlush f =>
    exact HeldFromLog.flush (k := .atSizeCheck batch)
      ⟨hbatch, fun slot s' hs' => herase _ slot s' hs', h.pending⟩

lemma ProverMove.reads {task task' : ProverTask} {e : ProverEvent} {o : Option Entry}
    (hmove : ProverMove cfg log task e task' o) (h : ProverReads log task) :
    ProverReads (log ++ o.toList) task' := by
  refine ProverReads.append ?_ _
  cases hmove with
  | idle => exact h
  | stop | scan | timer => trivial
  | readHead => exact ⟨by simp, by simp, by simp⟩
  | read v n =>
    exact ⟨fun e he => List.mem_of_mem_drop (List.mem_of_mem_take he), h.awaiting, h.pending⟩
  | drained => exact h
  | entry v entry batch task hentry => exact hentry.reads h
  | tick => exact HeldFromLog.flush (k := .select) h
  | proved v fromSlot toSlot taken k answer =>
    cases k with
    | select => exact h.1
    | atSizeCheck batch => exact HeldFromLog.sizeCheck h.1
    | atNext batch => exact h.1

lemma outcome_settledTo? (fromSlot toSlot : ℕ) (answer : Except ProveFailure ProofHandle) :
    (outcome fromSlot toSlot answer).settledTo? = some toSlot := by
  cases answer <;> rfl

lemma outcome_committed? (fromSlot toSlot : ℕ) (answer : Except ProveFailure ProofHandle) :
    (outcome fromSlot toSlot answer).committed? = none := by
  cases answer <;> rfl

lemma outcome_ruling? (fromSlot toSlot : ℕ) (answer : Except ProveFailure ProofHandle) :
    (outcome fromSlot toSlot answer).ruling? = none := by
  cases answer <;> rfl

lemma ProverMove.writes {task task' : ProverTask} {e : ProverEvent} {x : Entry}
    (hmove : ProverMove cfg log task e task' (some x)) (h : ProverReads log task) :
    ProverWrites log x := by
  cases hmove with
  | proved v fromSlot toSlot taken k answer => exact ⟨fromSlot, toSlot, answer, rfl, h.2⟩

lemma SettledCommitted.append_of_none {e : Entry} (h : SettledCommitted log)
    (he : e.settledTo? = none) : SettledCommitted (log ++ [e]) := by
  intro slot hslot
  rw [List.filterMap_append, List.filterMap_cons_none he, List.filterMap_nil,
    List.append_nil] at hslot
  obtain ⟨c, hc, hcslot⟩ := h slot hslot
  exact ⟨c, Log.mem_commits_append_left hc _, hcslot⟩

lemma SettledCommitted.append_of_some {e : Entry} {toSlot : ℕ} (h : SettledCommitted log)
    (he : e.settledTo? = some toSlot) (hc : ∃ c ∈ log.commits, c.slot = toSlot) :
    SettledCommitted (log ++ [e]) := by
  intro slot hslot
  rw [List.filterMap_append, List.filterMap_cons_some he, List.filterMap_nil,
    List.mem_append, List.mem_singleton] at hslot
  rcases hslot with hslot | rfl
  · obtain ⟨c, hc, hcslot⟩ := h slot hslot
    exact ⟨c, Log.mem_commits_append_left hc _, hcslot⟩
  · obtain ⟨c, hc, hcslot⟩ := hc
    exact ⟨c, Log.mem_commits_append_left hc _, hcslot⟩

/-- Beside stages that number their slots and settle none, whatever the prover keeps and
writes comes from the log. -/
lemma prover_upholds (cfg : BatchConfig) :
    (prover cfg).Upholds (fun log e => CommitsNext log e ∧ e.settledTo? = none) ProverWrites
      (fun log task => Log.Numbered log ∧ SettledCommitted log ∧ ProverReads log task) where
  init := ⟨Log.Numbered.nil, by simp [SettledCommitted], trivial⟩
  own := by
    rintro log task e ⟨hnum, hsettled, hreads⟩
    have hmove := proverStep_move cfg log task e
    have hreads' := hmove.reads hreads
    have hlog : ∀ o, (proverStep cfg log task e).2 = o →
        Log.Numbered (log ++ o.toList) ∧ SettledCommitted (log ++ o.toList) := by
      rintro (_ | x) hx
      · simpa using ⟨hnum, hsettled⟩
      · rw [hx] at hmove
        obtain ⟨fromSlot, toSlot, answer, rfl, hc⟩ := hmove.writes hreads
        exact ⟨hnum.append_of_none (outcome_committed? fromSlot toSlot answer),
          hsettled.append_of_some (outcome_settledTo? fromSlot toSlot answer) hc⟩
    exact ⟨(hlog _ rfl).1, (hlog _ rfl).2, hreads'⟩
  emits := by
    rintro log task e x ⟨-, -, hreads⟩ hx
    have hmove := proverStep_move cfg log task e
    rw [show (proverStep cfg log task e).2 = some x from hx] at hmove
    exact hmove.writes hreads
  rely := by
    rintro log task x ⟨hnum, hsettled, hreads⟩ ⟨hcommit, hnone⟩
    exact ⟨hnum.append hcommit, hsettled.append_of_none hnone, hreads.append [x]⟩

end Zequencer
