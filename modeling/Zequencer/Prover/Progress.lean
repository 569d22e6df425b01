/-
# The prover gets to every attested slot

A prover that is not stopped, recovers on a log that nobody is writing and gets its turns comes
up, reads every entry in the end, and settles every attested slot: what is queued is flushed by
the timer at the latest.
-/
import Zequencer.Lib.Endless
import Zequencer.Prover.Ranges

namespace Zequencer

/-- What the prover can be about to do. -/
inductive ProverTurn where
  | scan
  | readHead
  | doorbell
  | process
  | tick
  | proved
deriving DecidableEq

/-- The task gets its turn; the turn of the doorbell is due where there is something to read,
the turn of the timer where something is pending. -/
def proverTurn : ProverTurn → Log → ProverTask → ProverEvent → Prop
  | .scan, _, .down, .scan => True
  | .readHead, _, .recovering _, .readHead => True
  | .doorbell, log, .waiting v, .doorbell n => v.cursor < log.length ∧ 0 < n
  | .process, _, .draining .., .process => True
  | .tick, _, .waiting v, .tick => v.pending ≠ []
  | .proved, _, .proving .., .proved _ => True
  | _, _, _, _ => False

/-- The task runs, and has processed the log up to a position. -/
def ProverTask.Reaches (c : ℕ) (task : ProverTask) : Prop :=
  ∃ v batch, task.vars? = some (v, batch) ∧ c ≤ v.processed batch

/-- The entries a task has still to process before it waits. -/
def ProverTask.toProcess : ProverTask → ℕ
  | .draining _ batch => batch.length
  | _ => 0

section Step

variable {cfg : BatchConfig} {log : Log} {c : ℕ} {v : ProverVars} {batch : List Entry}
  {task task' : ProverTask} {e : ProverEvent} {o : Option Entry}

lemma ProverQueues.running (h : ProverQueues cfg log task)
    (hrun : task.vars? ≠ none ∨ task = .panicked) : task.vars? ≠ none := by
  rcases hrun with hrun | rfl
  · exact hrun
  · exact h.elim

lemma KeepsVars.reaches (hkeep : KeepsVars v batch task) (hrun : task.vars? ≠ none)
    (hc : c ≤ v.processed batch) : task.Reaches c := by
  obtain ⟨⟨v', batch'⟩, hv⟩ := Option.ne_none_iff_exists'.mp hrun
  obtain ⟨-, hcursor, -, rfl⟩ := hkeep v' batch' hv
  exact ⟨v', batch', hv, by rwa [ProverVars.processed, hcursor]⟩

lemma reaches_flush {k : AfterFlush} (hc : c ≤ v.processed k.batch)
    (hqueues : ProverQueues cfg log (flush v k)) : (flush v k).Reaches c :=
  (keepsVars_flush v k).reaches (hqueues.running (flush_running v k)) hc

lemma reaches_sizeCheck (hc : c ≤ v.processed batch)
    (hqueues : ProverQueues cfg log (sizeCheck cfg v batch)) :
    (sizeCheck cfg v batch).Reaches c :=
  (keepsVars_sizeCheck cfg v batch).reaches (hqueues.running (sizeCheck_running cfg v batch)) hc

lemma EntryMove.reaches {e : Entry} (hmove : EntryMove cfg v e batch task)
    (hc : c ≤ v.processed batch) (hqueues : ProverQueues cfg log task) : task.Reaches c := by
  cases hmove with
  | pass => exact reaches_sizeCheck hc hqueues
  | commit s => exact reaches_sizeCheck (v := { v with awaiting := _ }) hc hqueues
  | stale => exact ⟨v, batch, rfl, hc⟩
  | gap | missing => exact hqueues.elim
  | attested a _ s => exact reaches_sizeCheck (v := ⟨_, _, v.cursor, _⟩) hc hqueues
  | failed f => exact reaches_sizeCheck (v := ⟨_, _, v.cursor, _⟩) hc hqueues
  | failedFlush f =>
    exact reaches_flush (v := ⟨_, _, v.cursor, _⟩) (k := .atSizeCheck batch) hc hqueues

/-- The loop body goes on to the next entry, or flushes. -/
lemma EntryMove.draining_or_proving {e : Entry} (hmove : EntryMove cfg v e batch task)
    (hqueues : ProverQueues cfg log task) :
    (∃ v', task = .draining v' batch) ∨ ∃ v a b taken k, task = .proving v a b taken k := by
  have hflush : ∀ (v : ProverVars) (k : AfterFlush), ProverQueues cfg log (flush v k) →
      ∃ v' a b taken k', flush v k = .proving v' a b taken k' := by
    intro v k hqueues
    by_cases hp : v.pending = []
    · rw [flush_eq_panicked.mpr hp] at hqueues
      exact hqueues.elim
    · exact ⟨_, _, _, _, k, flush_of_ne_nil k hp⟩
  have hcheck : ∀ v : ProverVars, ProverQueues cfg log (sizeCheck cfg v batch) →
      (∃ v', sizeCheck cfg v batch = .draining v' batch) ∨
        ∃ v' a b taken k, sizeCheck cfg v batch = .proving v' a b taken k := by
    intro v hqueues
    rcases sizeCheck_cases cfg v batch with ⟨-, h⟩ | ⟨-, h⟩
    · exact Or.inl ⟨v, h⟩
    · rw [h] at hqueues ⊢
      exact Or.inr (hflush v _ hqueues)
  cases hmove with
  | pass | commit | attested | failed => exact hcheck _ hqueues
  | stale => exact Or.inl ⟨v, rfl⟩
  | gap | missing => exact hqueues.elim
  | failedFlush => exact Or.inr (hflush _ _ hqueues)

lemma ProverMove.reaches (hmove : ProverMove cfg log task e task' o) (he : e ≠ .crash)
    (hqueues : ProverQueues cfg (log ++ o.toList) task') (h : task.Reaches c) :
    task'.Reaches c := by
  obtain ⟨v, batch, hv, hc⟩ := h
  cases hmove with
  | idle => exact ⟨v, batch, hv, hc⟩
  | stop task e hcrash => exact absurd hcrash he
  | scan | readHead | timer => simp [ProverTask.vars?] at hv
  | read v' n =>
    obtain ⟨rfl, rfl⟩ := Prod.mk.inj (Option.some.inj hv)
    refine ⟨_, _, rfl, ?_⟩
    rwa [ProverVars.processed, Nat.add_sub_cancel]
  | drained v' => exact ⟨v, batch, hv, hc⟩
  | entry v' entry batch' task hentry =>
    obtain ⟨rfl, rfl⟩ := Prod.mk.inj (Option.some.inj hv)
    refine hentry.reaches (hc.trans ?_) hqueues
    rw [ProverVars.processed, ProverVars.processed, List.length_cons]
    omega
  | tick v' hp =>
    obtain ⟨rfl, rfl⟩ := Prod.mk.inj (Option.some.inj hv)
    exact reaches_flush (k := .select) hc hqueues
  | proved v' fromSlot toSlot taken k answer =>
    obtain ⟨rfl, rfl⟩ := Prod.mk.inj (Option.some.inj hv)
    cases k with
    | select => exact ⟨v', [], rfl, hc⟩
    | atSizeCheck batch => exact reaches_sizeCheck hc hqueues
    | atNext batch => exact ⟨v', batch, rfl, hc⟩

/-- A slot attested below where the task is, is below its next slot. -/
lemma ProverInv.lt_nextSlot (h : ProverInv cfg log task) {p : ℕ} {a : SlotAttested}
    (hp : log[p]? = some (.slotAttested a)) (hreaches : task.Reaches (p + 1)) :
    StartedFrom (a.slot + 1) task := by
  obtain ⟨v, batch, hv, hc⟩ := hreaches
  have hcount : ∀ queued first, Queue log v batch queued first → a.slot + 1 ≤ v.nextSlot := by
    intro queued first hqueue
    have hslot := h.ruled.slot_eq hp rfl
    have hsucc : log.countBelow Entry.ruling? (p + 1) =
        log.countBelow Entry.ruling? p + 1 := Log.countBelow_succ hp
    have hmono : log.countBelow Entry.ruling? (p + 1) ≤
        log.countBelow Entry.ruling? (v.processed batch) := Log.countBelow_mono hc
    have hpassed := hqueue.passed
    omega
  have hqueues := h.queues
  cases task with
  | waiting v' =>
    obtain ⟨rfl, rfl⟩ := Prod.mk.inj (Option.some.inj hv)
    obtain ⟨first, hqueue, -⟩ := hqueues.1
    exact hcount _ first hqueue
  | draining v' batch' =>
    obtain ⟨rfl, rfl⟩ := Prod.mk.inj (Option.some.inj hv)
    obtain ⟨first, hqueue, -⟩ := hqueues.1
    exact hcount _ first hqueue
  | proving v' fromSlot toSlot taken k =>
    obtain ⟨rfl, rfl⟩ := Prod.mk.inj (Option.some.inj hv)
    exact hcount _ fromSlot hqueues.1
  | _ => simp [ProverTask.vars?] at hv

end Step

section Progress

variable {cfg : BatchConfig} {c slot : ℕ} {log : ℕ → Log} {task : ℕ → ProverTask}
  {event : ℕ → Option ProverEvent}

/-- An endless run of the prover that is fair to it and does not stop it. -/
abbrev ProverSteady (cfg : BatchConfig) (log : ℕ → Log) (task : ℕ → ProverTask)
    (event : ℕ → Option ProverEvent) : Prop :=
  (prover cfg).SteadyRun proverTurn
    (fun log task => Log.Numbered log ∧ SettledCommitted log ∧ ProverInv cfg log task)
    (· ≠ .crash) log task event

lemma ProverInv.queues_step (hcfg : 1 ≤ cfg.batchSize) {log : Log} {task : ProverTask}
    {e : ProverEvent} (h : Log.Numbered log ∧ SettledCommitted log ∧ ProverInv cfg log task)
    (hrun : ∀ scanned, task ≠ .recovering scanned) :
    ProverQueues cfg (log ++ (proverStep cfg log task e).2.toList)
      (proverStep cfg log task e).1 := by
  refine ((proverStep_move cfg log task e).inv hcfg h.1 h.2.1 ?_ h.2.2).queues
  cases task with
  | recovering scanned => exact absurd rfl (hrun scanned)
  | _ => trivial

lemma ProverTask.Reaches.not_recovering {task : ProverTask} (h : task.Reaches c)
    (scanned : Scanned) : task ≠ .recovering scanned := by
  rintro rfl
  obtain ⟨v, batch, hv, -⟩ := h
  simp [ProverTask.vars?] at hv

namespace ProverSteady

variable (hcfg : 1 ≤ cfg.batchSize)
include hcfg

lemma reaches_stable (h : ProverSteady cfg log task event) (c : ℕ) (n : ℕ)
    (hn : (task n).Reaches c) : (task (n + 1)).Reaches c :=
  h.stable (P := fun _ task => task.Reaches c)
    (fun log task e hinv he hreaches => (proverStep_move cfg log task e).reaches he
      (ProverInv.queues_step hcfg hinv hreaches.not_recovering) hreaches)
    (fun _ _ _ _ => id) n hn

omit hcfg in
lemma comes_up (h : ProverSteady cfg log task event) (htimer : cfg.flushAfter ≠ .ZERO) :
    LeadsTo (fun _ => True) fun n => (task n).Reaches 0 := by
  refine h.starts .scan .readHead (· = .down) (fun task => ∃ s, task = .recovering s)
    (·.Reaches 0) ?_ ?_ ?_ ?_ ?_ ?_ ?_
  · rintro log task ⟨-, -, hinv⟩
    have hqueues := hinv.queues
    cases task with
    | down => exact Or.inl rfl
    | recovering s => exact Or.inr (Or.inl ⟨s, rfl⟩)
    | waiting | draining | proving => exact Or.inr (Or.inr ⟨_, _, rfl, Nat.zero_le _⟩)
    | stopped | panicked => exact hqueues.elim
    | timerPanicked => exact absurd hqueues htimer
  · rintro log _ e rfl he hturn
    cases e <;> first | rfl | exact absurd trivial hturn
  · rintro log _ rfl
    exact ⟨.scan, trivial⟩
  · rintro log _ e - rfl hturn
    cases e <;> first | exact ⟨_, rfl⟩ | exact hturn.elim
  · rintro log _ e ⟨s, rfl⟩ he hturn
    cases e <;> first | rfl | exact absurd trivial hturn | exact absurd rfl he
  · rintro log _ ⟨s, rfl⟩
    exact ⟨.readHead, trivial⟩
  · rintro log _ e - ⟨s, rfl⟩ hturn
    cases e with
    | readHead =>
      show ((prover cfg).step log (.recovering s) .readHead).1.Reaches 0
      simp only [prover, proverStep, if_neg htimer]
      exact ⟨_, _, rfl, Nat.zero_le _⟩
    | _ => exact hturn.elim

lemma passes (h : ProverSteady cfg log task event) (c : ℕ) :
    LeadsTo (fun n => (task n).Reaches c ∧ ∃ v e batch, task n = .draining v (e :: batch))
      fun n => (task n).Reaches (c + 1) := by
  refine h.leadsTo_of_only .process
    (P := fun _ task => task.Reaches c ∧ ∃ v e batch, task = .draining v (e :: batch))
    (Q := fun _ task => task.Reaches (c + 1)) ?_ (fun _ _ _ _ => id) ?_ ?_
  · rintro log _ e ⟨-, v, entry, batch, rfl⟩ he hturn
    cases e <;> first | rfl | exact absurd trivial hturn | exact absurd rfl he
  · rintro log _ ⟨-, v, entry, batch, rfl⟩
    exact ⟨.process, trivial⟩
  · rintro log _ e hinv ⟨hreaches, v, entry, batch, rfl⟩ hturn
    cases e with
    | process =>
      obtain ⟨v', batch', hv, hc⟩ := hreaches
      obtain ⟨rfl, rfl⟩ := Prod.mk.inj (Option.some.inj hv)
      have hfollows : Follows log v (entry :: batch) := hinv.2.2.follows.vars v _ rfl
      have hqueues := ProverInv.queues_step (e := .process) hcfg hinv (by simp)
      refine (processEntry_move cfg v entry batch).reaches ?_ hqueues
      rw [hfollows.processed_tail]
      exact Nat.succ_le_succ hc
    | _ => exact hturn.elim

lemma answers (h : ProverSteady cfg log task event) (c : ℕ) :
    LeadsTo (fun n => (task n).Reaches c ∧ ∃ v a b taken k, task n = .proving v a b taken k)
      fun n => (task n).Reaches c ∧
        ((∃ v, task n = .waiting v) ∨ ∃ v batch, task n = .draining v batch) := by
  refine h.leadsTo_of_only .proved
    (P := fun _ task => task.Reaches c ∧ ∃ v a b taken k, task = .proving v a b taken k)
    (Q := fun _ task => task.Reaches c ∧
      ((∃ v, task = .waiting v) ∨ ∃ v batch, task = .draining v batch)) ?_
    (fun _ _ _ _ => id) ?_ ?_
  · rintro log _ e ⟨-, v, a, b, taken, k, rfl⟩ he hturn
    cases e <;> first | rfl | exact absurd trivial hturn | exact absurd rfl he
  · rintro log _ ⟨-, v, a, b, taken, k, rfl⟩
    exact ⟨.proved (.error (.backend "")), trivial⟩
  · rintro log _ e hinv ⟨hreaches, v, a, b, taken, k, rfl⟩ hturn
    cases e with
    | proved answer =>
      obtain ⟨v', batch', hv, hc⟩ := hreaches
      obtain ⟨rfl, rfl⟩ := Prod.mk.inj (Option.some.inj hv)
      cases k with
      | select => exact ⟨⟨v, _, rfl, hc⟩, Or.inl ⟨v, rfl⟩⟩
      | atNext batch => exact ⟨⟨v, _, rfl, hc⟩, Or.inr ⟨v, batch, rfl⟩⟩
      | atSizeCheck batch =>
        -- a flush leaves nothing pending
        have hpending : v.pending = [] := hinv.2.2.queues.2.1
        have hcheck : sizeCheck cfg v batch = .draining v batch := by
          rw [sizeCheck, hpending, if_neg (by simp; omega)]
        show (sizeCheck cfg v batch).Reaches c ∧ _
        exact ⟨hcheck ▸ ⟨v, _, rfl, hc⟩, Or.inr ⟨v, batch, hcheck⟩⟩
    | _ => exact hturn.elim

lemma waits (h : ProverSteady cfg log task event) (c : ℕ) :
    LeadsTo (fun n => (task n).Reaches c)
      fun n => (∃ v, task n = .waiting v ∧ c ≤ v.cursor) ∨ (task n).Reaches (c + 1) := by
  have hwaiting : ∀ n, (task n).Reaches c ∧ (∃ v, task n = .waiting v) →
      (∃ v, task n = .waiting v ∧ c ≤ v.cursor) := by
    rintro n ⟨⟨v, batch, hv, hc⟩, v', htask⟩
    rw [htask] at hv
    obtain ⟨rfl, rfl⟩ := Prod.mk.inj (Option.some.inj hv)
    exact ⟨v', htask, hc⟩
  have hdrained : LeadsTo (fun n => (task n).Reaches c ∧ ∃ v, task n = .draining v [])
      fun n => (∃ v, task n = .waiting v ∧ c ≤ v.cursor) ∨ (task n).Reaches (c + 1) := by
    refine h.leadsTo_of_only .process
      (P := fun _ task => task.Reaches c ∧ ∃ v, task = .draining v [])
      (Q := fun _ task => (∃ v, task = .waiting v ∧ c ≤ v.cursor) ∨ task.Reaches (c + 1))
      ?_ (fun _ _ _ _ => id) ?_ ?_
    · rintro log _ e ⟨-, v, rfl⟩ he hturn
      cases e <;> first | rfl | exact absurd trivial hturn | exact absurd rfl he
    · rintro log _ ⟨-, v, rfl⟩
      exact ⟨.process, trivial⟩
    · rintro log _ e - ⟨⟨v, batch, hv, hc⟩, v', rfl⟩ hturn
      obtain ⟨rfl, rfl⟩ := Prod.mk.inj (Option.some.inj hv)
      cases e <;> first | exact Or.inl ⟨_, rfl, hc⟩ | exact hturn.elim
  have hpasses := (passes hcfg h c).imp
    (R := fun n => (∃ v, task n = .waiting v ∧ c ≤ v.cursor) ∨ (task n).Reaches (c + 1))
    fun _ => Or.inr
  have hdraining : LeadsTo (fun n => (task n).Reaches c ∧ ∃ v batch, task n = .draining v batch)
      fun n => (∃ v, task n = .waiting v ∧ c ≤ v.cursor) ∨ (task n).Reaches (c + 1) := by
    refine LeadsTo.mono (hdrained.or hpasses) ?_ fun _ => id
    rintro n ⟨hreaches, v, batch, htask⟩
    cases batch with
    | nil => exact Or.inl ⟨hreaches, v, htask⟩
    | cons e batch => exact Or.inr ⟨hreaches, v, e, batch, htask⟩
  have hproving := LeadsTo.cancel ((answers hcfg h c).imp (R := fun n =>
      ((task n).Reaches c ∧ ∃ v batch, task n = .draining v batch) ∨
        ((∃ v, task n = .waiting v ∧ c ≤ v.cursor) ∨ (task n).Reaches (c + 1))) (by
    rintro n ⟨hreaches, hw | hd⟩
    · exact Or.inr (Or.inl (hwaiting n ⟨hreaches, hw⟩))
    · exact Or.inl ⟨hreaches, hd⟩)) hdraining
  refine LeadsTo.cancel (LeadsTo.of_imp fun n hn => ?_) (hdraining.or hproving)
  have hn' := hn
  obtain ⟨v, batch, hv, hc⟩ := hn'
  cases htask : task n with
  | waiting v' =>
    exact Or.inr (Or.inl (htask ▸ hwaiting n ⟨hn, v', htask⟩))
  | draining v' batch' => exact Or.inl (Or.inl ⟨htask ▸ hn, v', batch', rfl⟩)
  | proving v' a b taken k => exact Or.inl (Or.inr ⟨htask ▸ hn, v', a, b, taken, k, rfl⟩)
  | _ =>
    rw [htask] at hv
    simp [ProverTask.vars?] at hv

lemma reads (h : ProverSteady cfg log task event) (htimer : cfg.flushAfter ≠ .ZERO) (c : ℕ) :
    LeadsTo (fun n => c ≤ (log n).length) fun n => (task n).Reaches c := by
  refine h.reads_all .doorbell (fun c task => task.Reaches c) (h.comes_up htimer)
    (reaches_stable hcfg h) (fun c => ?_) (fun c => ?_) c
  · refine (waits hcfg h c).imp ?_
    rintro n (⟨v, htask, hle⟩ | hreaches)
    · rcases Nat.lt_or_ge c v.cursor with hc | hc
      · exact Or.inr (htask ▸ ⟨v, [], rfl, hc⟩)
      · exact Or.inl fun hlt =>
          ⟨.doorbell 1, htask ▸ ⟨lt_of_le_of_lt hc hlt, Nat.one_pos⟩⟩
    · exact Or.inr hreaches
  · refine (h.leadsTo_of_done (P := fun _ task => task.Reaches c)
      (Q := fun _ task => task.Reaches c ∧ ∃ v e batch, task = .draining v (e :: batch))
      .doorbell ?_).trans (passes hcfg h c)
    intro log task e hinv hreaches hturn
    refine ⟨(proverStep_move cfg log task e).reaches ?_
      (ProverInv.queues_step hcfg hinv hreaches.not_recovering) hreaches, ?_⟩
    · rintro rfl
      cases task <;> exact hturn.elim
    · cases task with
      | waiting v =>
        cases e with
        | doorbell n =>
          obtain ⟨hlt, hn⟩ := hturn
          obtain ⟨n, rfl⟩ : ∃ m, n = m + 1 := ⟨n - 1, by omega⟩
          obtain ⟨batch, hbatch⟩ : ∃ batch,
              ((Log.readFrom log v.cursor).take (n + 1)).map Prod.snd = log[v.cursor] :: batch := by
            rw [Log.readFrom_eq_cons (List.getElem?_eq_getElem hlt), List.take_succ_cons]
            exact ⟨_, rfl⟩
          exact ⟨_, _, batch, congrArg (ProverTask.draining _) hbatch⟩
        | _ => exact hturn.elim
      | _ => cases e <;> exact hturn.elim

/-! ### Settling -/

/-- The next slot is past an attested one. -/
def Past (slot : ℕ) (log : Log) (task : ProverTask) : Prop :=
  StartedFrom (slot + 1) task ∧ slot ∈ log.attested

omit hcfg in
lemma past_step {log : Log} {task : ProverTask} {e : ProverEvent} (hpast : Past slot log task)
    (he : e ≠ .crash) :
    Past slot (log ++ ((prover cfg).step log task e).2.toList) ((prover cfg).step log task e).1 :=
  ⟨(proverStep_move cfg log task e).startedFrom he hpast.1,
    Log.mem_attested_append_left hpast.2 _⟩

omit hcfg in
lemma past_append {log log' : Log} {task : ProverTask} (hlog : log <+: log')
    (hpast : Past slot log task) : Past slot log' task := by
  obtain ⟨rest, rfl⟩ := hlog
  exact ⟨hpast.1, Log.mem_attested_append_left hpast.2 rest⟩

omit hcfg in
lemma settles_proving (h : ProverSteady cfg log task event) (slot : ℕ) :
    LeadsTo (fun n => Past slot (log n) (task n) ∧ ∃ v a b taken k, task n = .proving v a b taken k)
      fun n => slot < (log n).settled := by
  refine h.leadsTo_of_only .proved
    (P := fun log task => Past slot log task ∧ ∃ v a b taken k, task = .proving v a b taken k)
    (Q := fun log _ => slot < Log.settled log) ?_
    (fun _ _ _ hlog hP => ⟨past_append hlog hP.1, hP.2⟩) ?_ ?_
  · rintro log _ e ⟨-, v, a, b, taken, k, rfl⟩ he hturn
    cases e <;> first | rfl | exact absurd trivial hturn | exact absurd rfl he
  · rintro log _ ⟨-, v, a, b, taken, k, rfl⟩
    exact ⟨.proved (.error (.backend "")), trivial⟩
  · rintro log _ e hinv ⟨⟨hnext, hattested⟩, v, a, b, taken, k, rfl⟩ hturn
    cases e with
    | proved answer =>
      show slot < Log.settled (log ++ [outcome a b answer])
      rw [Log.settled_append_of_some (outcome_settledTo? a b answer)]
      obtain ⟨hqueue, -, -, hto, -⟩ := hinv.2.2.queues
      rcases Nat.lt_or_ge slot (Log.settled log) with hlt | hge
      · exact hlt.trans_le (le_max_left _ _)
      · have hin := hqueue.left slot hattested hge hnext
        rw [← hto] at hin
        exact hin.2.trans_le (le_max_right _ _)
    | _ => exact hturn.elim

/-- A batch comes to its end, or is interrupted by a flush. -/
lemma drains (h : ProverSteady cfg log task event) (slot : ℕ) :
    LeadsTo (fun n => Past slot (log n) (task n) ∧ ∃ v batch, task n = .draining v batch)
      fun n => Past slot (log n) (task n) ∧
        ((∃ v, task n = .waiting v) ∨ ∃ v a b taken k, task n = .proving v a b taken k) := by
  refine LeadsTo.of_measure (fun n => (task n).toProcess) fun k => ?_
  refine h.leadsTo_of_only .process
    (P := fun log task => (Past slot log task ∧ ∃ v batch, task = .draining v batch) ∧
      task.toProcess = k)
    (Q := fun log task => ((Past slot log task ∧ ∃ v batch, task = .draining v batch) ∧
        task.toProcess < k) ∨ (Past slot log task ∧
      ((∃ v, task = .waiting v) ∨ ∃ v a b taken k, task = .proving v a b taken k))) ?_
    (fun _ _ _ hlog hP => ⟨⟨past_append hlog hP.1.1, hP.1.2⟩, hP.2⟩) ?_ ?_
  · rintro log _ e ⟨⟨-, v, batch, rfl⟩, -⟩ he hturn
    cases e <;> first | rfl | exact absurd trivial hturn | exact absurd rfl he
  · rintro log _ ⟨⟨-, v, batch, rfl⟩, -⟩
    exact ⟨.process, trivial⟩
  · rintro log _ e hinv ⟨⟨hpast, v, batch, rfl⟩, hk⟩ hturn
    cases e with
    | process =>
      have hpast' : Past slot (log ++ ((prover cfg).step log (.draining v batch) .process).2.toList)
          ((prover cfg).step log (.draining v batch) .process).1 := past_step hpast (by simp)
      cases batch with
      | nil => exact Or.inr ⟨hpast', Or.inl ⟨v, rfl⟩⟩
      | cons entry batch =>
        have hqueues := ProverInv.queues_step (e := .process) hcfg hinv (by simp)
        have hlt : batch.length < k := hk ▸ Nat.lt_succ_self batch.length
        rcases (processEntry_move cfg v entry batch).draining_or_proving hqueues with
          ⟨v', htask⟩ | hproving
        · exact Or.inl ⟨⟨hpast', v', batch, htask⟩, by
            show (processEntry cfg v entry batch).toProcess < k
            rw [htask]
            exact hlt⟩
        · exact Or.inr ⟨hpast', Or.inr hproving⟩
    | _ => exact hturn.elim

/-- What is past an attested slot settles it: the timer flushes what is queued. -/
lemma settles_past (h : ProverSteady cfg log task event) (htimer : cfg.flushAfter ≠ .ZERO)
    (slot : ℕ) :
    LeadsTo (fun n => Past slot (log n) (task n)) fun n => slot < (log n).settled := by
  have hstable : ∀ n, Past slot (log n) (task n) → Past slot (log (n + 1)) (task (n + 1)) :=
    h.stable (P := Past slot) (fun _ _ _ _ he hpast => past_step hpast he)
      fun _ _ _ hlog => past_append hlog
  refine LeadsTo.of_fair (h.fair .tick) (fun n hn => Or.inl (hstable n hn)) ?_ ?_
  · -- a batch in between comes to its end, and a flush settles the slot
    have hstands : LeadsTo (fun n => Past slot (log n) (task n))
        fun n => (Past slot (log n) (task n) ∧ ∃ v, task n = .waiting v) ∨
          slot < (log n).settled := by
      have hproving := (h.settles_proving slot).imp
        (R := fun n => (Past slot (log n) (task n) ∧ ∃ v, task n = .waiting v) ∨
          slot < (log n).settled) fun _ => Or.inr
      have hdraining := LeadsTo.cancel ((drains hcfg h slot).imp (R := fun n =>
          (Past slot (log n) (task n) ∧ ∃ v a b taken k, task n = .proving v a b taken k) ∨
            ((Past slot (log n) (task n) ∧ ∃ v, task n = .waiting v) ∨ slot < (log n).settled)) (by
        rintro n ⟨hpast, hw | hp⟩
        · exact Or.inr (Or.inl ⟨hpast, hw⟩)
        · exact Or.inl ⟨hpast, hp⟩)) hproving
      refine LeadsTo.cancel (LeadsTo.of_imp fun n hn => ?_) (hdraining.or hproving)
      have hqueues := (h.inv n).2.2.queues
      cases htask : task n with
      | waiting v => exact Or.inr (Or.inl ⟨htask ▸ hn, v, rfl⟩)
      | draining v batch => exact Or.inl (Or.inl ⟨htask ▸ hn, v, batch, rfl⟩)
      | proving v a b taken k => exact Or.inl (Or.inr ⟨htask ▸ hn, v, a, b, taken, k, rfl⟩)
      | down | recovering =>
        rw [htask] at hn
        exact hn.1.elim
      | stopped | panicked =>
        rw [htask] at hqueues
        exact hqueues.elim
      | timerPanicked =>
        rw [htask] at hqueues
        exact absurd hqueues htimer
    refine hstands.trans (LeadsTo.of_imp fun n => ?_)
    rintro (⟨⟨hnext, hattested⟩, v, htask⟩ | hsettled)
    · rcases Nat.lt_or_ge slot (log n).settled with hlt | hge
      · exact Or.inr hlt
      · refine Or.inl ⟨.tick, ?_⟩
        have hqueues := (h.inv n).2.2.queues
        rw [htask] at hqueues hnext ⊢
        obtain ⟨⟨first, hqueue, -⟩, -⟩ := hqueues
        have hin := hqueue.left slot hattested hge hnext
        show v.pending ≠ []
        rintro hnil
        rw [hnil, List.length_nil] at hin
        omega
    · exact Or.inr hsettled
  · refine LeadsTo.trans ?_ (h.settles_proving slot)
    refine h.leadsTo_of_done (P := Past slot)
      (Q := fun log task => Past slot log task ∧ ∃ v a b taken k, task = .proving v a b taken k)
      .tick ?_
    intro log task e hinv hpast hturn
    cases task with
    | waiting v =>
      cases e with
      | tick =>
        have hpending : v.pending ≠ [] := hturn
        have hne : v.pending.isEmpty = false := by simpa using hpending
        have hflush : ((prover cfg).step log (.waiting v) .tick).1 = flush v .select := by
          show (if v.pending.isEmpty then ProverTask.waiting v else flush v .select) = _
          rw [hne, if_neg Bool.false_ne_true]
        exact ⟨past_step hpast (by simp), _, _, _, _, .select,
          hflush.trans (flush_of_ne_nil .select hpending)⟩
      | _ => exact hturn.elim
    | _ => cases e <;> exact hturn.elim

/-- **The prover gets to every attested slot.**  However the others append, every attested slot
is below an outcome one day. -/
theorem settles (h : ProverSteady cfg log task event) (htimer : cfg.flushAfter ≠ .ZERO)
    (slot : ℕ) :
    LeadsTo (fun n => slot ∈ (log n).attested) fun n => slot < (log n).settled := by
  refine LeadsTo.trans ?_ (settles_past hcfg h htimer slot)
  intro n hn
  obtain ⟨a, ha, rfl⟩ := Log.mem_attested.mp hn
  obtain ⟨p, hp⟩ := List.mem_iff_getElem?.mp ha
  have hlt := (List.getElem?_eq_some_iff.mp hp).1
  obtain ⟨m, hnm, hm⟩ := reads hcfg h htimer (p + 1) n hlt
  obtain ⟨rest, hrest⟩ := h.view.log_prefix_of_le hnm
  have hp' : (log m)[p]? = some (.slotAttested a) := by
    rw [← hrest, List.getElem?_append_left hlt]
    exact hp
  exact ⟨m, hnm, (h.inv m).2.2.lt_nextSlot hp' hm,
    Log.mem_attested.mpr ⟨a, List.mem_of_getElem? hp', rfl⟩⟩

end ProverSteady

end Progress

end Zequencer
