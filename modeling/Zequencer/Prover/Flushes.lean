/-
# Every batch holds a slot

`flush` unwraps the first and the last slot of its batch, and so does the backend.  The timer
and a failed attestation look whether anything is pending before they flush; the size check
compares lengths only, and a batch size of zero lets it flush when nothing is.
-/
import Zequencer.Prover.Ranges
import Zequencer.Source.MockProver

namespace Zequencer

variable {cfg : BatchConfig} {log : Log}

/-- The prover beside stages that write anything at any time. -/
def proverAmong (cfg : BatchConfig) : Stage Entry (ProverTask × Unit) (ProverEvent ⊕ Entry) :=
  (prover cfg).par (Stage.surroundings fun _ _ => True)

/-- No flush was entered with an empty batch: `flush` has not panicked, and the batch that the
backend is handed is not empty. -/
structure FlushesSlots (task : ProverTask) : Prop where
  flush : task ≠ .panicked
  prove : ∀ v fromSlot toSlot taken k, task = .proving v fromSlot toSlot taken k → taken ≠ []

/-- The loop body gets to the size check with a batch to flush, if it flushes: batches have
room for a slot, or the entry is a ruling that leaves the loop before the check or brings a
slot. -/
def SizeCheckGuarded (cfg : BatchConfig) (_ : Log) : ProverTask → ProverEvent → Prop
  | .draining v (entry :: _), .process =>
    1 ≤ cfg.batchSize ∨
      entry.ruling? ≠ none ∧ ∀ f, entry = .attestFailed f → f.slot ≠ v.nextSlot
  | _, _ => True

/-! ### Where a flush starts -/

lemma FlushesSlots.of_idle {task : ProverTask} (hflush : task ≠ .panicked)
    (hprove : ∀ v fromSlot toSlot taken k, task ≠ .proving v fromSlot toSlot taken k) :
    FlushesSlots task :=
  ⟨hflush, fun v fromSlot toSlot taken k h => absurd h (hprove v fromSlot toSlot taken k)⟩

lemma flushesSlots_flush {v : ProverVars} (k : AfterFlush) (h : v.pending ≠ []) :
    FlushesSlots (flush v k) := by
  rw [flush_of_ne_nil k h]
  refine ⟨by simp, fun v' fromSlot toSlot taken k' htask => ?_⟩
  obtain ⟨-, -, -, rfl, -⟩ := ProverTask.proving.inj htask
  exact h

lemma flushesSlots_draining (v : ProverVars) (batch : List Entry) :
    FlushesSlots (.draining v batch) :=
  .of_idle (by simp) (by simp)

lemma flushesSlots_sizeCheck {v : ProverVars} (batch : List Entry)
    (h : 1 ≤ cfg.batchSize ∨ v.pending ≠ []) : FlushesSlots (sizeCheck cfg v batch) := by
  rcases sizeCheck_cases cfg v batch with ⟨-, hcheck⟩ | ⟨hsize, hcheck⟩
  · rw [hcheck]
    exact flushesSlots_draining v batch
  · rw [hcheck]
    refine flushesSlots_flush _ ?_
    rcases h with h | h
    · exact List.ne_nil_of_length_pos (h.trans hsize)
    · exact h

/-- The loop body flushes slots, where the size check is guarded. -/
lemma EntryMove.flushesSlots {v : ProverVars} {e : Entry} {batch : List Entry}
    {task : ProverTask} (hmove : EntryMove cfg v e batch task)
    (hguard : SizeCheckGuarded cfg log (.draining v (e :: batch)) .process) :
    FlushesSlots task := by
  cases hmove with
  | pass _ _ hc hr =>
    refine flushesSlots_sizeCheck batch (hguard.imp id fun h => ?_)
    exact absurd hr h.1
  | commit c =>
    refine flushesSlots_sizeCheck batch (hguard.imp id fun h => ?_)
    exact absurd rfl h.1
  | stale => exact flushesSlots_draining v batch
  | gap | missing => exact .of_idle (by simp) (by simp)
  | attested a _ s => exact flushesSlots_sizeCheck batch (Or.inr (by simp))
  | failed f _ hslot =>
    refine flushesSlots_sizeCheck batch (hguard.imp id fun h => ?_)
    exact absurd hslot (h.2 f rfl)
  | failedFlush f _ hslot hp => exact flushesSlots_flush _ hp

lemma ProverMove.flushesSlots {task task' : ProverTask} {e : ProverEvent} {o : Option Entry}
    (hmove : ProverMove cfg log task e task' o) (hholds : cfg.batchSize = 0 → HoldsNothing task)
    (hguard : SizeCheckGuarded cfg log task e) (h : FlushesSlots task) :
    FlushesSlots task' := by
  cases hmove with
  | idle => exact h
  | stop | scan | readHead | timer | drained => exact .of_idle (by simp) (by simp)
  | read v n => exact flushesSlots_draining _ _
  | entry v entry batch task hentry => exact hentry.flushesSlots hguard
  | tick v hp => exact flushesSlots_flush .select hp
  | proved v fromSlot toSlot taken k answer =>
    -- with batches of no slots nothing is ever proved
    have hcfg : 1 ≤ cfg.batchSize := Nat.one_le_iff_ne_zero.mpr fun hzero => hholds hzero
    cases k with
    | select => exact .of_idle (by simp [AfterFlush.resume]) (by simp [AfterFlush.resume])
    | atSizeCheck batch => exact flushesSlots_sizeCheck batch (Or.inl hcfg)
    | atNext batch => exact flushesSlots_draining v batch

lemma panicked_of_not_guarded {task : ProverTask} {e : ProverEvent}
    (hholds : cfg.batchSize = 0 → HoldsNothing task)
    (hguard : ¬ SizeCheckGuarded cfg log task e) :
    ((prover cfg).step log task e).1 = .panicked := by
  unfold SizeCheckGuarded at hguard
  split at hguard
  · rename_i v entry batch
    rw [not_or, not_and_or, not_not] at hguard
    obtain ⟨hcfg, hentry⟩ := hguard
    have hzero : cfg.batchSize = 0 := by omega
    have hpending : v.pending = [] := (hholds hzero).2
    have hcheck : ∀ v : ProverVars, v.pending = [] → sizeCheck cfg v batch = .panicked := by
      intro v hp
      rw [sizeCheck, if_pos (by omega), flush_eq_panicked.mpr hp]
    show processEntry cfg v entry batch = .panicked
    rcases hentry with hruling | hfailed
    · cases entry with
      | slotCommitted c => exact hcheck _ hpending
      | slotAttested a => simp [Entry.ruling?] at hruling
      | attestFailed f => simp [Entry.ruling?] at hruling
      | _ => exact hcheck _ hpending
    · obtain ⟨f, rfl, hslot⟩ : ∃ f, entry = .attestFailed f ∧ f.slot = v.nextSlot := by
        by_contra hnone
        exact hfailed fun f hf hslot => hnone ⟨f, hf, hslot⟩
      simp only [processEntry, hslot, lt_irrefl, ne_eq, not_true_eq_false, if_false, hpending,
        List.isEmpty_nil, if_true]
      exact hcheck _ rfl
  · exact absurd trivial hguard

/-! ### Every run -/

lemma proverAmong_upholds_holdsNothing (cfg : BatchConfig) :
    (proverAmong cfg).Upholds (fun _ _ => True) (fun _ _ => True)
      (fun _ s => cfg.batchSize = 0 → HoldsNothing s.1) := by
  have hprover : (prover cfg).Upholds (fun _ _ => True) (fun _ _ => True)
      (fun _ task => cfg.batchSize = 0 → HoldsNothing task) :=
    ⟨fun _ => trivial,
      fun log task e h hcfg => ((proverStep_move cfg log task e).holdsNothing hcfg (h hcfg)).1,
      fun _ _ _ _ _ _ => trivial, fun _ _ _ h _ => h⟩
  exact (hprover.beside _ fun _ _ _ _ _ => trivial).mono (fun _ _ _ _ h => h)
    fun _ _ _ => trivial

/-- The run lemma: as long as the size check is guarded, every flush has a slot. -/
lemma flushesSlots_run (es : List (ProverEvent ⊕ Entry))
    (hes : (proverAmong cfg).Along (Stage.onLeft (SizeCheckGuarded cfg)) es) :
    FlushesSlots ((proverAmong cfg).run es).state.1 := by
  refine (proverAmong_upholds_holdsNothing cfg).along_left (J := fun _ task => FlushesSlots task)
    ?_ ?_ ?_ es hes
  · exact .of_idle (by simp [prover]) (by simp [prover])
  · intro log task t e hholds h hguard
    exact (proverStep_move cfg log task e).flushesSlots hholds hguard h
  · exact fun _ _ _ _ _ _ h _ => h

lemma MockProver.prove_eq_none_iff [Keccak256] (m : MockProver) (slots : List CommittedSlot) :
    m.prove slots = none ↔ slots = [] := by
  unfold prove
  cases hs : slots with
  | nil => simp
  | cons s rest =>
    rw [List.head?_cons, List.getLast?_eq_some_getLast (List.cons_ne_nil s rest)]
    simp only [reduceCtorEq, iff_false]
    split_ifs <;> simp

/-- The prover reads a committed slot. -/
def readingCommit : List (ProverEvent ⊕ Entry) :=
  [.inr (.slotCommitted ⟨0, [], 0, ⟨Bytes.ofNat 32 0⟩, testNow⟩), .inl .scan, .inl .readHead,
    .inl (.doorbell 1), .inl .process]

lemma panicked_readingCommit {flushAfter : Duration} (htimer : flushAfter ≠ .ZERO) :
    ((proverAmong ⟨0, flushAfter⟩).run readingCommit).state.1 = .panicked := by
  have hup : (proverAmong ⟨0, flushAfter⟩).run (readingCommit.take 3) =
      ⟨[.slotCommitted ⟨0, [], 0, ⟨Bytes.ofNat 32 0⟩, testNow⟩], (.waiting ⟨∅, [], 0, 0⟩, ())⟩ := by
    show Stage.World.mk _ (if flushAfter = .ZERO then ProverTask.timerPanicked else _, _) = _
    rw [if_neg htimer]
    rfl
  rw [show readingCommit = readingCommit.take 3 ++ readingCommit.drop 3 from rfl,
    Stage.run_append, hup]
  rfl

/-- In no state of the run has `flush` unwrapped an empty batch, and the mock backend can
unwrap every batch it is handed. -/
def SafeFlushes [Keccak256] (m : MockProver) (cfg : BatchConfig)
    (es : List (ProverEvent ⊕ Entry)) : Prop :=
  ∀ es', es' <+: es →
    let task := ((proverAmong cfg).run es').state.1
    task ≠ .panicked ∧ ∀ v fromSlot toSlot taken k,
      task = .proving v fromSlot toSlot taken k → m.prove taken ≠ none

/-- A run is safe exactly as long as the size check is guarded. -/
lemma safeFlushes_iff [Keccak256] (m : MockProver) (es : List (ProverEvent ⊕ Entry)) :
    SafeFlushes m cfg es ↔ (proverAmong cfg).Along (Stage.onLeft (SizeCheckGuarded cfg)) es := by
  constructor
  · intro hsafe
    induction es using List.reverseRecOn with
    | nil => trivial
    | append_singleton es e ih =>
      have hbefore := ih fun es' hpre => hsafe es' (hpre.trans (List.prefix_append es [e]))
      refine Stage.alongFrom_append.mpr ⟨hbefore, ?_, trivial⟩
      cases e with
      | inr x => trivial
      | inl e =>
        by_contra hguard
        have hholds := (proverAmong_upholds_holdsNothing cfg).run es
        have hlast := (hsafe _ List.prefix_rfl).1
        rw [Stage.run_concat] at hlast
        exact hlast (panicked_of_not_guarded hholds hguard)
  · intro hes es' hpre
    have hflushes := flushesSlots_run es' (hes.of_prefix hpre)
    refine ⟨hflushes.flush, fun v fromSlot toSlot taken k htask => ?_⟩
    rw [Ne, m.prove_eq_none_iff]
    exact hflushes.prove v fromSlot toSlot taken k htask

lemma along_guarded (hcfg : 1 ≤ cfg.batchSize) (es : List (ProverEvent ⊕ Entry)) :
    (proverAmong cfg).Along (Stage.onLeft (SizeCheckGuarded cfg)) es := by
  refine (Stage.along_onLeft_true es).mono ?_
  rintro log s (e | x) -
  · show SizeCheckGuarded cfg log s.1 e
    unfold SizeCheckGuarded
    split
    · exact Or.inl hcfg
    · trivial
  · trivial

/-- The task has not got to its loop. -/
def NotInLoop (task : ProverTask) : Prop :=
  task = .down ∨ (∃ scanned, task = .recovering scanned) ∨ task = .timerPanicked

lemma ProverMove.notInLoop {task task' : ProverTask} {e : ProverEvent} {o : Option Entry}
    (hmove : ProverMove cfg log task e task' o) (hzero : cfg.flushAfter = .ZERO)
    (h : NotInLoop task) : NotInLoop task' := by
  cases hmove with
  | idle => exact h
  | stop => exact Or.inl rfl
  | scan => exact Or.inr (Or.inl ⟨_, rfl⟩)
  | readHead scanned htimer => exact absurd hzero htimer
  | timer => exact Or.inr (Or.inr rfl)
  | _ => rcases h with h | ⟨scanned, h⟩ | h <;> simp at h

/-- With no time to the first flush, starting the timer panics, and nothing is ever flushed. -/
lemma safeFlushes_of_zero [Keccak256] (m : MockProver) (hzero : cfg.flushAfter = .ZERO)
    (es : List (ProverEvent ⊕ Entry)) : SafeFlushes m cfg es := by
  have hprover : (prover cfg).Upholds (fun _ _ => True) (fun _ _ => True)
      (fun _ task => NotInLoop task) :=
    ⟨Or.inl rfl, fun log task e h => (proverStep_move cfg log task e).notInLoop hzero h,
      fun _ _ _ _ _ _ => trivial, fun _ _ _ h _ => h⟩
  intro es' _
  have hout := (hprover.beside (fun _ _ => True) fun _ _ _ _ _ => trivial).run es'
  have htask : NotInLoop ((proverAmong cfg).run es').state.1 := hout
  refine ⟨fun h => ?_, fun v fromSlot toSlot taken k h => ?_⟩
  · simp [NotInLoop, h] at htask
  · simp [NotInLoop, h] at htask

/-- **No empty batch is flushed exactly where the size check is guarded.**  In every run of the
prover, with any entries, timer ticks, answers of the backend, crashes and restarts: no flush
unwraps an empty batch, and the mock backend can unwrap every batch it is handed, if and only if
no entry reaches the size check of an empty batch with room for no slot.  So all runs of a
configuration are safe if and only if its batches have room for a slot, or its timer cannot be
started. -/
theorem no_empty_flush_iff [Keccak256] (m : MockProver) (cfg : BatchConfig) :
    (∀ es, SafeFlushes m cfg es ↔
        (proverAmong cfg).Along (Stage.onLeft (SizeCheckGuarded cfg)) es) ∧
      ((∀ es, SafeFlushes m cfg es) ↔ 1 ≤ cfg.batchSize ∨ cfg.flushAfter = .ZERO) := by
  refine ⟨safeFlushes_iff m, fun hsafe => ?_, ?_⟩
  · by_contra hcfg
    rw [not_or] at hcfg
    obtain ⟨batchSize, flushAfter⟩ := cfg
    obtain rfl : batchSize = 0 := Nat.lt_one_iff.mp (not_le.mp hcfg.1)
    exact (hsafe readingCommit readingCommit List.prefix_rfl).1 (panicked_readingCommit hcfg.2)
  · rintro (hcfg | hzero) es
    · exact (safeFlushes_iff m es).mpr (along_guarded hcfg es)
    · exact safeFlushes_of_zero m hzero es

/-- A batch size of zero: the size check after the commit flushes an empty batch. -/
theorem empty_flush_readingCommit :
    ¬ ∀ (cfg : BatchConfig) (es : List (ProverEvent ⊕ Entry)),
      ((proverAmong cfg).run es).state.1 ≠ .panicked := by
  intro h
  have hpanicked := h ⟨0, ⟨5, 0⟩⟩ readingCommit
  revert hpanicked
  decide +kernel

end Zequencer
