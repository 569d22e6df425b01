/-
# The attester rules on each slot once

The cursor of the attester stands for what is ruled on: as many slots are committed below
it as are ruled on in the whole log.  A ruling and the step of the cursor past its slot
keep the balance, and so does recovery from a log that nobody is writing, wherever the
crash fell.
-/
import Zequencer.Log.Scan

namespace Zequencer

lemma Entry.committed?_of_ruling? {e : Entry} {slot : ℕ} (h : e.ruling? = some slot) :
    e.committed? = none := by
  cases e with
  | slotAttested | attestFailed => rfl
  | _ => simp [Entry.ruling?] at h

section Attester

variable [Keccak256] {log : Log}

/-! ### What one step of the task can do -/

/-- The moves of the task: what a step does, and when. -/
inductive AttesterMove (log : Log) :
    AttesterTask → AttesterEvent → AttesterTask → Option Entry → Prop
  | idle (task) (e) : AttesterMove log task e task none
  | stop (task) (e) : AttesterMove log task e .down none
  | scan : AttesterMove log .down .scan (.recovering (attesterScan log)) none
  | readHead (scanned : Scanned) :
      AttesterMove log (.recovering scanned) .readHead
        (.waiting (recoverAttester scanned log.head)) none
  | read (cursor n : ℕ) :
      AttesterMove log (.waiting cursor) (.doorbell n)
        (.draining cursor ((log.readFrom cursor).take n)) none
  | drained (cursor : ℕ) (answer : Except EnclaveError Quote) :
      AttesterMove log (.draining cursor []) (.process answer) (.waiting cursor) none
  | skip (cursor pos : ℕ) (e : Entry) (batch : List (ℕ × Entry))
      (answer : Except EnclaveError Quote) (he : e.committed? = none) :
      AttesterMove log (.draining cursor ((pos, e) :: batch)) (.process answer)
        (.draining (pos + 1) batch) none
  | rule (cursor pos : ℕ) (c : SlotCommitted) (batch : List (ℕ × Entry))
      (answer : Except EnclaveError Quote) :
      AttesterMove log (.draining cursor ((pos, .slotCommitted c) :: batch)) (.process answer)
        (.ruled pos cursor batch) (some (ruling c answer))
  | advance (pos cursor : ℕ) (batch : List (ℕ × Entry)) :
      AttesterMove log (.ruled pos cursor batch) .advance (.draining (pos + 1) batch) none

lemma attesterStep_move (log : Log) (task : AttesterTask) (e : AttesterEvent) :
    AttesterMove log task e (attesterStep log task e).1 (attesterStep log task e).2 := by
  cases e with
  | crash => cases task <;> exact .stop _ _
  | scan =>
    cases task with
    | down => exact .scan
    | _ => exact .idle _ _
  | readHead =>
    cases task with
    | recovering scanned => exact .readHead scanned
    | _ => exact .idle _ _
  | doorbell n =>
    cases task with
    | waiting cursor => exact .read cursor n
    | _ => exact .idle _ _
  | process answer =>
    cases task with
    | draining cursor batch =>
      rcases batch with _ | ⟨⟨pos, entry⟩, batch⟩
      · exact .drained cursor answer
      · cases entry with
        | slotCommitted c => exact .rule cursor pos c batch answer
        | _ => exact .skip cursor pos _ batch answer rfl
    | _ => exact .idle _ _
  | advance =>
    cases task with
    | ruled pos cursor batch => exact .advance pos cursor batch
    | _ => exact .idle _ _

lemma ruling_ruling? (c : SlotCommitted) (answer : Except EnclaveError Quote) :
    (ruling c answer).ruling? = some c.slot := by
  by_cases hne : commit c.slot c.intents ≠ c.commitment
  · simp [ruling, hne, Entry.ruling?]
  · cases answer <;> simp [ruling, hne, Entry.ruling?]

lemma ruling_committed? (c : SlotCommitted) (answer : Except EnclaveError Quote) :
    (ruling c answer).committed? = none := by
  by_cases hne : commit c.slot c.intents ≠ c.commitment
  · simp [ruling, hne, Entry.committed?]
  · cases answer <;> simp [ruling, hne, Entry.committed?]

/-- Only a slot whose contents reproduce its commitment is attested. -/
lemma commitment_of_ruling {c : SlotCommitted} {answer : Except EnclaveError Quote}
    {a : SlotAttested} (h : ruling c answer = .slotAttested a) :
    a.slot = c.slot ∧ c.commitment = commit c.slot c.intents := by
  unfold ruling at h
  by_cases hne : commit c.slot c.intents ≠ c.commitment
  · simp [hne] at h
  · rw [if_neg hne] at h
    cases answer with
    | error e => simp at h
    | ok q => exact ⟨by rw [← Entry.slotAttested.inj h], (not_ne_iff.mp hne).symm⟩

/-! ### Whatever the schedule -/

/-- The batch in hand is in the log. -/
def AttesterReads (log : Log) : AttesterTask → Prop
  | .draining _ batch => ∀ x ∈ batch, log[x.1]? = some x.2
  | .ruled _ _ batch => ∀ x ∈ batch, log[x.1]? = some x.2
  | _ => True

/-- What the attester writes: rulings on slots of the log. -/
def AttesterWrites (log : Log) (e : Entry) : Prop :=
  ∃ c ∈ log.commits, ∃ answer, e = ruling c answer

omit [Keccak256] in
lemma AttesterReads.append {task : AttesterTask} (h : AttesterReads log task) (log' : Log) :
    AttesterReads (log ++ log') task := by
  have hmem : ∀ x : ℕ × Entry, log[x.1]? = some x.2 → (log ++ log')[x.1]? = some x.2 := by
    intro x hx
    rw [List.getElem?_append_left (List.getElem?_eq_some_iff.mp hx).1]
    exact hx
  cases task with
  | draining cursor batch => exact fun x hx => hmem x (h x hx)
  | ruled pos cursor batch => exact fun x hx => hmem x (h x hx)
  | _ => trivial

lemma AttesterMove.reads {task task' : AttesterTask} {e : AttesterEvent} {o : Option Entry}
    (hmove : AttesterMove log task e task' o) (h : AttesterReads log task) :
    AttesterReads (log ++ o.toList) task' := by
  cases hmove with
  | idle => exact h.append _
  | stop | scan | readHead | drained => trivial
  | read cursor n =>
    intro x hx
    simpa using (Log.mem_readFrom.mp (List.mem_of_mem_take hx)).2
  | skip cursor pos e batch =>
    intro x hx
    simpa using h x (List.mem_cons_of_mem _ hx)
  | rule cursor pos c batch answer =>
    have hrest : AttesterReads log (.ruled pos cursor batch) :=
      fun x hx => h x (List.mem_cons_of_mem _ hx)
    exact hrest.append _
  | advance =>
    intro x hx
    simpa using h x hx

/-- What a numbered log is appended to with: slots come with the next number. -/
def CommitsNext (log : Log) (e : Entry) : Prop := ∀ c ∈ e.committed?, c.slot = log.commits.length

instance (log : Log) : DecidablePred (CommitsNext log) := fun e =>
  inferInstanceAs (Decidable (∀ c ∈ e.committed?, c.slot = log.commits.length))

omit [Keccak256] in
lemma Log.Numbered.append {e : Entry} (h : Log.Numbered log) (he : CommitsNext log e) :
    Log.Numbered (log ++ [e]) := by
  cases hc : e.committed? with
  | none => exact h.append_of_none hc
  | some c =>
    obtain rfl := Entry.committed?_eq_some.mp hc
    exact h.append_slot (he c rfl)

/-- Beside stages that number their slots, the log stays numbered; the attester rules on
slots of the log only. -/
lemma attester_upholds :
    attester.Upholds CommitsNext AttesterWrites
      (fun log task => Log.Numbered log ∧ AttesterReads log task) := by
  have hemits : ∀ log task e x, AttesterReads log task →
      (attesterStep log task e).2 = some x → AttesterWrites log x := by
    intro log task e x h hx
    have hmove := attesterStep_move log task e
    rw [hx] at hmove
    generalize (attesterStep log task e).1 = task' at hmove
    cases hmove with
    | rule cursor pos c batch answer =>
      have hc := h _ List.mem_cons_self
      exact ⟨c, Log.mem_commits_of_getElem? hc, answer, rfl⟩
  refine ⟨⟨Log.Numbered.nil, trivial⟩, ?_, ?_, ?_⟩
  · intro log task e h
    refine ⟨?_, (attesterStep_move log task e).reads h.2⟩
    refine Stage.append_toList (P := Log.Numbered) h.1 fun x hx => ?_
    obtain ⟨c, -, answer, rfl⟩ := hemits log task e x h.2 hx
    exact h.1.append_of_none (ruling_committed? c answer)
  · exact fun log task e x h hx => hemits log task e x h.2 hx
  · exact fun log task x h hx => ⟨h.1.append hx, h.2.append [x]⟩

/-! ### The cursor stands for what is ruled on -/

/-- Recovery runs on a log that nobody is writing: what the scan found is still there when
the head is read. -/
def AttesterQuiescent (log : Log) : AttesterTask → AttesterEvent → Prop
  | .recovering scanned, .readHead => scanned = attesterScan log
  | _, _ => True

instance (log : Log) (task : AttesterTask) (e : AttesterEvent) :
    Decidable (AttesterQuiescent log task e) := by
  cases task <;> cases e <;> unfold AttesterQuiescent <;> infer_instance

/-- Recovery misses nothing between its scan and the reading of the head. -/
def AttesterCovers (log : Log) : AttesterTask → AttesterEvent → Prop
  | .recovering scanned, .readHead =>
    ∃ n, scanned = attesterScan (log.take n) ∧
      (Log.rulings (log.take n) = [] ∨ ScanCovers Entry.ruling? (log.take n) log)
  | _, _ => True

omit [Keccak256] in
lemma AttesterQuiescent.covers {task : AttesterTask} {e : AttesterEvent}
    (h : AttesterQuiescent log task e) : AttesterCovers log task e := by
  unfold AttesterCovers
  split
  · rename_i scanned
    have hscanned : scanned = attesterScan log := h
    refine ⟨log.length, ?_, Or.inr ?_⟩
    · rwa [List.take_length]
    · rw [List.take_length]
      exact ScanCovers.refl
  · trivial

/-- As many slots are committed below the cursor as are ruled on. -/
structure CaughtUp (log : Log) (cursor : ℕ) : Prop where
  upTo : cursor ≤ log.length
  ruled : log.committedBelow cursor = log.rulings.length

/-- How the private state of the attester follows the log. -/
def AttesterTracks (log : Log) : AttesterTask → Prop
  | .recovering scanned => IsNewest log.rulings scanned.doneThrough
  | .waiting cursor => CaughtUp log cursor
  | .draining cursor batch => CaughtUp log cursor ∧ batch <+: log.readFrom cursor
  | .ruled pos cursor batch =>
    cursor ≤ pos ∧ CaughtUp log (pos + 1) ∧ batch <+: log.readFrom (pos + 1)
  | _ => True

/-- Only slots whose contents reproduce their commitment are attested. -/
def HonestlyAttested (log : Log) : Prop :=
  ∀ a, .slotAttested a ∈ log → ∀ c ∈ log.commits, c.slot = a.slot →
    c.commitment = commit c.slot c.intents

omit [Keccak256] in
lemma CaughtUp.append_of_none {cursor : ℕ} {e : Entry} (h : CaughtUp log cursor)
    (he : e.ruling? = none) : CaughtUp (log ++ [e]) cursor where
  upTo := by
    have hlen := h.upTo
    rw [List.length_append]
    omega
  ruled := by
    rw [Log.committedBelow, Log.countBelow_append h.upTo, Log.rulings_append_of_none he]
    exact h.ruled

omit [Keccak256] in
lemma AttesterTracks.append_of_none {task : AttesterTask} {e : Entry}
    (h : AttesterTracks log task) (he : e.ruling? = none) :
    AttesterTracks (log ++ [e]) task := by
  cases task with
  | recovering scanned =>
    show IsNewest (Log.rulings (log ++ [e])) scanned.doneThrough
    rw [Log.rulings_append_of_none he]
    exact h
  | waiting cursor => exact CaughtUp.append_of_none h he
  | draining cursor batch =>
    exact ⟨h.1.append_of_none he, h.2.trans (Log.readFrom_prefix_append h.1.upTo [e])⟩
  | ruled pos cursor batch =>
    obtain ⟨hle, hcaught, hbatch⟩ := h
    exact ⟨hle, hcaught.append_of_none he,
      hbatch.trans (Log.readFrom_prefix_append hcaught.upTo [e])⟩
  | _ => trivial

omit [Keccak256] in
lemma isNewest_attesterScan (log : Log) :
    IsNewest log.rulings (attesterScan log).doneThrough :=
  isNewest_scanLog log fun _ => rfl

omit [Keccak256] in
lemma recoverAttester_of_rulings_eq_nil (h : log.rulings = []) (head : ℕ) :
    recoverAttester (attesterScan log) head = 0 := by
  rw [recoverAttester, (isNewest_attesterScan log).eq_none_iff.mpr h]

omit [Keccak256] in
lemma recoverAttester_of_some {s : Scanned} {last head : ℕ} (h : s.doneThrough = some last) :
    recoverAttester s head = s.resume head := by
  have hnext : s.nextSlot = last + 1 := by rw [Scanned.nextSlot, h, Option.elim_some]
  rw [recoverAttester, h, Scanned.resume, hnext]

omit [Keccak256] in
/-- A recovery that misses nothing finds the cursor that stands for what is ruled on. -/
lemma AttesterCovers.caughtUp {scanned : Scanned}
    (h : AttesterCovers log (.recovering scanned) .readHead) (hnum : Log.Numbered log)
    (hruled : Log.RuledInOrder log) (hnewest : IsNewest log.rulings scanned.doneThrough) :
    CaughtUp log (recoverAttester scanned log.head) := by
  obtain ⟨n, rfl, hcovers⟩ := h
  have hnext : (attesterScan (log.take n)).nextSlot = log.rulings.length := by
    rw [hruled.slots] at hnewest
    exact hnewest.next_of_range
  cases hd : (attesterScan (log.take n)).doneThrough with
  | none =>
    have hnone := hnewest.eq_none_iff.mp hd
    rw [recoverAttester, hd]
    exact ⟨Nat.zero_le _, by rw [hnone]; rfl⟩
  | some last =>
    -- something is ruled on in the scanned part
    have hne : Log.rulings (log.take n) ≠ [] := by
      intro hnil
      rw [(isNewest_attesterScan (log.take n)).eq_none_iff.mpr hnil] at hd
      simp at hd
    have hlog : log.take n ++ log.drop n = log := List.take_append_drop n log
    have hcovers' : ScanCovers Entry.ruling? (log.take n) (log.take n ++ log.drop n) := by
      rw [hlog]
      exact hcovers.resolve_left hne
    have hresume := hcovers'.committedBelow_resume (by rwa [hlog]) (fun _ => rfl) ?_
    · rw [hlog] at hresume
      rw [recoverAttester_of_some hd]
      exact ⟨hresume.1, hresume.2.trans hnext⟩
    · intro d hd
      rw [hlog]
      have hmem : d ∈ log.rulings := ((List.take_sublist n log).filterMap _).mem hd
      exact hruled.after.exists_commit hmem

/-- What the log and the attester keep, as long as recovery is quiet. -/
structure AttesterInv (log : Log) (task : AttesterTask) : Prop where
  ruled : Log.RuledInOrder log
  honest : HonestlyAttested log
  tracks : AttesterTracks log task

lemma AttesterMove.inv {task task' : AttesterTask} {e : AttesterEvent} {o : Option Entry}
    (hmove : AttesterMove log task e task' o) (hnum : Log.Numbered log)
    (hcovers : AttesterCovers log task e) (h : AttesterInv log task) :
    AttesterInv (log ++ o.toList) task' := by
  obtain ⟨hruled, hhonest, htracks⟩ := h
  -- where nothing is appended, only the task moves
  have hstill : ∀ task, AttesterTracks log task →
      AttesterInv (log ++ (none : Option Entry).toList) task := by
    intro task h
    simpa using AttesterInv.mk hruled hhonest h
  cases hmove with
  | idle => exact hstill _ htracks
  | stop => exact hstill _ trivial
  | scan => exact hstill (.recovering _) (isNewest_attesterScan log)
  | readHead scanned => exact hstill (.waiting _) (hcovers.caughtUp hnum hruled htracks)
  | read cursor n => exact hstill (.draining _ _) ⟨htracks, List.take_prefix _ _⟩
  | drained cursor answer => exact hstill (.waiting _) htracks.1
  | advance pos cursor batch => exact hstill (.draining _ _) ⟨htracks.2.1, htracks.2.2⟩
  | skip cursor pos e batch answer he =>
    obtain ⟨hcaught, hbatch⟩ := htracks
    obtain ⟨rfl, hget, hrest⟩ := Log.cons_prefix_readFrom hbatch
    have hcount : log.committedBelow (pos + 1) = log.committedBelow pos := by
      rw [Log.committedBelow, Log.countBelow_succ hget, he]
      rfl
    have hcaught' : CaughtUp log (pos + 1) :=
      ⟨(List.getElem?_eq_some_iff.mp hget).1, hcount.trans hcaught.ruled⟩
    exact hstill (.draining _ _) ⟨hcaught', hrest⟩
  | rule cursor pos c batch answer =>
    obtain ⟨hcaught, hbatch⟩ := htracks
    obtain ⟨rfl, hget, hrest⟩ := Log.cons_prefix_readFrom hbatch
    have hlt : pos < log.length := (List.getElem?_eq_some_iff.mp hget).1
    have hslot : c.slot = log.rulings.length := (hnum.slot_eq hget).trans hcaught.ruled
    rw [Option.toList_some]
    refine ⟨hruled.append_ruling (ruling_ruling? c answer) hslot
      ⟨c, Log.mem_commits_of_getElem? hget, rfl⟩, ?_, le_rfl, ⟨?_, ?_⟩,
      hrest.trans (Log.readFrom_prefix_append hlt _)⟩
    · intro a ha c' hc' hca
      rw [Log.commits_concat_of_none (ruling_committed? c answer)] at hc'
      rcases List.mem_append.mp ha with ha | ha
      · exact hhonest a ha c' hc' hca
      · have hrule := (List.mem_singleton.mp ha).symm
        obtain ⟨has, hcommit⟩ := commitment_of_ruling hrule
        obtain rfl := hnum.eq_of_slot_eq hc' (Log.mem_commits_of_getElem? hget) (hca.trans has)
        exact hcommit
    · rw [List.length_append]
      omega
    · have hcount : log.committedBelow (pos + 1) = log.committedBelow pos + 1 :=
        Log.countBelow_succ hget
      rw [Log.committedBelow, Log.countBelow_append hlt,
        Log.rulings_append_of_some (ruling_ruling? c answer), List.length_append,
        List.length_singleton, ← hcaught.ruled]
      exact hcount

lemma AttesterInv.append_of_none {task : AttesterTask} {e : Entry} (h : AttesterInv log task)
    (hnum : Log.Numbered log) (hcommit : CommitsNext log e) (he : e.ruling? = none) :
    AttesterInv (log ++ [e]) task where
  ruled := h.ruled.append_of_none he
  tracks := h.tracks.append_of_none he
  honest := by
    intro a ha c hc hca
    have ha' : .slotAttested a ∈ log := by
      rcases List.mem_append.mp ha with ha | ha
      · exact ha
      · obtain rfl := List.mem_singleton.mp ha
        simp [Entry.ruling?] at he
    rw [Log.commits_append, List.mem_append] at hc
    rcases hc with hc | hc
    · exact h.honest a ha' c hc hca
    · -- an attested slot is committed already, so the new slot is another one
      have hmem : a.slot ∈ log.rulings := List.mem_filterMap.mpr ⟨_, ha', rfl⟩
      have hlt := (h.ruled.lt_of_mem hmem).trans_le (h.ruled.length_le hnum)
      have hnew : c ∈ e.committed? := by
        simpa [Log.commits, Option.mem_def] using hc
      have hslot := hcommit c hnew
      omega

/-! ### Runs of the attester -/

/-- Entries of the others: numbered slots, and anything that is not a ruling. -/
def BesideAttester (log : Log) (e : Entry) : Prop := CommitsNext log e ∧ e.ruling? = none

instance (log : Log) : DecidablePred (BesideAttester log) := fun _ =>
  inferInstanceAs (Decidable (_ ∧ _))

/-- The attester beside stages that number their slots and rule on none. -/
def attesterSystem : Stage Entry (AttesterTask × Unit) (AttesterEvent ⊕ Entry) :=
  attester.par (Stage.surroundings BesideAttester)

/-- The cursor of a running task. -/
def AttesterTask.cursor? : AttesterTask → Option ℕ
  | .waiting cursor => some cursor
  | .draining cursor _ => some cursor
  | .ruled _ cursor _ => some cursor
  | _ => none

omit [Keccak256] in
/-- With the cursor at the head, every committed slot is ruled on. -/
lemma AttesterTracks.ruled_of_cursor {task : AttesterTask} {c : SlotCommitted}
    (h : AttesterTracks log task) (hnum : Log.Numbered log) (hruled : Log.RuledInOrder log)
    (hcursor : task.cursor? = some log.head) (hc : c ∈ log.commits) : c.slot ∈ log.rulings := by
  have hcaught : CaughtUp log log.head := by
    cases task with
    | waiting cursor =>
      obtain rfl : cursor = log.head := Option.some.inj hcursor
      exact h
    | draining cursor batch =>
      obtain rfl : cursor = log.head := Option.some.inj hcursor
      exact h.1
    | ruled pos cursor batch =>
      -- the slot just ruled on is at the cursor or above, and below the head
      obtain ⟨hle, hcaught, -⟩ := h
      have hupTo := hcaught.upTo
      have hhead : cursor = log.length := Option.some.inj hcursor
      omega
    | _ => simp [AttesterTask.cursor?] at hcursor
  have hall : log.committedBelow log.length = log.commits.length :=
    Log.countBelow_of_length_le le_rfl
  have hlt := hnum.slot_lt hc
  have hlen : log.committedBelow log.length = log.rulings.length := hcaught.ruled
  exact hruled.mem_of_lt (by omega)

/-- **The attester rules once on each slot.**  In every run beside stages that number their
slots and rule on none, with crashes anywhere and recovery on a log that nobody is writing:
the rulings are for the slots from zero on, in order, each after its slot is committed; a
slot whose contents do not reproduce its commitment is never attested; and with the cursor
at the head every committed slot is ruled on. -/
theorem ruled_once (es : List (AttesterEvent ⊕ Entry))
    (hes : attesterSystem.Along (Stage.onLeft AttesterQuiescent) es) :
    let log : Log := (attesterSystem.run es).log
    log.rulings = List.range log.rulings.length ∧
      (∀ (q : ℕ) (e : Entry) (slot : ℕ), log[q]? = some e → e.ruling? = some slot →
        ∃ (p : ℕ) (c : SlotCommitted), p < q ∧ log[p]? = some (.slotCommitted c) ∧ c.slot = slot) ∧
      (∀ c ∈ log.commits, c.commitment ≠ commit c.slot c.intents →
        ∀ a, .slotAttested a ∈ log → a.slot ≠ c.slot) ∧
      ((attesterSystem.run es).state.1.cursor? = some log.head →
        ∀ c ∈ log.commits, c.slot ∈ log.rulings) := by
  intro log
  have hbase := attester_upholds.beside BesideAttester fun _ _ _ _ he => he.1
  have hnum : Log.Numbered log := (hbase.run es).1
  have hinv : AttesterInv log (attesterSystem.run es).state.1 := by
    refine hbase.along_left (J := AttesterInv)
      ⟨Log.RuledInOrder.nil, by simp [HonestlyAttested], trivial⟩ ?_ ?_ es hes
    · intro log task t e hI h hquiet
      exact (attesterStep_move log task e).inv hI.1 hquiet.covers h
    · intro log task t d x hI h hx
      obtain ⟨rfl, hok⟩ := Stage.surroundings_step_eq_some hx
      exact h.append_of_none hI.1 hok.1 hok.2
  refine ⟨hinv.ruled.slots, hinv.ruled.after, ?_, ?_⟩
  · intro c hc hne a ha hac
    exact hne (hinv.honest a ha c hc hac.symm)
  · intro hcursor c hc
    exact hinv.tracks.ruled_of_cursor hnum hinv.ruled hcursor hc

/-- Two slots are committed, the second with a commitment that is not its own.  The attester
crashes between the first ruling and the step of its cursor. -/
def crashAfterRuling : List (AttesterEvent ⊕ Entry) :=
  [.inr (.slotCommitted ⟨0, [], 0, @commit fixtureKeccak 0 [], testNow⟩),
    .inl .scan, .inl .readHead, .inl (.doorbell 1), .inl (.process (.ok ⟨[1], ⟨Bytes.ofNat 32 1⟩⟩)),
    .inl .crash,
    .inr (.slotCommitted ⟨1, [], 0, @commit fixtureKeccak 0 [], testNow⟩),
    .inl .scan, .inl .readHead, .inl (.doorbell 3), .inl (.process (.ok ⟨[2], ⟨Bytes.ofNat 32 2⟩⟩)),
    .inl .advance]

omit [Keccak256] in
theorem ruled_once_crashAfterRuling :
    Log.rulings ((@attesterSystem fixtureKeccak).run crashAfterRuling).log = [0, 1] := by
  have hruled := (@ruled_once fixtureKeccak crashAfterRuling (by decide +kernel)).1
  rw [hruled]
  decide +kernel

end Attester

end Zequencer
