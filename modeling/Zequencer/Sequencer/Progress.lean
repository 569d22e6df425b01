/-
# The sequencer gets to every entry

A sequencer that is not stopped and that gets its turns comes up, reads every entry of the log
in the end, however the others append meanwhile, and then closes a slot past it.
-/
import Zequencer.Lib.Endless
import Zequencer.Sequencer.Replay

namespace Zequencer

/-- What the sequencer can be about to do. -/
inductive SequencerTurn where
  | scan
  | readHead
  | doorbell
  | tick
  | append
deriving DecidableEq

/-- The task gets its turn; the turn of the doorbell is due where there is something to read. -/
def sequencerTurn : SequencerTurn → Log → SequencerTask → SequencerEvent → Prop
  | .scan, _, .down, .scan => True
  | .readHead, _, .recovering _, .readHead => True
  | .doorbell, log, .waiting _ cursor _, .doorbell n => cursor < log.length ∧ 0 < n
  | .tick, _, .waiting .., .tick _ => True
  | .append, _, .closing .., .append => True
  | _, _, _, _ => False

/-- The task runs, and has read the log up to a position. -/
def SequencerTask.Reaches (c : ℕ) : SequencerTask → Prop
  | .waiting _ cursor _ => c ≤ cursor
  | .closing _ _ _ cursor _ => c ≤ cursor
  | _ => False

/-- The task is closing a slot. -/
def SequencerTask.Closing : SequencerTask → Prop
  | .closing .. => True
  | _ => False

/-- The misses a close has still to record. -/
def SequencerTask.toRecord : SequencerTask → ℕ
  | .closing _ expired _ _ _ => expired.length
  | _ => 0

section Progress

variable [Keccak256] {g : GuaranteeConfig} {c : ℕ}

/-- A running task that is not stopped does not go back. -/
lemma SequencerTask.Reaches.step {log : Log} {task : SequencerTask} {e : SequencerEvent}
    (h : task.Reaches c) (htracks : Tracks g log task) (he : e ≠ .crash) :
    (sequencerStep g log task e).1.Reaches c := by
  cases task with
  | down | recovering | timerPanicked => exact h.elim
  | waiting buffer cursor nextSlot =>
    cases e with
    | crash => exact absurd rfl he
    | doorbell n =>
      obtain ⟨cursor', hle, -, hdrain⟩ := drain_take_readFrom htracks.1.upTo n buffer
      rw [sequencerStep, hdrain]
      exact le_trans h hle
    | _ => exact h
  | closing closedAt expired live cursor nextSlot =>
    cases e with
    | crash => exact absurd rfl he
    | append => cases expired <;> exact h
    | _ => exact h

omit [Keccak256] in
lemma drain_lt {log : Log} {buffer : List Pending} {cursor n : ℕ} (hcursor : cursor < log.length)
    (hn : 0 < n) : cursor < (drain ((log.readFrom cursor).take n) buffer cursor).2 := by
  obtain ⟨n, rfl⟩ : ∃ m, n = m + 1 := ⟨n - 1, by omega⟩
  have he : log[cursor]? = some log[cursor] := List.getElem?_eq_getElem hcursor
  have hnext : cursor + 1 ≤ log.length := hcursor
  obtain ⟨cursor', hle, -, hdrain⟩ := drain_take_readFrom hnext n
    (drain [(cursor, log[cursor])] buffer cursor).1
  have hcons : drain ((log.readFrom cursor).take (n + 1)) buffer cursor =
      drain ((log.readFrom (cursor + 1)).take n)
        (drain [(cursor, log[cursor])] buffer cursor).1 (cursor + 1) := by
    rw [Log.readFrom_eq_cons he, List.take_succ_cons]
    rfl
  rw [hcons, hdrain]
  exact hle

variable {log : ℕ → Log} {task : ℕ → SequencerTask} {event : ℕ → Option SequencerEvent}

/-- An endless run of the sequencer that is fair to it and does not stop it. -/
abbrev SequencerSteady (g : GuaranteeConfig) (log : ℕ → Log) (task : ℕ → SequencerTask)
    (event : ℕ → Option SequencerEvent) : Prop :=
  (sequencer g).SteadyRun sequencerTurn (fun log task => Replayable g log ∧ Tracks g log task)
    (· ≠ .crash) log task event

namespace SequencerSteady

lemma reaches_stable (h : SequencerSteady g log task event) (c : ℕ) (n : ℕ)
    (hn : (task n).Reaches c) : (task (n + 1)).Reaches c :=
  h.stable (P := fun _ task => task.Reaches c)
    (fun _ _ _ hinv he hreaches => hreaches.step hinv.2 he) (fun _ _ _ _ => id) n hn

lemma comes_up (h : SequencerSteady g log task event) (htimer : g.slotDuration ≠ .ZERO) :
    LeadsTo (fun _ => True) fun n => (task n).Reaches 0 := by
  refine h.starts .scan .readHead (· = .down) (fun task => ∃ s, task = .recovering s)
    (·.Reaches 0) ?_ ?_ ?_ ?_ ?_ ?_ ?_
  · rintro log task ⟨-, htracks⟩
    cases task with
    | down => exact Or.inl rfl
    | recovering s => exact Or.inr (Or.inl ⟨s, rfl⟩)
    | waiting | closing => exact Or.inr (Or.inr (Nat.zero_le _))
    | timerPanicked => exact absurd htracks htimer
  · rintro log _ e rfl he hturn
    cases e <;> first | rfl | exact absurd trivial hturn
  · rintro log _ rfl
    exact ⟨.scan, trivial⟩
  · rintro log _ e - rfl hturn
    cases e <;> first | exact ⟨_, rfl⟩ | exact hturn.elim
  · rintro log _ e ⟨s, rfl⟩ he hturn
    cases e <;> first | rfl | exact absurd trivial hturn | exact absurd rfl he
  · rintro log _ ⟨s, rfl⟩
    exact ⟨.readHead, trivial⟩
  · rintro (log : Log) _ e ⟨hlog, htracks⟩ ⟨s, rfl⟩ hturn
    cases e with
    | readHead =>
      obtain rfl : s = _ := htracks
      have hle : ¬ log.head < log.lastConsumed := not_lt.mpr hlog.lastConsumed_le
      show (sequencerStep g log _ _).1.Reaches 0
      simp only [sequencerStep, recover, if_neg hle, if_neg htimer]
      exact Nat.zero_le _
    | _ => exact hturn.elim

/-- A slot close comes to its end: the misses are recorded, and the slot is committed. -/
lemma closes (h : SequencerSteady g log task event) (c : ℕ) :
    LeadsTo (fun n => (task n).Closing ∧ (task n).Reaches c)
      fun n => ¬ (task n).Closing ∧ (task n).Reaches c ∧ c ≤ (log n).lastConsumed := by
  refine LeadsTo.of_measure (fun n => (task n).toRecord) fun k => ?_
  refine h.leadsTo_of_only .append
    (P := fun _ task => (task.Closing ∧ task.Reaches c) ∧ task.toRecord = k)
    (Q := fun log task => ((task.Closing ∧ task.Reaches c) ∧ task.toRecord < k) ∨
      (¬ task.Closing ∧ task.Reaches c ∧ c ≤ Log.lastConsumed log)) ?_ (fun _ _ _ _ => id) ?_ ?_
  · rintro log task e ⟨⟨hclosing, -⟩, -⟩ he hturn
    cases task with
    | closing => cases e <;> first | rfl | exact absurd trivial hturn | exact absurd rfl he
    | _ => exact hclosing.elim
  · rintro log task ⟨⟨hclosing, -⟩, -⟩
    cases task with
    | closing => exact ⟨.append, trivial⟩
    | _ => exact hclosing.elim
  · rintro log task e - ⟨⟨hclosing, hreaches⟩, hk⟩ hturn
    cases task with
    | closing closedAt expired live cursor nextSlot =>
      cases e with
      | append =>
        cases expired with
        | cons x expired =>
          refine Or.inl ⟨⟨trivial, hreaches⟩, ?_⟩
          rw [← hk]
          exact Nat.lt_succ_self _
        | nil =>
          refine Or.inr ⟨id, hreaches, ?_⟩
          show c ≤ Log.lastConsumed (log ++ [_])
          rw [Log.lastConsumed_append_slot]
          exact hreaches
      | _ => exact hturn.elim
    | _ => exact hclosing.elim

lemma reads (h : SequencerSteady g log task event) (htimer : g.slotDuration ≠ .ZERO) (c : ℕ) :
    LeadsTo (fun n => c ≤ (log n).length) fun n => (task n).Reaches c := by
  refine h.reads_all .doorbell (fun c task => task.Reaches c) (h.comes_up htimer)
    h.reaches_stable (fun c => ?_) (fun c => ?_) c
  · -- a close in between comes to its end
    have hwaits : LeadsTo (fun n => (task n).Reaches c)
        fun n => ¬ (task n).Closing ∧ (task n).Reaches c := by
      refine LeadsTo.cancel (Q := fun n => (task n).Closing ∧ (task n).Reaches c)
        (LeadsTo.of_imp fun n hn => ?_) ((h.closes c).imp fun n hn => ⟨hn.1, hn.2.1⟩)
      by_cases hclosing : (task n).Closing
      · exact Or.inl ⟨hclosing, hn⟩
      · exact Or.inr ⟨hclosing, hn⟩
    refine hwaits.imp fun n => ?_
    rintro ⟨hclosing, hreaches⟩
    cases htask : task n with
    | waiting buffer cursor nextSlot =>
      rw [htask] at hreaches
      rcases Nat.lt_or_ge c cursor with hc | hc
      · exact Or.inr hc
      · exact Or.inl fun hlt => ⟨.doorbell 1, lt_of_le_of_lt hc hlt, Nat.one_pos⟩
    | closing =>
      rw [htask] at hclosing
      exact absurd trivial hclosing
    | down | recovering | timerPanicked =>
      rw [htask] at hreaches
      exact hreaches.elim
  · refine h.leadsTo_of_done (P := fun _ task => task.Reaches c)
      (Q := fun _ task => task.Reaches (c + 1)) .doorbell ?_
    intro log task e hinv hreaches hturn
    cases task with
    | waiting buffer cursor nextSlot =>
      cases e with
      | doorbell n => exact lt_of_le_of_lt hreaches (drain_lt hturn.1 hturn.2)
      | _ => exact hturn.elim
    | _ => cases e <;> exact hturn.elim

/-- **The sequencer gets to every entry.**  However the others append, every entry of the log
is below the end of some slot one day. -/
theorem consumes (h : SequencerSteady g log task event) (htimer : g.slotDuration ≠ .ZERO)
    (p : ℕ) :
    LeadsTo (fun n => p < (log n).length) fun n => p < (log n).lastConsumed := by
  have htick : LeadsTo (fun n => ¬ (task n).Closing ∧ (task n).Reaches (p + 1))
      fun n => (task n).Closing ∧ (task n).Reaches (p + 1) := by
    refine h.leadsTo_of_turn .tick
      (P := fun _ task => ¬ task.Closing ∧ task.Reaches (p + 1))
      (Q := fun _ task => task.Closing ∧ task.Reaches (p + 1)) ?_ (fun _ _ _ _ => id) ?_ ?_
    · rintro log task e hinv he ⟨-, hreaches⟩
      have hreaches' := hreaches.step hinv.2 he
      by_cases hclosing : ((sequencer g).step log task e).1.Closing
      · exact Or.inr ⟨hclosing, hreaches'⟩
      · exact Or.inl ⟨hclosing, hreaches'⟩
    · rintro log task - ⟨hclosing, hreaches⟩
      cases task with
      | waiting => exact ⟨.tick 0, trivial⟩
      | closing => exact absurd trivial hclosing
      | down | recovering | timerPanicked => exact hreaches.elim
    · rintro log task e - ⟨-, hreaches⟩ hturn
      cases task with
      | waiting =>
        cases e with
        | tick closedAt => exact ⟨trivial, hreaches⟩
        | _ => exact hturn.elim
      | _ => cases e <;> exact hturn.elim
  have hcloses : LeadsTo (fun n => (task n).Reaches (p + 1))
      fun n => (task n).Closing ∧ (task n).Reaches (p + 1) :=
    LeadsTo.cancel (LeadsTo.of_imp fun n hn => by
      by_cases hclosing : (task n).Closing
      · exact Or.inr ⟨hclosing, hn⟩
      · exact Or.inl ⟨hclosing, hn⟩) htick
  exact ((h.reads htimer (p + 1)).trans hcloses).trans ((h.closes (p + 1)).imp fun _ hn => hn.2.2)

end SequencerSteady

end Progress

end Zequencer
