/-
# The attester gets to every slot

An attester that is not stopped, whose recoveries miss nothing and that gets its turns comes
up, and has ruled on every committed slot in the end.
-/
import Zequencer.Attester.Rulings
import Zequencer.Lib.Endless

namespace Zequencer

/-- What the attester can be about to do. -/
inductive AttesterTurn where
  | scan
  | readHead
  | doorbell
  | process
  | advance
deriving DecidableEq

/-- The task gets its turn; the turn of the doorbell is due where there is something to read. -/
def attesterTurn : AttesterTurn → Log → AttesterTask → AttesterEvent → Prop
  | .scan, _, .down, .scan => True
  | .readHead, _, .recovering _, .readHead => True
  | .doorbell, log, .waiting cursor, .doorbell n => cursor < log.length ∧ 0 < n
  | .process, _, .draining .., .process _ => True
  | .advance, _, .ruled .., .advance => True
  | _, _, _, _ => False

/-- The task runs, and what is below a position is behind it. -/
def AttesterTask.Reaches (c : ℕ) : AttesterTask → Prop
  | .waiting cursor => c ≤ cursor
  | .draining cursor _ => c ≤ cursor
  | .ruled pos _ _ => c ≤ pos + 1
  | _ => False

section Progress

variable [Keccak256] {c : ℕ}

/-- A running task that is not stopped does not go back. -/
lemma AttesterTask.Reaches.step {log : Log} {task : AttesterTask} {e : AttesterEvent}
    (h : task.Reaches c) (htracks : AttesterTracks log task) (he : e ≠ .crash) :
    (attesterStep log task e).1.Reaches c := by
  cases task with
  | down | recovering => exact h.elim
  | waiting cursor => cases e <;> first | exact h | exact absurd rfl he
  | ruled pos cursor batch => cases e <;> first | exact h | exact absurd rfl he
  | draining cursor batch =>
    cases e with
    | crash => exact absurd rfl he
    | process answer =>
      rcases batch with _ | ⟨⟨pos, entry⟩, batch⟩
      · exact h
      · obtain ⟨rfl, -, -⟩ := Log.cons_prefix_readFrom htracks.2
        have hnext : c ≤ pos + 1 := Nat.le_succ_of_le h
        cases entry <;> exact hnext
    | _ => exact h

omit [Keccak256] in
lemma AttesterTask.Reaches.mem_rulings {log : Log} {task : AttesterTask} {p : ℕ}
    {s : SlotCommitted} (h : task.Reaches (p + 1)) (hnum : Log.Numbered log)
    (hruled : Log.RuledInOrder log) (htracks : AttesterTracks log task)
    (hp : log[p]? = some (.slotCommitted s)) : s.slot ∈ log.rulings := by
  have hcaught : ∀ cursor, p + 1 ≤ cursor → CaughtUp log cursor → s.slot ∈ log.rulings := by
    intro cursor hle hcaught
    have hlt := (hnum.slot_lt_committedBelow (q := cursor) hp).mpr hle
    rw [hcaught.ruled] at hlt
    rw [hruled.slots]
    exact List.mem_range.mpr hlt
  cases task with
  | down | recovering => exact h.elim
  | waiting cursor => exact hcaught cursor h htracks
  | draining cursor batch => exact hcaught cursor h htracks.1
  | ruled pos cursor batch => exact hcaught (pos + 1) h htracks.2.1

variable {log : ℕ → Log} {task : ℕ → AttesterTask} {event : ℕ → Option AttesterEvent}

/-- An endless run of the attester that is fair to it and does not stop it. -/
abbrev AttesterSteady (log : ℕ → Log) (task : ℕ → AttesterTask)
    (event : ℕ → Option AttesterEvent) : Prop :=
  attester.SteadyRun attesterTurn (fun log task => Log.Numbered log ∧ AttesterInv log task)
    (· ≠ .crash) log task event

namespace AttesterSteady

lemma reaches_stable (h : AttesterSteady log task event) (c : ℕ) (n : ℕ)
    (hn : (task n).Reaches c) : (task (n + 1)).Reaches c :=
  h.stable (P := fun _ task => task.Reaches c)
    (fun _ _ _ hinv he hreaches => hreaches.step hinv.2.tracks he) (fun _ _ _ _ => id) n hn

lemma comes_up (h : AttesterSteady log task event) :
    LeadsTo (fun _ => True) fun n => (task n).Reaches 0 := by
  refine h.starts .scan .readHead (· = .down) (fun task => ∃ s, task = .recovering s)
    (·.Reaches 0) ?_ ?_ ?_ ?_ ?_ ?_ ?_
  · rintro log task -
    cases task with
    | down => exact Or.inl rfl
    | recovering s => exact Or.inr (Or.inl ⟨s, rfl⟩)
    | waiting | draining | ruled => exact Or.inr (Or.inr (Nat.zero_le _))
  · rintro log _ e rfl he hturn
    cases e <;> first | rfl | exact absurd trivial hturn
  · rintro log _ rfl
    exact ⟨.scan, trivial⟩
  · rintro log _ e - rfl hturn
    cases e <;> first | exact ⟨_, rfl⟩ | exact hturn.elim
  · rintro log _ e ⟨s, rfl⟩ he hturn
    cases e <;> first | rfl | exact absurd trivial hturn | exact absurd rfl he
  · rintro log _ ⟨s, rfl⟩
    exact ⟨.readHead, trivial⟩
  · rintro log _ e - ⟨s, rfl⟩ hturn
    cases e <;> first | exact Nat.zero_le _ | exact hturn.elim

lemma passes (h : AttesterSteady log task event) (c : ℕ) :
    LeadsTo (fun n => (task n).Reaches c ∧ ∃ cursor x batch, task n = .draining cursor (x :: batch))
      fun n => (task n).Reaches (c + 1) := by
  refine h.leadsTo_of_only .process
    (P := fun _ task => task.Reaches c ∧ ∃ cursor x batch, task = .draining cursor (x :: batch))
    (Q := fun _ task => task.Reaches (c + 1)) ?_ (fun _ _ _ _ => id) ?_ ?_
  · rintro log _ e ⟨-, cursor, x, batch, rfl⟩ he hturn
    cases e <;> first | rfl | exact absurd trivial hturn | exact absurd rfl he
  · rintro log _ ⟨-, cursor, x, batch, rfl⟩
    exact ⟨.process (.error (.unavailable "")), trivial⟩
  · rintro log _ e ⟨-, hinv⟩ ⟨hreaches, cursor, ⟨pos, entry⟩, batch, rfl⟩ hturn
    obtain ⟨rfl, -, -⟩ := Log.cons_prefix_readFrom hinv.tracks.2
    have hnext : c + 1 ≤ pos + 1 := Nat.succ_le_succ hreaches
    cases e with
    | process answer => cases entry <;> exact hnext
    | _ => exact hturn.elim

lemma waits (h : AttesterSteady log task event) (c : ℕ) :
    LeadsTo (fun n => (task n).Reaches c)
      fun n => (∃ cursor, task n = .waiting cursor ∧ c ≤ cursor) ∨ (task n).Reaches (c + 1) := by
  have hdrained : LeadsTo (fun n => (task n).Reaches c ∧ ∃ cursor, task n = .draining cursor [])
      fun n => (∃ cursor, task n = .waiting cursor ∧ c ≤ cursor) ∨ (task n).Reaches (c + 1) := by
    refine h.leadsTo_of_only .process
      (P := fun _ task => task.Reaches c ∧ ∃ cursor, task = .draining cursor [])
      (Q := fun _ task => (∃ cursor, task = .waiting cursor ∧ c ≤ cursor) ∨ task.Reaches (c + 1))
      ?_ (fun _ _ _ _ => id) ?_ ?_
    · rintro log _ e ⟨-, cursor, rfl⟩ he hturn
      cases e <;> first | rfl | exact absurd trivial hturn | exact absurd rfl he
    · rintro log _ ⟨-, cursor, rfl⟩
      exact ⟨.process (.error (.unavailable "")), trivial⟩
    · rintro log _ e - ⟨hreaches, cursor, rfl⟩ hturn
      cases e <;> first | exact Or.inl ⟨_, rfl, hreaches⟩ | exact hturn.elim
  have hpasses := (h.passes c).imp
    (R := fun n => (∃ cursor, task n = .waiting cursor ∧ c ≤ cursor) ∨ (task n).Reaches (c + 1))
    fun _ => Or.inr
  have hdraining : LeadsTo
      (fun n => (task n).Reaches c ∧ ∃ cursor batch, task n = .draining cursor batch)
      fun n => (∃ cursor, task n = .waiting cursor ∧ c ≤ cursor) ∨ (task n).Reaches (c + 1) := by
    refine LeadsTo.mono (hdrained.or hpasses) ?_ fun _ => id
    rintro n ⟨hreaches, cursor, batch, htask⟩
    cases batch with
    | nil => exact Or.inl ⟨hreaches, cursor, htask⟩
    | cons x batch => exact Or.inr ⟨hreaches, cursor, x, batch, htask⟩
  have hruled : LeadsTo
      (fun n => (task n).Reaches c ∧ ∃ pos cursor batch, task n = .ruled pos cursor batch)
      fun n => (task n).Reaches c ∧ ∃ cursor batch, task n = .draining cursor batch := by
    refine h.leadsTo_of_only .advance
      (P := fun _ task => task.Reaches c ∧ ∃ pos cursor batch, task = .ruled pos cursor batch)
      (Q := fun _ task => task.Reaches c ∧ ∃ cursor batch, task = .draining cursor batch)
      ?_ (fun _ _ _ _ => id) ?_ ?_
    · rintro log _ e ⟨-, pos, cursor, batch, rfl⟩ he hturn
      cases e <;> first | rfl | exact absurd trivial hturn | exact absurd rfl he
    · rintro log _ ⟨-, pos, cursor, batch, rfl⟩
      exact ⟨.advance, trivial⟩
    · rintro log _ e - ⟨hreaches, pos, cursor, batch, rfl⟩ hturn
      cases e <;> first | exact ⟨hreaches, _, _, rfl⟩ | exact hturn.elim
  refine LeadsTo.cancel (LeadsTo.of_imp fun n hn => ?_) (hdraining.or (hruled.trans hdraining))
  cases htask : task n with
  | down | recovering =>
    rw [htask] at hn
    exact hn.elim
  | waiting cursor =>
    rw [htask] at hn
    exact Or.inr (Or.inl ⟨cursor, rfl, hn⟩)
  | draining cursor batch => exact Or.inl (Or.inl ⟨htask ▸ hn, cursor, batch, rfl⟩)
  | ruled pos cursor batch => exact Or.inl (Or.inr ⟨htask ▸ hn, pos, cursor, batch, rfl⟩)

lemma reads (h : AttesterSteady log task event) (c : ℕ) :
    LeadsTo (fun n => c ≤ (log n).length) fun n => (task n).Reaches c := by
  refine h.reads_all .doorbell (fun c task => task.Reaches c) h.comes_up h.reaches_stable
    (fun c => ?_) (fun c => ?_) c
  · refine (h.waits c).imp ?_
    rintro n (⟨cursor, htask, hle⟩ | hreaches)
    · rcases Nat.lt_or_ge c cursor with hc | hc
      · exact Or.inr (htask ▸ hc)
      · exact Or.inl fun hlt =>
          ⟨.doorbell 1, htask ▸ ⟨lt_of_le_of_lt hc hlt, Nat.one_pos⟩⟩
    · exact Or.inr hreaches
  · refine (h.leadsTo_of_done (P := fun _ task => task.Reaches c)
      (Q := fun _ task => task.Reaches c ∧ ∃ cursor x batch, task = .draining cursor (x :: batch))
      .doorbell ?_).trans (h.passes c)
    intro log task e hinv hreaches hturn
    cases task with
    | waiting cursor =>
      cases e with
      | doorbell n =>
        obtain ⟨hlt, hn⟩ := hturn
        obtain ⟨n, rfl⟩ : ∃ m, n = m + 1 := ⟨n - 1, by omega⟩
        refine ⟨hreaches, cursor, (cursor, log[cursor]), (Log.readFrom log (cursor + 1)).take n, ?_⟩
        have hcons := Log.readFrom_eq_cons (List.getElem?_eq_getElem hlt)
        show AttesterTask.draining cursor ((Log.readFrom log cursor).take (n + 1)) = _
        rw [hcons, List.take_succ_cons]
      | _ => exact hturn.elim
    | _ => cases e <;> exact hturn.elim

/-- **The attester gets to every slot.**  However the others append, every slot of the log is
ruled on one day. -/
theorem rules (h : AttesterSteady log task event) (s : SlotCommitted) :
    LeadsTo (fun n => s ∈ (log n).commits) fun n => s.slot ∈ (log n).rulings := by
  intro n hn
  obtain ⟨p, hp⟩ := List.mem_iff_getElem?.mp (Log.mem_commits.mp hn)
  have hlt := (List.getElem?_eq_some_iff.mp hp).1
  obtain ⟨m, hnm, hm⟩ := h.reads (p + 1) n hlt
  obtain ⟨rest, hrest⟩ := h.view.log_prefix_of_le hnm
  obtain ⟨hnum, hinv⟩ := h.inv m
  refine ⟨m, hnm, hm.mem_rulings hnum hinv.ruled hinv.tracks (p := p) ?_⟩
  rw [← hrest, List.getElem?_append_left hlt]
  exact hp

end AttesterSteady

end Progress

end Zequencer
