/-
# Endless runs of stages

An endless schedule and its worlds, and how a stage sees them: at every moment either the
stage reacts to an event of its own, or others may append.  Stages side by side see the same
run, each from its own side, and what is fair to all of them is fair to each.
-/
import Mathlib.Data.Sum.Basic
import Zequencer.Lib.Fairness
import Zequencer.Lib.Stage

namespace Stage

variable {E σ τ ε δ ι κ : Type*} {S : Stage E σ ε} {T : Stage E τ δ}

/-- The world after the first `n` events of an endless schedule. -/
def after (S : Stage E σ ε) (f : ℕ → ε) (n : ℕ) : World E σ := S.run ((List.range n).map f)

lemma after_succ (f : ℕ → ε) (n : ℕ) : S.after f (n + 1) = S.next (S.after f n) (f n) := by
  rw [after, List.range_succ, List.map_append, List.map_singleton, run_concat, after]

lemma along_range_map {C : List E → σ → ε → Prop} {f : ℕ → ε}
    (h : ∀ n, C (S.after f n).log (S.after f n).state (f n)) (n : ℕ) :
    S.Along C ((List.range n).map f) := by
  induction n with
  | zero => trivial
  | succ n ih =>
    rw [List.range_succ, List.map_append, List.map_singleton]
    exact alongFrom_append.mpr ⟨ih, h n, trivial⟩

lemma of_along_range_map {C : List E → σ → ε → Prop} {f : ℕ → ε}
    (h : ∀ n, S.Along C ((List.range n).map f)) (n : ℕ) :
    C (S.after f n).log (S.after f n).state (f n) := by
  have hsucc := h (n + 1)
  rw [List.range_succ, List.map_append, List.map_singleton] at hsucc
  exact hsucc.last

/-! ### What a stage sees -/

/-- An endless run as a stage sees it. -/
structure View (S : Stage E σ ε) (log : ℕ → List E) (state : ℕ → σ) (event : ℕ → Option ε) :
    Prop where
  own : ∀ n e, event n = some e → log (n + 1) = log n ++ (S.step (log n) (state n) e).2.toList ∧
    state (n + 1) = (S.step (log n) (state n) e).1
  others : ∀ n, event n = none → log n <+: log (n + 1) ∧ state (n + 1) = state n

lemma view_after (S : Stage E σ ε) (f : ℕ → ε) :
    S.View (fun n => (S.after f n).log) (fun n => (S.after f n).state) fun n => some (f n) where
  own := by
    rintro n e he
    obtain rfl := Option.some.inj he
    simp only [after_succ]
    exact ⟨rfl, rfl⟩
  others := by simp

namespace View

variable {log : ℕ → List E}

lemma log_prefix_succ {state : ℕ → σ} {event : ℕ → Option ε} (h : S.View log state event)
    (n : ℕ) : log n <+: log (n + 1) := by
  cases he : event n with
  | none => exact (h.others n he).1
  | some e =>
    rw [(h.own n e he).1]
    exact List.prefix_append _ _

lemma log_prefix_of_le {state : ℕ → σ} {event : ℕ → Option ε} (h : S.View log state event) {n m : ℕ}
    (hnm : n ≤ m) : log n <+: log m := by
  induction m, hnm using Nat.le_induction with
  | base => exact List.prefix_rfl
  | succ m _ ih => exact ih.trans (h.log_prefix_succ m)

lemma shift {state : ℕ → σ} {event : ℕ → Option ε} (h : S.View log state event) (k : ℕ) :
    S.View (fun n => log (k + n)) (fun n => state (k + n)) fun n => event (k + n) where
  own := fun n e he => h.own (k + n) e he
  others := fun n he => h.others (k + n) he

lemma left {state : ℕ → σ × τ} {event : ℕ → Option (ε ⊕ δ)} (h : (S.par T).View log state event) :
    S.View log (fun n => (state n).1) fun n => (event n).bind Sum.getLeft? where
  own := by
    intro n e he
    obtain ⟨e', he', hleft⟩ := Option.bind_eq_some_iff.mp he
    obtain rfl := Sum.getLeft?_eq_some_iff.mp hleft
    obtain ⟨hlog, hstate⟩ := h.own n _ he'
    exact ⟨hlog, congrArg Prod.fst hstate⟩
  others := by
    intro n he
    cases he' : event n with
    | none =>
      obtain ⟨hlog, hstate⟩ := h.others n he'
      exact ⟨hlog, congrArg Prod.fst hstate⟩
    | some e =>
      cases e with
      | inl e => simp [he'] at he
      | inr d =>
        refine ⟨h.log_prefix_succ n, ?_⟩
        show (state (n + 1)).1 = (state n).1
        rw [(h.own n _ he').2, par_step_inr]

lemma right {state : ℕ → σ × τ} {event : ℕ → Option (ε ⊕ δ)}
    (h : (S.par T).View log state event) :
    T.View log (fun n => (state n).2) fun n => (event n).bind Sum.getRight? where
  own := by
    intro n e he
    obtain ⟨e', he', hright⟩ := Option.bind_eq_some_iff.mp he
    obtain rfl := Sum.getRight?_eq_some_iff.mp hright
    obtain ⟨hlog, hstate⟩ := h.own n _ he'
    exact ⟨hlog, congrArg Prod.snd hstate⟩
  others := by
    intro n he
    cases he' : event n with
    | none =>
      obtain ⟨hlog, hstate⟩ := h.others n he'
      exact ⟨hlog, congrArg Prod.snd hstate⟩
    | some e =>
      cases e with
      | inl e =>
        refine ⟨h.log_prefix_succ n, ?_⟩
        show (state (n + 1)).2 = (state n).2
        rw [(h.own n _ he').2, par_step_inl]
      | inr d => simp [he'] at he

end View

/-! ### What is fair to a stage -/

/-- A move is made again and again if it is possible again and again. -/
def FairTo (move : List E → σ → ε → Prop) (log : ℕ → List E) (state : ℕ → σ)
    (event : ℕ → Option ε) : Prop :=
  StronglyFair (fun n => ∃ e, move (log n) (state n) e)
    fun n => ∃ e, event n = some e ∧ move (log n) (state n) e

/-- The moves of two stages side by side. -/
def parMove (move : ι → List E → σ → ε → Prop) (move' : κ → List E → τ → δ → Prop) :
    ι ⊕ κ → List E → σ × τ → ε ⊕ δ → Prop
  | .inl c, log, s, .inl e => move c log s.1 e
  | .inr c, log, s, .inr d => move' c log s.2 d
  | _, _, _, _ => False

variable {log : ℕ → List E} {move : ι → List E → σ → ε → Prop}
  {move' : κ → List E → τ → δ → Prop}

lemma FairTo.shift {state : ℕ → σ} {event : ℕ → Option ε} {move : List E → σ → ε → Prop}
    (h : FairTo move log state event) (k : ℕ) :
    FairTo move (fun n => log (k + n)) (fun n => state (k + n)) fun n => event (k + n) :=
  StronglyFair.shift h k

lemma FairTo.left {state : ℕ → σ × τ} {event : ℕ → Option (ε ⊕ δ)} {c : ι}
    (h : FairTo (parMove move move' (.inl c)) log state event) :
    FairTo (move c) log (fun n => (state n).1) fun n => (event n).bind Sum.getLeft? := by
  refine StronglyFair.mono h ?_ ?_
  · rintro n ⟨e, he⟩
    exact ⟨.inl e, he⟩
  · rintro n ⟨e | d, he, hmove⟩
    · exact ⟨e, by simp [he], hmove⟩
    · exact hmove.elim

lemma FairTo.right {state : ℕ → σ × τ} {event : ℕ → Option (ε ⊕ δ)} {c : κ}
    (h : FairTo (parMove move move' (.inr c)) log state event) :
    FairTo (move' c) log (fun n => (state n).2) fun n => (event n).bind Sum.getRight? := by
  refine StronglyFair.mono h ?_ ?_
  · rintro n ⟨d, hd⟩
    exact ⟨.inr d, hd⟩
  · rintro n ⟨e | d, he, hmove⟩
    · exact hmove.elim
    · exact ⟨d, by simp [he], hmove⟩

/-- A schedule, and an endless one after it. -/
def following (es : List ε) (f : ℕ → ε) (n : ℕ) : ε := es[n]?.getD (f (n - es.length))

lemma following_add (es : List ε) (f : ℕ → ε) (n : ℕ) :
    following es f (es.length + n) = f n := by
  rw [following, List.getElem?_eq_none (Nat.le_add_right _ n), Option.getD_none,
    Nat.add_sub_cancel_left]

lemma map_range_following (es : List ε) (f : ℕ → ε) (n : ℕ) :
    (List.range (es.length + n)).map (following es f) = es ++ (List.range n).map f := by
  rw [List.range_add, List.map_append, List.map_map]
  congr 1
  · refine List.ext_getElem (by simp) fun i _ hi => ?_
    rw [List.getElem_map, List.getElem_range, following, List.getElem?_eq_getElem hi,
      Option.getD_some]
  · exact List.map_congr_left fun i _ => following_add es f i

lemma after_following (S : Stage E σ ε) (es : List ε) (f : ℕ → ε) (n : ℕ) :
    S.after (following es f) (es.length + n) = S.run (es ++ (List.range n).map f) := by
  rw [after, map_range_following]

/-- What holds of every event of an endless schedule after another. -/
lemma alongFrom_following {C : List E → σ → ε → Prop} {es : List ε} {f : ℕ → ε}
    (hf : ∀ n, C (S.after (following es f) (es.length + n)).log
      (S.after (following es f) (es.length + n)).state (f n)) (n : ℕ) :
    S.AlongFrom C (S.run es) ((List.range n).map f) := by
  induction n with
  | zero => trivial
  | succ n ih =>
    rw [List.range_succ, List.map_append, List.map_singleton]
    refine alongFrom_append.mpr ⟨ih, ?_, trivial⟩
    have hn := hf n
    rwa [after_following, run_append] at hn

lemma along_following {C : List E → σ → ε → Prop} {es : List ε} {f : ℕ → ε} (hes : S.Along C es)
    (hf : ∀ n, C (S.after (following es f) (es.length + n)).log
      (S.after (following es f) (es.length + n)).state (f n)) (n : ℕ) :
    S.Along C ((List.range n).map (following es f)) := by
  have hall : S.Along C (es ++ (List.range n).map f) :=
    alongFrom_append.mpr ⟨hes, alongFrom_following hf n⟩
  refine hall.of_prefix ?_
  rw [← map_range_following, Nat.add_comm, List.range_add, List.map_append]
  exact List.prefix_append _ _

/-- Every schedule can be continued fairly to finitely many moves, with nothing else happening
than an idle event where no move is possible. -/
theorem exists_fair_following (S : Stage E σ ε) (es : List ε) (move : ι → List E → σ → ε → Prop)
    (moves : Finset ι) (idle : ε) :
    ∃ f : ℕ → ε,
      (∀ n, f n = idle ∨ ∃ c ∈ moves, move c (S.after (following es f) (es.length + n)).log
        (S.after (following es f) (es.length + n)).state (f n)) ∧
      ∀ c ∈ moves, FairTo (move c) (fun n => (S.after (following es f) n).log)
        (fun n => (S.after (following es f) n).state) fun n => some (following es f n) := by
  obtain ⟨w, f, hstart, hnext, hmoves, hfair⟩ := FairRun.exists_fair S.next
    (fun c w e => move c w.log w.state e) moves idle (S.run es)
  have hw : ∀ n, S.after (following es f) (es.length + n) = w n := by
    intro n
    rw [after_following]
    induction n with
    | zero => simpa using hstart.symm
    | succ n ih =>
      rw [List.range_succ, List.map_append, List.map_singleton, ← List.append_assoc, run_concat,
        ih, hnext]
  refine ⟨f, fun n => ?_, fun c hc => ?_⟩
  · rw [hw]
    exact hmoves n
  · refine StronglyFair.of_shift es.length ((hfair c hc).mono ?_ ?_)
    · intro n h
      simpa only [hw] using h
    · intro n h
      refine ⟨f n, congrArg some (following_add es f n), ?_⟩
      simpa only [hw] using h

/-! ### Steady runs -/

/-- An endless run that keeps an invariant of the stage and is fair to its turns, and in which
only steady events come up. -/
structure SteadyRun (S : Stage E σ ε) (turn : ι → List E → σ → ε → Prop)
    (I : List E → σ → Prop) (steady : ε → Prop) (log : ℕ → List E) (state : ℕ → σ)
    (event : ℕ → Option ε) : Prop where
  view : S.View log state event
  inv : ∀ n, I (log n) (state n)
  steady : ∀ n e, event n = some e → steady e
  fair : ∀ c, FairTo (turn c) log state event

namespace SteadyRun

variable {turn : ι → List E → σ → ε → Prop} {I P Q : List E → σ → Prop} {steady : ε → Prop}
  {state : ℕ → σ} {event : ℕ → Option ε}

/-- What neither the stage nor the others break. -/
lemma stays (h : S.SteadyRun turn I steady log state event)
    (own : ∀ log s e, I log s → steady e → P log s →
      P (log ++ (S.step log s e).2.toList) (S.step log s e).1 ∨
        Q (log ++ (S.step log s e).2.toList) (S.step log s e).1)
    (others : ∀ log log' s, log <+: log' → P log s → P log' s) (n : ℕ)
    (hn : P (log n) (state n)) :
    P (log (n + 1)) (state (n + 1)) ∨ Q (log (n + 1)) (state (n + 1)) := by
  cases he : event n with
  | none =>
    obtain ⟨hlog, hstate⟩ := h.view.others n he
    rw [hstate]
    exact Or.inl (others _ _ _ hlog hn)
  | some e =>
    obtain ⟨hlog, hstate⟩ := h.view.own n e he
    rw [hlog, hstate]
    exact own _ _ e (h.inv n) (h.steady n e he) hn

/-- What holds for good once it holds. -/
lemma stable (h : S.SteadyRun turn I steady log state event)
    (own : ∀ log s e, I log s → steady e → P log s →
      P (log ++ (S.step log s e).2.toList) (S.step log s e).1)
    (others : ∀ log log' s, log <+: log' → P log s → P log' s) (n : ℕ)
    (hn : P (log n) (state n)) : P (log (n + 1)) (state (n + 1)) :=
  (h.stays (Q := fun _ _ => False) (fun log s e hI he hP => Or.inl (own log s e hI he hP)) others
    n hn).resolve_right id

lemma leadsTo_of_done (h : S.SteadyRun turn I steady log state event) (c : ι)
    (helps : ∀ log s e, I log s → P log s → turn c log s e →
      Q (log ++ (S.step log s e).2.toList) (S.step log s e).1) :
    LeadsTo (fun n => P (log n) (state n) ∧ ∃ e, event n = some e ∧ turn c (log n) (state n) e)
      fun n => Q (log n) (state n) := by
  rintro n ⟨hP, e, he, hturn⟩
  obtain ⟨hlog, hstate⟩ := h.view.own n e he
  refine ⟨n + 1, Nat.le_succ n, ?_⟩
  show Q (log (n + 1)) (state (n + 1))
  rw [hlog, hstate]
  exact helps _ _ e (h.inv n) hP hturn

/-- A turn that is possible until it comes, comes. -/
theorem leadsTo_of_turn (h : S.SteadyRun turn I steady log state event) (c : ι)
    (own : ∀ log s e, I log s → steady e → P log s →
      P (log ++ (S.step log s e).2.toList) (S.step log s e).1 ∨
        Q (log ++ (S.step log s e).2.toList) (S.step log s e).1)
    (others : ∀ log log' s, log <+: log' → P log s → P log' s)
    (possible : ∀ log s, I log s → P log s → ∃ e, turn c log s e)
    (helps : ∀ log s e, I log s → P log s → turn c log s e →
      Q (log ++ (S.step log s e).2.toList) (S.step log s e).1) :
    LeadsTo (fun n => P (log n) (state n)) fun n => Q (log n) (state n) :=
  LeadsTo.of_fair (h.fair c) (h.stays own others)
    (LeadsTo.of_imp fun n hn => Or.inl (possible _ _ (h.inv n) hn)) (h.leadsTo_of_done c helps)

/-- The stage waits for one turn, and whatever else comes up does nothing until it comes. -/
theorem leadsTo_of_only (h : S.SteadyRun turn I steady log state event) (c : ι)
    (still : ∀ log s e, P log s → steady e → ¬ turn c log s e → S.step log s e = (s, none))
    (others : ∀ log log' s, log <+: log' → P log s → P log' s)
    (possible : ∀ log s, P log s → ∃ e, turn c log s e)
    (helps : ∀ log s e, I log s → P log s → turn c log s e →
      Q (log ++ (S.step log s e).2.toList) (S.step log s e).1) :
    LeadsTo (fun n => P (log n) (state n)) fun n => Q (log n) (state n) := by
  refine h.leadsTo_of_turn c (fun log s e hI he hP => ?_) others
    (fun log s _ hP => possible log s hP) helps
  by_cases hturn : turn c log s e
  · exact Or.inr (helps log s e hI hP hturn)
  · refine Or.inl ?_
    rw [still log s e hP he hturn, Option.toList_none, List.append_nil]
    exact hP

/-- A stage that starts in two turns, and waits for each of them, is up one day. -/
theorem starts (h : S.SteadyRun turn I steady log state event) (c c' : ι)
    (down starting up : σ → Prop) (total : ∀ log s, I log s → down s ∨ starting s ∨ up s)
    (still : ∀ log s e, down s → steady e → ¬ turn c log s e → S.step log s e = (s, none))
    (possible : ∀ log s, down s → ∃ e, turn c log s e)
    (helps : ∀ log s e, I log s → down s → turn c log s e → starting (S.step log s e).1)
    (still' : ∀ log s e, starting s → steady e → ¬ turn c' log s e → S.step log s e = (s, none))
    (possible' : ∀ log s, starting s → ∃ e, turn c' log s e)
    (helps' : ∀ log s e, I log s → starting s → turn c' log s e → up (S.step log s e).1) :
    LeadsTo (fun _ => True) fun n => up (state n) := by
  have hdown : LeadsTo (fun n => down (state n)) fun n => starting (state n) :=
    h.leadsTo_of_only c (P := fun _ s => down s) (Q := fun _ s => starting s) still
      (fun _ _ _ _ => id) possible helps
  have hstarting : LeadsTo (fun n => starting (state n)) fun n => up (state n) :=
    h.leadsTo_of_only c' (P := fun _ s => starting s) (Q := fun _ s => up s) still'
      (fun _ _ _ _ => id) possible' helps'
  refine LeadsTo.cancel (Q := fun n => down (state n) ∨ starting (state n))
    (LeadsTo.of_imp fun n _ => ?_) ((hdown.trans hstarting).or hstarting)
  rcases total _ _ (h.inv n) with hn | hn | hn
  · exact Or.inl (Or.inl hn)
  · exact Or.inl (Or.inr hn)
  · exact Or.inr hn

/-- A stage that has read the log up to a position, and waits for its turn where there is more to
read, reads every entry. -/
theorem reads_all (h : S.SteadyRun turn I steady log state event) (c : ι) (reaches : ℕ → σ → Prop)
    (up : LeadsTo (fun _ => True) fun n => reaches 0 (state n))
    (keeps : ∀ p n, reaches p (state n) → reaches p (state (n + 1)))
    (waits : ∀ p, LeadsTo (fun n => reaches p (state n)) fun n =>
      (p < (log n).length → ∃ e, turn c (log n) (state n) e) ∨ reaches (p + 1) (state n))
    (helps : ∀ p, LeadsTo
      (fun n => reaches p (state n) ∧ ∃ e, event n = some e ∧ turn c (log n) (state n) e)
      fun n => reaches (p + 1) (state n)) (p : ℕ) :
    LeadsTo (fun n => p ≤ (log n).length) fun n => reaches p (state n) := by
  have hgrows : ∀ n, (log n).length ≤ (log (n + 1)).length := fun n =>
    (h.view.log_prefix_succ n).length_le
  refine LeadsTo.climb (R := fun p n => reaches p (state n)) hgrows up (fun p => ?_) p
  have hlength : ∀ n, p < (log n).length → p < (log (n + 1)).length := fun n hn =>
    hn.trans_le (hgrows n)
  refine LeadsTo.of_fair (h.fair c)
    (fun n hn => Or.inl ⟨keeps p n hn.1, hlength n hn.2⟩) ?_ ?_
  · refine ((waits p).and_stable hlength).imp ?_
    rintro n ⟨hturn | hreaches, hlt⟩
    · exact Or.inl (hturn hlt)
    · exact Or.inr hreaches
  · exact (helps p).mono (fun n hn => ⟨hn.1.1, hn.2⟩) fun _ => id

end SteadyRun

end Stage
