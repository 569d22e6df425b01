/-
# Stages around an append-only log

Several stages share one append-only log.  A stage has a private state and reacts to
its own events: it sees the whole log, changes its private state and appends at most
one entry.  A schedule is the list of events in the order they happen, so that a run is
a fold and "every interleaving" is "every schedule".

The rules are those of rely and guarantee reasoning.  `Upholds S R G I` says that `I`
relates the log to the private state of `S` at all times, provided that whatever else is
appended meets `R`, and that what `S` itself appends meets `G`.
-/
import Mathlib.Data.List.Basic
import Mathlib.Data.List.Infix
import Mathlib.Tactic.Common

lemma List.pairwise_concat {α : Type*} {R : α → α → Prop} {l : List α} {a : α} :
    (l ++ [a]).Pairwise R ↔ l.Pairwise R ∧ ∀ b ∈ l, R b a := by
  simp only [List.pairwise_append, List.pairwise_singleton, true_and, List.mem_singleton,
    forall_eq]

/-- A stage over a log of entries `E`, with private states `σ` and events `ε`.  A step
may append one entry. -/
structure Stage (E σ ε : Type*) where
  /-- The private state before the first event. -/
  init : σ
  /-- The reaction to an event, given the log. -/
  step : List E → σ → ε → σ × Option E

namespace Stage

/-- The log together with the private state of a stage. -/
structure World (E σ : Type*) where
  log : List E
  state : σ

variable {E σ τ ε δ : Type*}

/-- The world after one event. -/
def next (S : Stage E σ ε) (w : World E σ) (e : ε) : World E σ where
  log := w.log ++ (S.step w.log w.state e).2.toList
  state := (S.step w.log w.state e).1

lemma append_toList {P : List E → Prop} {log : List E} {o : Option E} (none : P log)
    (some : ∀ x, o = some x → P (log ++ [x])) : P (log ++ o.toList) := by
  cases o with
  | none => simpa using none
  | some x => exact some x rfl

/-- The world after a schedule that starts in `w`. -/
def runFrom (S : Stage E σ ε) (w : World E σ) (es : List ε) : World E σ := es.foldl S.next w

/-- The world after a schedule that starts with an empty log. -/
def run (S : Stage E σ ε) (es : List ε) : World E σ := S.runFrom ⟨[], S.init⟩ es

variable (S : Stage E σ ε) (T : Stage E τ δ)

@[simp] lemma runFrom_nil (w : World E σ) : S.runFrom w [] = w := rfl

@[simp] lemma runFrom_cons (w : World E σ) (e : ε) (es : List ε) :
    S.runFrom w (e :: es) = S.runFrom (S.next w e) es := rfl

lemma runFrom_append (w : World E σ) (es fs : List ε) :
    S.runFrom w (es ++ fs) = S.runFrom (S.runFrom w es) fs :=
  List.foldl_append

@[simp] lemma run_nil : S.run [] = ⟨[], S.init⟩ := rfl

lemma run_append (es fs : List ε) : S.run (es ++ fs) = S.runFrom (S.run es) fs :=
  S.runFrom_append _ es fs

lemma run_concat (es : List ε) (e : ε) : S.run (es ++ [e]) = S.next (S.run es) e :=
  S.run_append es [e]

lemma runFrom_induction {P : World E σ → Prop} {w : World E σ} {es : List ε} (hw : P w)
    (step : ∀ w, ∀ e ∈ es, P w → P (S.next w e)) : P (S.runFrom w es) := by
  induction es generalizing w with
  | nil => exact hw
  | cons e es ih =>
    exact ih (step w e List.mem_cons_self hw) fun w e he => step w e (List.mem_cons_of_mem _ he)

/-- Nothing is ever removed from the log. -/
lemma log_prefix_runFrom (w : World E σ) (es : List ε) : w.log <+: (S.runFrom w es).log := by
  induction es generalizing w with
  | nil => exact List.prefix_rfl
  | cons e es ih => exact (List.prefix_append _ _).trans (ih (S.next w e))

lemma log_prefix_run_append (es fs : List ε) : (S.run es).log <+: (S.run (es ++ fs)).log := by
  rw [run_append]
  exact S.log_prefix_runFrom _ fs

lemma exists_prefix_run {es : List ε} {n : ℕ} (h : n ≤ (S.run es).log.length) :
    ∃ es', es' <+: es ∧ (S.run es').log = (S.run es).log.take n := by
  induction es using List.reverseRecOn with
  | nil =>
    obtain rfl : n = 0 := by simpa using h
    exact ⟨[], List.prefix_rfl, rfl⟩
  | append_singleton es e ih =>
    by_cases hn : n = (S.run (es ++ [e])).log.length
    · exact ⟨es ++ [e], List.prefix_rfl, by rw [hn, List.take_length]⟩
    · rw [run_concat] at h hn ⊢
      have hlog : (S.next (S.run es) e).log = (S.run es).log ++ _ := rfl
      rw [hlog, List.length_append] at h hn
      have hlen := Option.length_toList_le (o := (S.step (S.run es).log (S.run es).state e).2)
      have hle : n ≤ (S.run es).log.length := by omega
      obtain ⟨es', hprefix, hes'⟩ := ih hle
      refine ⟨es', hprefix.trans (List.prefix_append es [e]), ?_⟩
      rw [hes', hlog, List.take_append_of_le_length hle]

/-! ## Runs that meet a condition at every step -/

/-- From `w` on, every event of the schedule happens in a world where `C` allows it. -/
def AlongFrom (S : Stage E σ ε) (C : List E → σ → ε → Prop) (w : World E σ) : List ε → Prop
  | [] => True
  | e :: es => C w.log w.state e ∧ S.AlongFrom C (S.next w e) es

/-- Every event of the schedule happens in a world where `C` allows it. -/
def Along (C : List E → σ → ε → Prop) (es : List ε) : Prop := S.AlongFrom C ⟨[], S.init⟩ es

instance decidableAlongFrom (S : Stage E σ ε) (C : List E → σ → ε → Prop)
    [∀ log s e, Decidable (C log s e)] (w : World E σ) :
    (es : List ε) → Decidable (S.AlongFrom C w es)
  | [] => isTrue trivial
  | e :: es =>
    have := decidableAlongFrom S C (S.next w e) es
    inferInstanceAs (Decidable (C w.log w.state e ∧ S.AlongFrom C (S.next w e) es))

instance (C : List E → σ → ε → Prop) [∀ log s e, Decidable (C log s e)] (es : List ε) :
    Decidable (S.Along C es) :=
  inferInstanceAs (Decidable (S.AlongFrom C _ es))

variable {S}

lemma alongFrom_append {C : List E → σ → ε → Prop} {w : World E σ} {es fs : List ε} :
    S.AlongFrom C w (es ++ fs) ↔ S.AlongFrom C w es ∧ S.AlongFrom C (S.runFrom w es) fs := by
  induction es generalizing w with
  | nil => simp [AlongFrom]
  | cons e es ih => simp only [List.cons_append, AlongFrom, ih, runFrom_cons, and_assoc]

lemma Along.init {C : List E → σ → ε → Prop} {es : List ε} {e : ε}
    (h : S.Along C (es ++ [e])) : S.Along C es :=
  (alongFrom_append.mp h).1

lemma Along.of_prefix {C : List E → σ → ε → Prop} {es es' : List ε} (h : S.Along C es)
    (hes : es' <+: es) : S.Along C es' := by
  obtain ⟨rest, rfl⟩ := hes
  exact (alongFrom_append.mp h).1

lemma Along.last {C : List E → σ → ε → Prop} {es : List ε} {e : ε}
    (h : S.Along C (es ++ [e])) : C (S.run es).log (S.run es).state e :=
  (alongFrom_append.mp h).2.1

lemma AlongFrom.mono {C C' : List E → σ → ε → Prop} (hC : ∀ log s e, C log s e → C' log s e)
    {w : World E σ} {es : List ε} (h : S.AlongFrom C w es) : S.AlongFrom C' w es := by
  induction es generalizing w with
  | nil => trivial
  | cons e es ih => exact ⟨hC _ _ _ h.1, ih h.2⟩

lemma Along.mono {C C' : List E → σ → ε → Prop} (hC : ∀ log s e, C log s e → C' log s e)
    {es : List ε} (h : S.Along C es) : S.Along C' es :=
  AlongFrom.mono hC h

lemma Along.and {C C' : List E → σ → ε → Prop} {es : List ε} (h : S.Along C es)
    (h' : S.Along C' es) : S.Along (fun log s e => C log s e ∧ C' log s e) es := by
  have hfrom : ∀ w, S.AlongFrom C w es → S.AlongFrom C' w es →
      S.AlongFrom (fun log s e => C log s e ∧ C' log s e) w es := by
    clear h h'
    induction es with
    | nil => exact fun _ _ _ => trivial
    | cons e es ih => exact fun w h h' => ⟨⟨h.1, h'.1⟩, ih _ h.2 h'.2⟩
  exact hfrom _ h h'

/-- A condition that an invariant brings, where another condition keeps the invariant. -/
theorem Along.strengthen {C C' : List E → σ → ε → Prop} {P : World E σ → Prop}
    (init : P ⟨[], S.init⟩)
    (step : ∀ es e, P (S.run es) → C (S.run es).log (S.run es).state e →
      C' (S.run es).log (S.run es).state e ∧ P (S.next (S.run es) e)) :
    ∀ es, S.Along C es → S.Along C' es ∧ P (S.run es) := by
  intro es
  induction es using List.reverseRecOn with
  | nil => intro _; exact ⟨trivial, init⟩
  | append_singleton es e ih =>
    intro h
    obtain ⟨halong, hP⟩ := ih h.init
    obtain ⟨hC', hP'⟩ := step es e hP h.last
    rw [run_concat]
    exact ⟨alongFrom_append.mpr ⟨halong, hC', trivial⟩, hP'⟩

lemma along_of_forall {C : ε → Prop} {es : List ε} (h : ∀ e ∈ es, C e) :
    S.Along (fun _ _ => C) es := by
  have hfrom : ∀ w, S.AlongFrom (fun _ _ => C) w es := by
    induction es with
    | nil => exact fun _ => trivial
    | cons e es ih =>
      obtain ⟨he, hes⟩ := List.forall_mem_cons.mp h
      exact fun w => ⟨he, ih hes _⟩
  exact hfrom _

/-- The run lemma of a conditional invariant: what a step keeps when `C` allows it holds
after every schedule that meets `C` throughout. -/
theorem Along.induction {C : List E → σ → ε → Prop} {P : World E σ → Prop}
    (init : P ⟨[], S.init⟩)
    (step : ∀ es e, P (S.run es) → C (S.run es).log (S.run es).state e →
      P (S.next (S.run es) e)) :
    ∀ es, S.Along C es → P (S.run es) := by
  intro es
  induction es using List.reverseRecOn with
  | nil => intro _; exact init
  | append_singleton es e ih =>
    intro h
    rw [run_concat]
    exact step es e (ih h.init) h.last

/-! ## Rely and guarantee -/

/-- The invariant `I` relates the log to the private state of the stage at all times: it
holds at the start, the stage's own steps keep it, and so does every append that meets
the rely `R`.  What the stage itself appends meets the guarantee `G`. -/
structure Upholds (S : Stage E σ ε) (R G : List E → E → Prop) (I : List E → σ → Prop) :
    Prop where
  init : I [] S.init
  own : ∀ log s e, I log s → I (log ++ (S.step log s e).2.toList) (S.step log s e).1
  emits : ∀ log s e x, I log s → (S.step log s e).2 = some x → G log x
  rely : ∀ log s x, I log s → R log x → I (log ++ [x]) s

variable {T} {R R' R₁ R₂ G G' G₁ G₂ : List E → E → Prop} {I J : List E → σ → Prop}
  {K : List E → τ → Prop}

lemma Upholds.runFrom (h : S.Upholds R G I) {w : World E σ} (hw : I w.log w.state)
    (es : List ε) : I (S.runFrom w es).log (S.runFrom w es).state := by
  induction es generalizing w with
  | nil => exact hw
  | cons e es ih => exact ih (w := S.next w e) (h.own _ _ e hw)

/-- The run lemma: an upheld invariant holds after every schedule. -/
theorem Upholds.run (h : S.Upholds R G I) (es : List ε) :
    I (S.run es).log (S.run es).state :=
  h.runFrom (w := ⟨[], S.init⟩) h.init es

/-- A stage that relies on less and promises more can be used where it relies on more and
promises less. -/
lemma Upholds.mono (h : S.Upholds R G I)
    (hR : ∀ log s x, I log s → R' log x → R log x) (hG : ∀ log x, G log x → G' log x) :
    S.Upholds R' G' I where
  init := h.init
  own := h.own
  emits := fun log s e x hI hx => hG log x (h.emits log s e x hI hx)
  rely := fun log s x hI hx => h.rely log s x hI (hR log s x hI hx)

lemma Upholds.congr (h : S.Upholds R G I) (hIJ : ∀ log s, I log s ↔ J log s) :
    S.Upholds R G J := by
  have hI : I = J := by
    ext log s
    exact hIJ log s
  rwa [← hI]

/-- A second invariant may use the first. -/
lemma Upholds.strengthen (h : S.Upholds R G I) (init : J [] S.init)
    (own : ∀ log s e, I log s → J log s →
      J (log ++ (S.step log s e).2.toList) (S.step log s e).1)
    (rely : ∀ log s x, I log s → J log s → R log x → J (log ++ [x]) s) :
    S.Upholds R G (fun log s => I log s ∧ J log s) where
  init := ⟨h.init, init⟩
  own := fun log s e hs => ⟨h.own log s e hs.1, own log s e hs.1 hs.2⟩
  emits := fun log s e x hs hx => h.emits log s e x hs.1 hx
  rely := fun log s x hs hx => ⟨h.rely log s x hs.1 hx, rely log s x hs.1 hs.2 hx⟩

/-- What every append keeps, by the stage or by others, is kept on the log. -/
lemma Upholds.strengthen_log {L : List E → Prop} (h : S.Upholds R G I) (init : L [])
    (append : ∀ log x, L log → G log x ∨ R log x → L (log ++ [x])) :
    S.Upholds R G (fun log s => I log s ∧ L log) := by
  refine h.strengthen (J := fun log _ => L log) init ?_ ?_
  · intro log s e hI hL
    exact append_toList hL fun x hx => append log x hL (Or.inl (h.emits log s e x hI hx))
  · exact fun log _ x _ hL hx => append log x hL (Or.inr hx)

/-! ## Driven stages -/

/-- The stage on other events, each of which the state turns into one of its own. -/
def driven (S : Stage E σ ε) (f : σ → δ → ε) : Stage E σ δ where
  init := S.init
  step log s d := S.step log s (f s d)

/-- Driving a stage only leaves out some of what it can do. -/
lemma Upholds.driven (h : S.Upholds R G I) (f : σ → δ → ε) : (S.driven f).Upholds R G I where
  init := h.init
  own := fun log s d => h.own log s (f s d)
  emits := fun log s d => h.emits log s (f s d)
  rely := h.rely

/-! ## Stages side by side -/

/-- Two stages on one log: an event is an event of one of them. -/
def par (S : Stage E σ ε) (T : Stage E τ δ) : Stage E (σ × τ) (ε ⊕ δ) where
  init := (S.init, T.init)
  step log s
    | .inl e => (((S.step log s.1 e).1, s.2), (S.step log s.1 e).2)
    | .inr d => ((s.1, (T.step log s.2 d).1), (T.step log s.2 d).2)

@[simp] lemma par_init : (S.par T).init = (S.init, T.init) := rfl

@[simp] lemma par_step_inl (log : List E) (s : σ × τ) (e : ε) :
    (S.par T).step log s (.inl e) = (((S.step log s.1 e).1, s.2), (S.step log s.1 e).2) := rfl

@[simp] lemma par_step_inr (log : List E) (s : σ × τ) (d : δ) :
    (S.par T).step log s (.inr d) = ((s.1, (T.step log s.2 d).1), (T.step log s.2 d).2) := rfl

lemma Upholds.rely_toList (h : S.Upholds R G I) {log : List E} {s : σ} (o : Option E)
    (hs : I log s) (ho : ∀ x, o = some x → R log x) : I (log ++ o.toList) s :=
  append_toList (P := fun log => I log s) hs fun x hx => h.rely log s x hs (ho x hx)

/-- The parallel rule: two stages that promise each other what they rely on uphold both
their invariants. -/
theorem Upholds.par (hS : S.Upholds R₁ G₁ I) (hT : T.Upholds R₂ G₂ K)
    (hST : ∀ log s t x, I log s → K log t → G₁ log x → R₂ log x)
    (hTS : ∀ log s t x, I log s → K log t → G₂ log x → R₁ log x) :
    (S.par T).Upholds (fun log x => R₁ log x ∧ R₂ log x) (fun log x => G₁ log x ∨ G₂ log x)
      (fun log s => I log s.1 ∧ K log s.2) where
  init := ⟨hS.init, hT.init⟩
  own := by
    rintro log ⟨s, t⟩ (e | d) ⟨hI, hK⟩
    · refine ⟨hS.own log s e hI, hT.rely_toList _ hK fun x hx => ?_⟩
      exact hST log s t x hI hK (hS.emits log s e x hI hx)
    · refine ⟨hS.rely_toList _ hI fun x hx => ?_, hT.own log t d hK⟩
      exact hTS log s t x hI hK (hT.emits log t d x hK hx)
  emits := by
    rintro log ⟨s, t⟩ (e | d) x ⟨hI, hK⟩ hx
    · exact Or.inl (hS.emits log s e x hI hx)
    · exact Or.inr (hT.emits log t d x hK hx)
  rely := fun log s x h hx => ⟨hS.rely log s.1 x h.1 hx.1, hT.rely log s.2 x h.2 hx.2⟩

/-- A condition on the events of the first of two stages. -/
def onLeft (C : List E → σ → ε → Prop) (log : List E) (s : σ × τ) : ε ⊕ δ → Prop
  | .inl e => C log s.1 e
  | .inr _ => True

/-- A condition on the events of the second of two stages. -/
def onRight (C : List E → τ → δ → Prop) (log : List E) (s : σ × τ) : ε ⊕ δ → Prop
  | .inl _ => True
  | .inr d => C log s.2 d

instance (C : List E → σ → ε → Prop) [∀ log s e, Decidable (C log s e)] (log : List E)
    (s : σ × τ) (e : ε ⊕ δ) : Decidable (onLeft C log s e) :=
  match e with
  | .inl e => inferInstanceAs (Decidable (C log s.1 e))
  | .inr _ => isTrue trivial

lemma along_onLeft_true (es : List (ε ⊕ δ)) :
    (S.par T).Along (onLeft fun _ _ _ => True) es := by
  have hfrom : ∀ w, (S.par T).AlongFrom (onLeft fun _ _ _ => True) w es := by
    induction es with
    | nil => exact fun _ => trivial
    | cons e es ih =>
      intro w
      refine ⟨?_, ih _⟩
      cases e <;> trivial
  exact hfrom _

/-- The run lemma of an invariant of the first of two stages that holds only while its
events meet a condition. -/
theorem Upholds.along_left {I : List E → σ × τ → Prop} (h : (S.par T).Upholds R G I)
    {C : List E → σ → ε → Prop} {J : List E → σ → Prop} (init : J [] S.init)
    (own : ∀ log s t e, I log (s, t) → J log s → C log s e →
      J (log ++ (S.step log s e).2.toList) (S.step log s e).1)
    (other : ∀ log s t d x, I log (s, t) → J log s → (T.step log t d).2 = some x →
      J (log ++ [x]) s) (es : List (ε ⊕ δ)) (hes : (S.par T).Along (onLeft C) es) :
    J ((S.par T).run es).log ((S.par T).run es).state.1 := by
  refine Along.induction (P := fun w => J w.log w.state.1) init ?_ es hes
  intro es e hJ hC
  have hI := h.run es
  cases e with
  | inl e => exact own _ _ _ e hI hJ hC
  | inr d =>
    show J (_ ++ (T.step _ _ d).2.toList) ((S.par T).run es).state.1
    exact append_toList (P := fun log => J log ((S.par T).run es).state.1) hJ
      fun x hx => other _ _ _ d x hI hJ hx

lemma run_par_of_silent (hT : ∀ log t d, (T.step log t d).2 = none) (es : List (ε ⊕ δ)) :
    ((S.par T).run es).log = (S.run (es.filterMap Sum.getLeft?)).log ∧
      ((S.par T).run es).state.1 = (S.run (es.filterMap Sum.getLeft?)).state := by
  induction es using List.reverseRecOn with
  | nil => exact ⟨rfl, rfl⟩
  | append_singleton es e ih =>
    obtain ⟨hlog, hstate⟩ := ih
    rw [run_concat, List.filterMap_append]
    cases e with
    | inl e =>
      show _ = (S.run (_ ++ [e])).log ∧ _ = (S.run (_ ++ [e])).state
      rw [run_concat]
      simp only [next, par_step_inl, hlog, hstate, and_self]
    | inr d =>
      show _ = (S.run (_ ++ [])).log ∧ _ = (S.run (_ ++ [])).state
      simp only [next, par_step_inr, hT, Option.toList_none, List.append_nil, hlog, hstate,
        and_self]

lemma Along.of_par_silent (hT : ∀ log t d, (T.step log t d).2 = none)
    {C : List E → σ → ε → Prop} {es : List (ε ⊕ δ)} (h : (S.par T).Along (onLeft C) es) :
    S.Along C (es.filterMap Sum.getLeft?) := by
  induction es using List.reverseRecOn with
  | nil => trivial
  | append_singleton es e ih =>
    rw [List.filterMap_append]
    cases e with
    | inl e =>
      have hlast := h.last
      obtain ⟨hlog, hstate⟩ := run_par_of_silent hT es
      rw [onLeft, hlog, hstate] at hlast
      exact alongFrom_append.mpr ⟨ih h.init, hlast, trivial⟩
    | inr d =>
      show S.Along C (_ ++ [])
      rw [List.append_nil]
      exact ih h.init

/-- The surroundings of a stage: anything that meets `ok` may be appended at any time. -/
def surroundings (ok : List E → E → Prop) [∀ log x, Decidable (ok log x)] : Stage E Unit E where
  init := ()
  step log _ x := ((), if ok log x then some x else none)

lemma surroundings_step_eq_some {ok : List E → E → Prop} [∀ log x, Decidable (ok log x)]
    {log : List E} {u : Unit} {x y : E}
    (h : ((surroundings ok).step log u x).2 = some y) : y = x ∧ ok log x := by
  simp only [surroundings, Option.ite_none_right_eq_some, Option.some.injEq] at h
  exact ⟨h.2.symm, h.1⟩

lemma surroundings_upholds (ok : List E → E → Prop) [∀ log x, Decidable (ok log x)] :
    (surroundings ok).Upholds (fun _ _ => True) ok (fun _ _ => True) where
  init := trivial
  own := fun _ _ _ _ => trivial
  emits := by
    rintro log s x y - h
    obtain ⟨rfl, hok⟩ := surroundings_step_eq_some h
    exact hok
  rely := fun _ _ _ _ _ => trivial

lemma Upholds.beside (h : S.Upholds R G I) (ok : List E → E → Prop)
    [∀ log x, Decidable (ok log x)] (hok : ∀ log s x, I log s → ok log x → R log x) :
    (S.par (surroundings ok)).Upholds R (fun log x => G log x ∨ ok log x)
      (fun log s => I log s.1) := by
  have hpar := h.par (surroundings_upholds ok) (fun _ _ _ _ _ _ _ => trivial)
    (fun log s _ x hI _ => hok log s x hI)
  exact ⟨h.init, fun log s e hI => (hpar.own log s e ⟨hI, trivial⟩).1,
    fun log s e x hI => hpar.emits log s e x ⟨hI, trivial⟩,
    fun log s x hI hx => h.rely log s.1 x hI hx⟩

end Stage
