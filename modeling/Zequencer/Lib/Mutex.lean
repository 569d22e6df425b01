/-
# Calls under a lock

A service has a shared state, and a part of it outlives the process.  Threads make calls: a call
is answered at once, or it takes the lock, works on the state step by step, and is answered as it
drops the lock.  A thread that panics under the lock poisons it, and nobody takes it any more.
Between any two steps the process may die, and be started on what is left.

In whatever order the steps come, the answers are those of calls made one after the other.  A
call whose thread or process died got no answer; it was made as a whole, or not at all.
-/
import Mathlib.Data.List.Infix
import Mathlib.Tactic.Common
import Zequencer.Lib.Stage

namespace Mutex

/-- The code of the calls, and of the start.  Of a state `σ` the part `δ` outlives the process. -/
structure Service (σ δ ι κ ο ε : Type*) where
  /-- What a call is answered that does not take the lock. -/
  refuse : ι → Option ο
  /-- Where a call is once it has the lock. -/
  enter : ι → κ
  step : ι → σ → κ → σ × (κ ⊕ ο)
  durable : σ → δ
  start : ε → δ → Option σ

/-! ### The world -/

/-- A lock that is held up to some point of an operation; a holder that panics poisons it. -/
inductive Lock (ι κ ρ : Type*) where
  | free
  | held (p : ρ) (op : ι) (point : κ)
  | poisoned
deriving DecidableEq

/-- A process keeps its state in memory while it is up, and leaves something behind. -/
inductive Process (σ δ ι κ ρ : Type*) where
  | down (left : δ)
  | up (s : σ) (lock : Lock ι κ ρ)

/-- What a caller is told. -/
structure Answer (ι ο ρ : Type*) where
  caller : ρ
  op : ι
  out : ο

/-- The process, and everything its callers were told. -/
structure World (σ δ ι κ ο ρ : Type*) where
  process : Process σ δ ι κ ρ
  /-- The answers, in the order in which they are given. -/
  answered : List (Answer ι ο ρ)

/-- What may happen next: a caller moves, or the process ends or starts. -/
inductive Event (ι ε ρ : Type*) where
  /-- A call is refused, or takes the lock; while the lock is taken, the caller waits. -/
  | call (p : ρ) (op : ι)
  | step (p : ρ)
  | panic (p : ρ)
  | crash
  | start (e : ε)

variable {σ δ ι κ ο ε ρ : Type*}

/-- What is left when the process dies. -/
def Process.left (S : Service σ δ ι κ ο ε) : Process σ δ ι κ ρ → δ
  | .down left => left
  | .up s _ => S.durable s

namespace World

def init (left : δ) : World σ δ ι κ ο ρ := ⟨.down left, []⟩

variable [DecidableEq ρ]

def next (S : Service σ δ ι κ ο ε) (w : World σ δ ι κ ο ρ) : Event ι ε ρ → World σ δ ι κ ο ρ
  | .call p op =>
    match w.process with
    | .down _ => w
    | .up s lock =>
      match S.refuse op, lock with
      | some out, _ => ⟨.up s lock, w.answered ++ [⟨p, op, out⟩]⟩
      | none, .free => ⟨.up s (.held p op (S.enter op)), w.answered⟩
      | none, _ => w
  | .step p =>
    match w.process with
    | .up s (.held q op point) =>
      if p = q then
        match S.step op s point with
        | (s', .inl point') => ⟨.up s' (.held q op point'), w.answered⟩
        | (s', .inr out) => ⟨.up s' .free, w.answered ++ [⟨q, op, out⟩]⟩
      else w
    | _ => w
  | .panic p =>
    match w.process with
    | .up s (.held q _ _) => if p = q then ⟨.up s .poisoned, w.answered⟩ else w
    | _ => w
  | .crash => ⟨.down (w.process.left S), w.answered⟩
  | .start e =>
    match w.process with
    | .down left => (S.start e left).elim w fun s => ⟨.up s .free, w.answered⟩
    | .up .. => w

def runFrom (S : Service σ δ ι κ ο ε) (w : World σ δ ι κ ο ρ) (es : List (Event ι ε ρ)) :
    World σ δ ι κ ο ρ :=
  es.foldl (next S) w

/-- The world after these events, from what a process has left. -/
def run (S : Service σ δ ι κ ο ε) (left : δ) (es : List (Event ι ε ρ)) : World σ δ ι κ ο ρ :=
  runFrom S (init left) es

lemma run_concat (S : Service σ δ ι κ ο ε) (left : δ) (es : List (Event ι ε ρ))
    (e : Event ι ε ρ) : run S left (es ++ [e]) = (run S left es).next S e :=
  List.foldl_concat ..

end World

/-- What an event can do. -/
inductive Move (S : Service σ δ ι κ ο ε) (w : World σ δ ι κ ο ρ) :
    Event ι ε ρ → World σ δ ι κ ο ρ → Prop
  | idle (e) : Move S w e w
  | refused {p op out s lock} (process : w.process = .up s lock) (refuse : S.refuse op = some out) :
      Move S w (.call p op) ⟨.up s lock, w.answered ++ [⟨p, op, out⟩]⟩
  | locked {p op s} (process : w.process = .up s .free) (refuse : S.refuse op = none) :
      Move S w (.call p op) ⟨.up s (.held p op (S.enter op)), w.answered⟩
  | stepped {p op s s' point point'} (process : w.process = .up s (.held p op point))
      (step : S.step op s point = (s', .inl point')) :
      Move S w (.step p) ⟨.up s' (.held p op point'), w.answered⟩
  | answered {p op s s' point out} (process : w.process = .up s (.held p op point))
      (step : S.step op s point = (s', .inr out)) :
      Move S w (.step p) ⟨.up s' .free, w.answered ++ [⟨p, op, out⟩]⟩
  | panicked {p op s point} (process : w.process = .up s (.held p op point)) :
      Move S w (.panic p) ⟨.up s .poisoned, w.answered⟩
  | crashed {s lock} (process : w.process = .up s lock) :
      Move S w .crash ⟨.down (S.durable s), w.answered⟩
  | started {e left s} (process : w.process = .down left) (start : S.start e left = some s) :
      Move S w (.start e) ⟨.up s .free, w.answered⟩

lemma move_next [DecidableEq ρ] (S : Service σ δ ι κ ο ε) (w : World σ δ ι κ ο ρ)
    (e : Event ι ε ρ) : Move S w e (w.next S e) := by
  obtain ⟨process, answered⟩ := w
  cases e with
  | call p op =>
    rcases process with left | ⟨s, lock⟩
    · exact .idle _
    · cases hrefuse : S.refuse op with
      | some out => simpa [World.next, hrefuse] using Move.refused rfl hrefuse
      | none =>
        rcases lock with _ | ⟨q, op', point⟩ | _
        · simpa [World.next, hrefuse] using Move.locked rfl hrefuse
        · simpa [World.next, hrefuse] using Move.idle _
        · simpa [World.next, hrefuse] using Move.idle _
  | step p =>
    rcases process with left | ⟨s, _ | ⟨q, op, point⟩ | _⟩
    · exact .idle _
    · exact .idle _
    · by_cases hp : p = q
      · subst hp
        rcases hstep : S.step op s point with ⟨s', point' | out⟩
        · simpa [World.next, hstep] using Move.stepped rfl hstep
        · simpa [World.next, hstep] using Move.answered rfl hstep
      · simpa [World.next, hp] using Move.idle _
    · exact .idle _
  | panic p =>
    rcases process with left | ⟨s, _ | ⟨q, op, point⟩ | _⟩
    · exact .idle _
    · exact .idle _
    · by_cases hp : p = q
      · subst hp
        simpa [World.next] using Move.panicked rfl
      · simpa [World.next, hp] using Move.idle _
    · exact .idle _
  | crash =>
    rcases process with left | ⟨s, lock⟩
    · exact .idle _
    · exact .crashed rfl
  | start e =>
    rcases process with left | ⟨s, lock⟩
    · cases hstart : S.start e left with
      | none => simpa [World.next, hstart] using Move.idle _
      | some s => simpa [World.next, hstart] using Move.started rfl hstart
    · exact .idle _

/-! ### One call after the other -/

/-- In the state `m` a call would do `whole`, and `At` says where it is on its way. -/
structure Meets (S : Service σ δ ι κ ο ε) (whole : σ → ι → σ × ο) (At : σ → ι → σ → κ → Prop) :
    Prop where
  refuse : ∀ m op out, S.refuse op = some out → whole m op = (m, out)
  enter : ∀ m op, S.refuse op = none → At m op m (S.enter op)
  step : ∀ m op s s' point point', At m op s point → S.step op s point = (s', .inl point') →
    At m op s' point'
  answer : ∀ m op s s' point out, At m op s point → S.step op s point = (s', .inr out) →
    whole m op = (s', out)
  /-- The durable part changes once, and to what it is after the call. -/
  commit : ∀ m op s point, At m op s point →
    S.durable (S.step op s point).1 = S.durable s ∨ S.durable s = S.durable m ∧
      S.durable (S.step op s point).1 = S.durable (whole m op).1

/-- What happened, one thing after the other. -/
inductive Record (ι ο ε ρ : Type*) where
  | answered (a : Answer ι ο ρ)
  /-- A call that was made, and whose answer was lost. -/
  | lost (op : ι)
  | crashed
  | started (e : ε)

def Record.answer? : Record ι ο ε ρ → Option (Answer ι ο ρ)
  | .answered a => some a
  | _ => none

section Serial

variable (S : Service σ δ ι κ ο ε) (whole : σ → ι → σ × ο) (calls : ι → Prop)
  (starts : ε → δ → Prop) (left : δ)

/-- A history of whole calls, and the state after it. -/
inductive Serial : List (Record ι ο ε ρ) → δ ⊕ σ → Prop
  | init : Serial [] (.inl left)
  | answered {history m m' a} (before : Serial history (.inr m)) (call : calls a.op)
      (eq : whole m a.op = (m', a.out)) : Serial (history ++ [.answered a]) (.inr m')
  | lost {history m op} (before : Serial history (.inr m)) (call : calls op) :
      Serial (history ++ [.lost op]) (.inr (whole m op).1)
  | crashed {history m} (before : Serial history (.inr m)) :
      Serial (history ++ [.crashed]) (.inl (S.durable m))
  | started {history d e m} (before : Serial history (.inl d)) (start : starts e d)
      (eq : S.start e d = some m) : Serial (history ++ [.started e]) (.inr m)

variable {S whole calls starts left} {At : σ → ι → σ → κ → Prop}
  {history : List (Record ι ο ε ρ)} {w w' : World σ δ ι κ ο ρ} {e : Event ι ε ρ} {m s : σ} {op : ι}
  {point : κ}

/-- What every call and every start keep. -/
lemma Serial.keeps {J : σ → Prop} (call : ∀ m op, calls op → J m → J (whole m op).1)
    (start : ∀ e d m, starts e d → S.start e d = some m → J m) {st : δ ⊕ σ}
    (h : Serial S whole calls starts left history st) : ∀ m, st = .inr m → J m := by
  induction h with
  | init => simp
  | @answered history m m' a before hcall eq ih =>
    rintro _ ⟨⟩
    have hkept := call m a.op hcall (ih m rfl)
    rwa [eq] at hkept
  | @lost history m op before hcall ih =>
    rintro _ ⟨⟩
    exact call m op hcall (ih m rfl)
  | crashed => simp
  | @started history d e m before hstart eq ih =>
    rintro _ ⟨⟩
    exact start e d m hstart eq

/-! ### Every order of the steps -/

/-- A call that was made in the state `m` is on its way. -/
structure Amid (S : Service σ δ ι κ ο ε) (whole : σ → ι → σ × ο) (At : σ → ι → σ → κ → Prop)
    (m : σ) (op : ι) (s : σ) (point : κ) : Prop where
  at_ : At m op s point
  durable : S.durable s = S.durable m ∨ S.durable s = S.durable (whole m op).1

lemma Amid.step (hS : Meets S whole At) (h : Amid S whole At m op s point) {s' : σ} {point' : κ}
    (hstep : S.step op s point = (s', .inl point')) : Amid S whole At m op s' point' := by
  refine ⟨hS.step _ _ _ _ _ _ h.at_ hstep, ?_⟩
  have hcommit := hS.commit _ _ _ _ h.at_
  rw [hstep] at hcommit
  rcases hcommit with heq | ⟨-, heq⟩
  · exact h.durable.imp heq.trans heq.trans
  · exact Or.inr heq

/-- Where the process is after a history. -/
def Placed (S : Service σ δ ι κ ο ε) (whole : σ → ι → σ × ο) (calls : ι → Prop)
    (starts : ε → δ → Prop) (left : δ) (At : σ → ι → σ → κ → Prop)
    (history : List (Record ι ο ε ρ)) : Process σ δ ι κ ρ → Prop
  | .down d => Serial S whole calls starts left history (.inl d)
  | .up s .free => Serial S whole calls starts left history (.inr s)
  | .up s (.held _ op point) => ∃ m, Serial S whole calls starts left history (.inr m) ∧
      calls op ∧ Amid S whole At m op s point
  | .up s .poisoned => ∃ m op point, Serial S whole calls starts left history (.inr m) ∧
      calls op ∧ Amid S whole At m op s point

/-- The answers are those of a history of whole calls. -/
def Explained (S : Service σ δ ι κ ο ε) (whole : σ → ι → σ × ο) (calls : ι → Prop)
    (starts : ε → δ → Prop) (left : δ) (At : σ → ι → σ → κ → Prop)
    (w : World σ δ ι κ ο ρ) : Prop :=
  ∃ history, history.filterMap Record.answer? = w.answered ∧
    Placed S whole calls starts left At history w.process

/-- The event makes only such calls and such starts. -/
def Allows (calls : ι → Prop) (starts : ε → δ → Prop) (w : World σ δ ι κ ο ρ) :
    Event ι ε ρ → Prop
  | .call _ op => calls op
  | .start e => ∀ d, w.process = .down d → starts e d
  | _ => True

lemma answers_concat (history : List (Record ι ο ε ρ)) (a : Answer ι ο ρ) :
    (history ++ [Record.answered a]).filterMap Record.answer? =
      history.filterMap Record.answer? ++ [a] := by
  rw [List.filterMap_append]
  rfl

lemma answers_concat_none (history : List (Record ι ο ε ρ)) {r : Record ι ο ε ρ}
    (hr : r.answer? = none) :
    (history ++ [r]).filterMap Record.answer? = history.filterMap Record.answer? := by
  rw [List.filterMap_append, List.filterMap_cons_none hr]
  exact List.append_nil _

/-- A process that dies with a call on its way leaves the call made, or not. -/
lemma exists_serial_crashed
    (h : Serial S whole calls starts left history (.inr m)) (hcall : calls op)
    (hamid : Amid S whole At m op s point) :
    ∃ history', history'.filterMap Record.answer? = history.filterMap Record.answer? ∧
      Serial S whole calls starts left history' (.inl (S.durable s)) := by
  rcases hamid.durable with heq | heq
  · rw [heq]
    exact ⟨_, answers_concat_none _ rfl, h.crashed⟩
  · rw [heq]
    exact ⟨_, (answers_concat_none _ rfl).trans (answers_concat_none _ rfl),
      (h.lost hcall).crashed⟩

lemma Placed.refused (hS : Meets S whole At) {lock : Lock ι κ ρ}
    (h : Placed S whole calls starts left At history (.up s lock)) {a : Answer ι ο ρ}
    (hcall : calls a.op) (hrefuse : S.refuse a.op = some a.out) :
    Placed S whole calls starts left At (history ++ [.answered a]) (.up s lock) := by
  rcases lock with _ | ⟨q, op, point⟩ | _
  · exact h.answered hcall (hS.refuse _ _ _ hrefuse)
  · obtain ⟨m, hserial, hamid⟩ := h
    exact ⟨m, hserial.answered hcall (hS.refuse _ _ _ hrefuse), hamid⟩
  · obtain ⟨m, op, point, hserial, hamid⟩ := h
    exact ⟨m, op, point, hserial.answered hcall (hS.refuse _ _ _ hrefuse), hamid⟩

/-- **One step.** -/
lemma Explained.move (hS : Meets S whole At) (h : Explained S whole calls starts left At w)
    (hmove : Move S w e w') (hallows : Allows calls starts w e) :
    Explained S whole calls starts left At w' := by
  obtain ⟨history, hanswers, hplaced⟩ := h
  cases hmove with
  | idle => exact ⟨history, hanswers, hplaced⟩
  | refused process refuse =>
    rw [process] at hplaced
    exact ⟨_, (answers_concat _ _).trans (congrArg (· ++ _) hanswers),
      hplaced.refused (a := ⟨_, _, _⟩) hS hallows refuse⟩
  | @locked p op s process refuse =>
    rw [process] at hplaced
    exact ⟨history, hanswers, s, hplaced, hallows, hS.enter s op refuse, Or.inl rfl⟩
  | stepped process step =>
    rw [process] at hplaced
    obtain ⟨m, hserial, hcall, hamid⟩ := hplaced
    exact ⟨history, hanswers, m, hserial, hcall, hamid.step hS step⟩
  | @answered p op s s' point out process step =>
    rw [process] at hplaced
    obtain ⟨m, hserial, hcall, hamid⟩ := hplaced
    have hwhole := hS.answer _ _ _ _ _ _ hamid.at_ step
    exact ⟨_, (answers_concat _ _).trans (congrArg (· ++ _) hanswers),
      hserial.answered (a := ⟨p, op, out⟩) hcall hwhole⟩
  | @panicked p op s point process =>
    rw [process] at hplaced
    obtain ⟨m, hserial, hcall, hamid⟩ := hplaced
    exact ⟨history, hanswers, m, op, point, hserial, hcall, hamid⟩
  | @crashed s lock process =>
    rw [process] at hplaced
    rcases lock with _ | ⟨q, op, point⟩ | _
    · exact ⟨_, (answers_concat_none _ rfl).trans hanswers, hplaced.crashed⟩
    · obtain ⟨m, hserial, hcall, hamid⟩ := hplaced
      obtain ⟨history', heq, hserial'⟩ := exists_serial_crashed hserial hcall hamid
      exact ⟨history', heq.trans hanswers, hserial'⟩
    · obtain ⟨m, op, point, hserial, hcall, hamid⟩ := hplaced
      obtain ⟨history', heq, hserial'⟩ := exists_serial_crashed hserial hcall hamid
      exact ⟨history', heq.trans hanswers, hserial'⟩
  | @started e left' s process start =>
    rw [process] at hplaced
    exact ⟨_, (answers_concat_none _ rfl).trans hanswers,
      hplaced.started (hallows left' process) start⟩

variable {R : δ → δ → Prop} {Q : Answer ι ο ρ → δ → Prop} {C : Answer ι ο ρ → Answer ι ο ρ → Prop}

/-- What is left of the state after a history. -/
def leftOf (S : Service σ δ ι κ ο ε) : δ ⊕ σ → δ := Sum.elim id S.durable

/-- Whole calls take the durable part along `R`, and starts leave it where it is. -/
structure Advances (ρ : Type*) (S : Service σ δ ι κ ο ε) (whole : σ → ι → σ × ο) (calls : ι → Prop)
    (starts : ε → δ → Prop) (left : δ) (R : δ → δ → Prop) : Prop where
  refl : ∀ d, R d d
  trans : ∀ d d' d'', R d d' → R d' d'' → R d d''
  call : ∀ (history : List (Record ι ο ε ρ)) m op,
    Serial S whole calls starts left history (.inr m) → calls op →
      R (S.durable m) (S.durable (whole m op).1)
  start : ∀ e d m, starts e d → S.start e d = some m → S.durable m = d

/-- What is true of an answer when it is given and as the durable part moves on, is true of all
answers; and so is what is true of an answer and one after it. -/
lemma Serial.answers (hR : Advances ρ S whole calls starts left R)
    (told : ∀ (history : List (Record ι ο ε ρ)) m m' a,
      Serial S whole calls starts left history (.inr m) → calls a.op → whole m a.op = (m', a.out) →
        Q a (S.durable m') ∧ ∀ b, Q b (S.durable m) → C b a)
    (keep : ∀ a d d', R d d' → Q a d → Q a d') {st : δ ⊕ σ}
    (h : Serial S whole calls starts left history st) :
    (∀ a ∈ history.filterMap Record.answer?, Q a (leftOf S st)) ∧
      (history.filterMap Record.answer?).Pairwise C := by
  induction h with
  | init => exact ⟨by simp, List.Pairwise.nil⟩
  | @answered history m m' a before hcall eq ih =>
    obtain ⟨hall, hpairs⟩ := ih
    obtain ⟨htold, hafter⟩ := told history m m' a before hcall eq
    have hmoves := hR.call history m a.op before hcall
    rw [eq] at hmoves
    rw [answers_concat]
    refine ⟨fun b hb => ?_, List.pairwise_concat.mpr ⟨hpairs, fun b hb => hafter b (hall b hb)⟩⟩
    rcases List.mem_append.mp hb with hb | hb
    · exact keep b _ _ hmoves (hall b hb)
    · obtain rfl := List.mem_singleton.mp hb
      exact htold
  | @lost history m op before hcall ih =>
    rw [answers_concat_none _ rfl]
    exact ⟨fun b hb => keep b _ _ (hR.call history m op before hcall) (ih.1 b hb), ih.2⟩
  | crashed before ih =>
    rw [answers_concat_none _ rfl]
    exact ih
  | @started history d e m before hstart eq ih =>
    rw [answers_concat_none _ rfl]
    refine ⟨fun b hb => ?_, ih.2⟩
    show Q b (S.durable m)
    rw [hR.start e d m hstart eq]
    exact ih.1 b hb

lemma Serial.advanced (hR : Advances ρ S whole calls starts left R) {st : δ ⊕ σ}
    (h : Serial S whole calls starts left history st) : R left (leftOf S st) := by
  induction h with
  | init => exact hR.refl _
  | @answered history m m' a before hcall eq ih =>
    have hmoves := hR.call history m a.op before hcall
    rw [eq] at hmoves
    exact hR.trans _ _ _ ih hmoves
  | @lost history m op before hcall ih =>
    exact hR.trans _ _ _ ih (hR.call history m op before hcall)
  | crashed before ih => exact ih
  | @started history d e m before hstart eq ih =>
    show R left (S.durable m)
    rwa [hR.start e d m hstart eq]

lemma Placed.exists_serial (hR : Advances ρ S whole calls starts left R)
    {process : Process σ δ ι κ ρ} (h : Placed S whole calls starts left At history process) :
    ∃ st, Serial S whole calls starts left history st ∧ R (leftOf S st) (process.left S) := by
  have hamid : ∀ {m op s point}, Serial S whole calls starts left history (.inr m) → calls op →
      Amid S whole At m op s point → R (S.durable m) (S.durable s) := by
    intro m op s point hserial hcall h
    rcases h.durable with heq | heq
    · rw [heq]
      exact hR.refl _
    · rw [heq]
      exact hR.call history m op hserial hcall
  rcases process with d | ⟨s, _ | ⟨p, op, point⟩ | _⟩
  · exact ⟨_, h, hR.refl _⟩
  · exact ⟨_, h, hR.refl _⟩
  · obtain ⟨m, hserial, hcall, h⟩ := h
    exact ⟨_, hserial, hamid hserial hcall h⟩
  · obtain ⟨m, op, point, hserial, hcall, h⟩ := h
    exact ⟨_, hserial, hamid hserial hcall h⟩

lemma Explained.left_move (hS : Meets S whole At) (hR : Advances ρ S whole calls starts left R)
    (h : Explained S whole calls starts left At w) (hmove : Move S w e w')
    (hallows : Allows calls starts w e) : R (w.process.left S) (w'.process.left S) := by
  obtain ⟨history, -, hplaced⟩ := h
  have hstep : ∀ {p op s point}, w.process = .up s (.held p op point) →
      R (S.durable s) (S.durable (S.step op s point).1) := by
    intro p op s point hprocess
    rw [hprocess] at hplaced
    obtain ⟨m, hserial, hcall, hamid⟩ := hplaced
    rcases hS.commit _ _ _ _ hamid.at_ with heq | ⟨hbefore, hafter⟩
    · rw [heq]
      exact hR.refl _
    · rw [hbefore, hafter]
      exact hR.call history m op hserial hcall
  cases hmove with
  | idle => exact hR.refl _
  | refused process refuse =>
    rw [process]
    exact hR.refl _
  | locked process refuse =>
    rw [process]
    exact hR.refl _
  | stepped process step =>
    have hmoves := hstep process
    rw [step] at hmoves
    rwa [process]
  | answered process step =>
    have hmoves := hstep process
    rw [step] at hmoves
    rwa [process]
  | panicked process =>
    rw [process]
    exact hR.refl _
  | crashed process =>
    rw [process]
    exact hR.refl _
  | @started e d s process hstart =>
    rw [process]
    show R d (S.durable s)
    rw [hR.start e d s (hallows d process) hstart]
    exact hR.refl _

/-- The durable part has moved on from the first one, with a call on its way, too. -/
lemma Placed.advanced (hR : Advances ρ S whole calls starts left R) {process : Process σ δ ι κ ρ}
    (h : Placed S whole calls starts left At history process) : R left (process.left S) := by
  obtain ⟨st, hserial, hmoves⟩ := h.exists_serial hR
  exact hR.trans _ _ _ (hserial.advanced hR) hmoves

variable [DecidableEq ρ] {es es' : List (Event ι ε ρ)}

/-- Along the run there are only such calls and such starts. -/
def Along (S : Service σ δ ι κ ο ε) (calls : ι → Prop) (starts : ε → δ → Prop) (left : δ)
    (es : List (Event ι ε ρ)) : Prop :=
  ∀ es' e, es' ++ [e] <+: es → Allows calls starts (World.run S left es') e

lemma Along.of_prefix (h : Along S calls starts left es) (hes : es' <+: es) :
    Along S calls starts left es' :=
  fun es'' e hes'' => h es'' e (hes''.trans hes)

/-- **Calls under a lock are made one after the other.** -/
theorem explained_run (hS : Meets S whole At) (h : Along S calls starts left es) :
    Explained S whole calls starts left At (World.run S left es) := by
  induction es using List.reverseRecOn with
  | nil => exact ⟨[], rfl, .init⟩
  | append_singleton es e ih =>
    rw [World.run_concat]
    exact (ih (h.of_prefix (List.prefix_append es [e]))).move hS (move_next S _ e)
      (h es e List.prefix_rfl)

/-- **The durable part only moves on.** -/
theorem left_run (hS : Meets S whole At) (hR : Advances ρ S whole calls starts left R)
    (h : Along S calls starts left es) (hes : es' <+: es) :
    R ((World.run S left es').process.left S) ((World.run S left es).process.left S) := by
  obtain ⟨rest, rfl⟩ := hes
  induction rest using List.reverseRecOn with
  | nil =>
    rw [List.append_nil]
    exact hR.refl _
  | append_singleton rest e ih =>
    rw [← List.append_assoc] at h ⊢
    have hinit := h.of_prefix (List.prefix_append (es' ++ rest) [e])
    rw [World.run_concat]
    exact hR.trans _ _ _ (ih hinit) ((explained_run hS hinit).left_move hS hR
      (move_next S _ e) (h _ e List.prefix_rfl))

/-- **All answers stay true.** -/
theorem answered_run (hS : Meets S whole At) (hR : Advances ρ S whole calls starts left R)
    (told : ∀ (history : List (Record ι ο ε ρ)) m m' a,
      Serial S whole calls starts left history (.inr m) → calls a.op → whole m a.op = (m', a.out) →
        Q a (S.durable m') ∧ ∀ b, Q b (S.durable m) → C b a)
    (keep : ∀ a d d', R d d' → Q a d → Q a d') (h : Along S calls starts left es) :
    (∀ a ∈ (World.run S left es).answered, Q a ((World.run S left es).process.left S)) ∧
      (World.run S left es).answered.Pairwise C := by
  obtain ⟨history, hanswers, hplaced⟩ := explained_run hS h
  obtain ⟨st, hserial, hmoves⟩ := hplaced.exists_serial hR
  obtain ⟨hall, hpairs⟩ := hserial.answers hR told keep
  rw [hanswers] at hall hpairs
  exact ⟨fun a ha => keep a _ _ hmoves (hall a ha), hpairs⟩

end Serial

/-! ### Every call is answered -/

section Progress

variable [DecidableEq ρ] {S : Service σ δ ι κ ο ε} {w : World σ δ ι κ ο ρ} {remaining : ι → κ → ℕ}

/-- **Who has the lock is answered after so many steps of its own.** -/
theorem exists_answered
    (less : ∀ op s s' point point', S.step op s point = (s', .inl point') →
      remaining op point' < remaining op point) {p : ρ} {op : ι} {s : σ} {point : κ}
    (hw : w.process = .up s (.held p op point)) :
    ∃ n ≤ remaining op point + 1, ∃ s' out,
      w.runFrom S (List.replicate n (.step p)) = ⟨.up s' .free, w.answered ++ [⟨p, op, out⟩]⟩ := by
  induction hrem : remaining op point using Nat.strong_induction_on generalizing w s point with
  | _ rem ih =>
    subst hrem
    rcases hstep : S.step op s point with ⟨s', point' | out⟩
    · have hnext : w.next S (.step p) = ⟨.up s' (.held p op point'), w.answered⟩ := by
        simp [World.next, hw, hstep]
      have hless := less _ _ _ _ _ hstep
      obtain ⟨n, hn, s'', out, heq⟩ :=
        ih _ hless (w := ⟨.up s' (.held p op point'), w.answered⟩) rfl rfl
      refine ⟨n + 1, by omega, s'', out, ?_⟩
      rw [List.replicate_succ, World.runFrom, List.foldl_cons, hnext]
      exact heq
    · refine ⟨1, by omega, s', out, ?_⟩
      simp [World.runFrom, World.next, hw, hstep]

end Progress

end Mutex
