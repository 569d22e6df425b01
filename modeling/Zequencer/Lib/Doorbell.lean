/-
# A log with a doorbell

Appenders write to a shared log and then ring its doorbell, in two steps.  The doorbell is a
watched value: every ring moves its version on, and every consumer has a receiver that knows
the version it has seen.  A consumer waits until the version differs from that, marks it seen,
reads the log to its end and goes about its work, in which it may append and ring as well.

A consumer that is asleep has read past every entry that was rung for, however the steps of
all parties are interleaved.
-/
import Mathlib.Data.Int.Notation
import Mathlib.Data.List.Basic
import Mathlib.Logic.Function.Basic
import Mathlib.Tactic.Common

namespace Doorbell

/-! ### Consumers -/

/-- How far a consumer is. -/
inductive Phase where
  /-- Before the loop. -/
  | starting
  /-- In the loop: the log is read up to a position. -/
  | looping (reached : ℕ)
  /-- Out of the loop, for good. -/
  | ended

/-- Without reading, a consumer gets into the loop, stays where it is in it, or leaves it. -/
def Phase.Leads : Phase → Phase → Prop
  | .starting, _ => True
  | .looping reached, next => next = .looping reached ∨ next = .ended
  | .ended, next => next = .ended

/-- A consumer of a log of entries `E`, with private states `σ` and events `ε`. -/
structure Consumer (E σ ε : Type*) where
  init : σ
  /-- All it does but wait and read.  It may append an entry. -/
  step : List E → σ → ε → σ × Option E
  /-- The cursor it waits with, where it waits for the doorbell. -/
  cursor? : σ → Option ℕ
  /-- Read the log from the cursor on. -/
  read : List E → σ → σ
  phase : σ → Phase
  phase_of_cursor : ∀ s r, cursor? s = some r → phase s = .looping r
  phase_step : ∀ log s e, (phase s).Leads (phase (step log s e).1)
  phase_read : ∀ log s r, cursor? s = some r →
    ∃ reached, log.length ≤ reached ∧ phase (read log s) = .looping reached

/-- The receiver of a consumer. -/
inductive Receiver where
  | unsubscribed
  /-- Subscribed, which marks the current version as seen. -/
  | subscribed (seen : ℤ)
  /-- Set back once, so that there is something to see; `woken` when it has seen a version
  for which the log is not read yet. -/
  | listening (seen : ℤ) (woken : Bool)
deriving DecidableEq

/-- A consumer in the world: its own state, its receiver, and what it owes the doorbell. -/
structure Party (σ : Type*) where
  state : σ
  receiver : Receiver
  /-- The positions it has written and not rung for yet. -/
  unrung : List ℕ

/-! ### The world -/

/-- A log, its doorbell, and everyone who writes the one and rings or hears the other. -/
structure World (E A : Type*) {C : Type*} (σ : C → Type*) where
  log : List E
  version : ℕ
  /-- What the doorbell was rung with last. -/
  value : ℕ
  /-- The positions rung for. -/
  rung : List ℕ
  /-- The positions each appender has written and not rung for yet. -/
  appender : A → List ℕ
  party : ∀ c, Party (σ c)

/-- What may happen next in the world; each event is of one appender or of one consumer. -/
inductive Event (E A : Type*) {C : Type*} (ε : C → Type*) where
  /-- An appender writes, under the lock of the log. -/
  | write (a : A) (entries : List E)
  /-- It rings, after it dropped the lock. -/
  | ring (a : A)
  | subscribe (c : C)
  | markChanged (c : C)
  /-- A step of a consumer on its own; what it appends is written. -/
  | act (c : C) (e : ε c)
  /-- It rings for what it has written. -/
  | ringOwn (c : C)
  /-- Waiting ends: the version is marked as seen. -/
  | changed (c : C)
  /-- It reads the log. -/
  | read (c : C)
  /-- The task of a consumer ends, and may be started again. -/
  | stop (c : C)

variable {E A C : Type*} {σ ε : C → Type*} {K : ∀ c, Consumer E (σ c) (ε c)} {w : World E A σ}
  {c c' : C} {a a' : A}

namespace World

/-- Nothing written yet, nobody subscribed. -/
def init (K : ∀ c, Consumer E (σ c) (ε c)) : World E A σ where
  log := []
  version := 0
  value := 0
  rung := []
  appender _ := []
  party c := ⟨(K c).init, .unsubscribed, []⟩

/-- `send_replace`: a new version, whatever the value was. -/
def sendReplace (w : World E A σ) (positions : List ℕ) : World E A σ :=
  { w with
    version := w.version + 1
    value := positions.getLast?.getD w.value
    rung := w.rung ++ positions }

def append (w : World E A σ) (entries : List E) : World E A σ :=
  { w with log := w.log ++ entries }

def setAppender [DecidableEq A] (w : World E A σ) (a : A) (positions : List ℕ) : World E A σ :=
  { w with appender := Function.update w.appender a positions }

def setParty [DecidableEq C] (w : World E A σ) (c : C) (p : Party (σ c)) : World E A σ :=
  { w with party := Function.update w.party c p }

@[simp] lemma setParty_party_self [DecidableEq C] (w : World E A σ) (p : Party (σ c)) :
    (w.setParty c p).party c = p :=
  Function.update_self ..

lemma setParty_party_of_ne [DecidableEq C] (w : World E A σ) (p : Party (σ c)) (h : c' ≠ c) :
    (w.setParty c p).party c' = w.party c' :=
  Function.update_of_ne h ..

@[simp] lemma setAppender_appender_self [DecidableEq A] (w : World E A σ) (positions : List ℕ) :
    (w.setAppender a positions).appender a = positions :=
  Function.update_self ..

lemma setAppender_appender_of_ne [DecidableEq A] (w : World E A σ) (positions : List ℕ)
    (h : a' ≠ a) : (w.setAppender a positions).appender a' = w.appender a' :=
  Function.update_of_ne h ..

section Run

variable [DecidableEq A] [DecidableEq C]

/-- The world after one event.  Where a party is not at the point the event is about, nothing
happens. -/
def next (K : ∀ c, Consumer E (σ c) (ε c)) (w : World E A σ) : Event E A ε → World E A σ
  | .write a entries =>
    if w.appender a = [] then
      (w.append entries).setAppender a (List.range' w.log.length entries.length)
    else w
  | .ring a =>
    if w.appender a = [] then w else (w.sendReplace (w.appender a)).setAppender a []
  | .subscribe c =>
    match (w.party c).receiver with
    | .unsubscribed => w.setParty c { w.party c with receiver := .subscribed w.version }
    | _ => w
  | .markChanged c =>
    match (w.party c).receiver with
    | .subscribed seen => w.setParty c { w.party c with receiver := .listening (seen - 1) false }
    | _ => w
  | .act c e =>
    match (w.party c).receiver, (w.party c).unrung with
    | .listening seen false, [] =>
      let (s, entry) := (K c).step w.log (w.party c).state e
      (w.append entry.toList).setParty c
        ⟨s, .listening seen false, List.range' w.log.length entry.toList.length⟩
    | _, _ => w
  | .ringOwn c =>
    if (w.party c).unrung = [] then w
    else (w.sendReplace (w.party c).unrung).setParty c { w.party c with unrung := [] }
  | .changed c =>
    match (w.party c).receiver, (w.party c).unrung, (K c).cursor? (w.party c).state with
    | .listening seen false, [], some _ =>
      if seen = w.version then w
      else w.setParty c { w.party c with receiver := .listening w.version true }
    | _, _, _ => w
  | .read c =>
    match (w.party c).receiver with
    | .listening seen true =>
      w.setParty c
        ⟨(K c).read w.log (w.party c).state, .listening seen false, (w.party c).unrung⟩
    | _ => w
  | .stop c =>
    if (w.party c).unrung = [] then w.setParty c ⟨(K c).init, .unsubscribed, []⟩ else w

/-- The world after a schedule. -/
def run (K : ∀ c, Consumer E (σ c) (ε c)) (w : World E A σ) (es : List (Event E A ε)) :
    World E A σ :=
  es.foldl (next K) w

lemma run_append (w : World E A σ) (es es' : List (Event E A ε)) :
    run K w (es ++ es') = run K (run K w es) es' :=
  List.foldl_append

end Run

end World

/-! ### The invariant -/

/-- A receiver never knows a version that is still to come.  If it has seen the newest one and
the consumer is not about to read, then the consumer is past all that is rung for, or gone. -/
def Receiver.Ok {σ ε : Type*} (K : Consumer E σ ε) (version : ℕ) (rung : List ℕ) (s : σ) :
    Receiver → Prop
  | .unsubscribed => True
  | .subscribed seen => seen ≤ version
  | .listening seen true => seen ≤ version ∧ ∃ r, K.cursor? s = some r
  | .listening seen false => seen ≤ version ∧ (seen = version → K.phase s = .ended ∨
      ∃ reached, K.phase s = .looping reached ∧ ∀ pos ∈ rung, pos < reached)

/-- Whoever rings has written before, and every receiver is in order. -/
structure Inv (K : ∀ c, Consumer E (σ c) (ε c)) (w : World E A σ) : Prop where
  rung : ∀ pos ∈ w.rung, pos < w.log.length
  appender : ∀ a, ∀ pos ∈ w.appender a, pos < w.log.length
  unrung : ∀ c, ∀ pos ∈ (w.party c).unrung, pos < w.log.length
  receiver : ∀ c, (w.party c).receiver.Ok (K c) w.version w.rung (w.party c).state

lemma Receiver.Ok.ring {σ ε : Type*} {K : Consumer E σ ε} {version : ℕ} {rung rung' : List ℕ}
    {s : σ} {r : Receiver} (h : r.Ok K version rung s) : r.Ok K (version + 1) rung' s := by
  cases r with
  | unsubscribed => trivial
  | subscribed seen =>
    have hle : seen ≤ version := h
    show seen ≤ ((version + 1 : ℕ) : ℤ)
    omega
  | listening seen woken =>
    cases woken with
    | true =>
      have hle : seen ≤ version := h.1
      exact ⟨by omega, h.2⟩
    | false =>
      have hle : seen ≤ version := h.1
      exact ⟨by omega, fun heq => by omega⟩

namespace Inv

lemma init : Inv K (World.init K : World E A σ) where
  rung := by simp [World.init]
  appender := by simp [World.init]
  unrung := by simp [World.init]
  receiver := fun c => trivial

lemma sendReplace (h : Inv K w) {positions : List ℕ}
    (hpos : ∀ pos ∈ positions, pos < w.log.length) : Inv K (w.sendReplace positions) where
  rung := by
    intro pos hmem
    rcases List.mem_append.mp hmem with hmem | hmem
    · exact h.rung pos hmem
    · exact hpos pos hmem
  appender := h.appender
  unrung := h.unrung
  receiver := fun c => (h.receiver c).ring

lemma append (h : Inv K w) (entries : List E) : Inv K (w.append entries) := by
  have hle : w.log.length ≤ (w.append entries).log.length := by simp [World.append]
  exact ⟨fun pos hpos => Nat.lt_of_lt_of_le (h.rung pos hpos) hle,
    fun a pos hpos => Nat.lt_of_lt_of_le (h.appender a pos hpos) hle,
    fun c pos hpos => Nat.lt_of_lt_of_le (h.unrung c pos hpos) hle, h.receiver⟩

lemma setAppender [DecidableEq A] (h : Inv K w) {positions : List ℕ}
    (hpos : ∀ pos ∈ positions, pos < w.log.length) : Inv K (w.setAppender a positions) where
  rung := h.rung
  appender := by
    intro a' pos hmem
    by_cases ha : a' = a
    · subst ha
      rw [World.setAppender_appender_self] at hmem
      exact hpos pos hmem
    · rw [World.setAppender_appender_of_ne _ _ ha] at hmem
      exact h.appender a' pos hmem
  unrung := h.unrung
  receiver := h.receiver

lemma setParty [DecidableEq C] (h : Inv K w) {p : Party (σ c)}
    (hunrung : ∀ pos ∈ p.unrung, pos < w.log.length)
    (hreceiver : p.receiver.Ok (K c) w.version w.rung p.state) : Inv K (w.setParty c p) where
  rung := h.rung
  appender := h.appender
  unrung := by
    intro c'
    by_cases hc : c' = c
    · subst hc
      rw [World.setParty_party_self]
      exact hunrung
    · rw [World.setParty_party_of_ne _ _ hc]
      exact h.unrung c'
  receiver := by
    intro c'
    by_cases hc : c' = c
    · subst hc
      rw [World.setParty_party_self]
      exact hreceiver
    · rw [World.setParty_party_of_ne _ _ hc]
      exact h.receiver c'

lemma lt_of_mem_range' {entries : List E} {pos : ℕ}
    (hpos : pos ∈ List.range' w.log.length entries.length) :
    pos < (w.append entries).log.length := by
  have hlt := (List.mem_range'_1.mp hpos).2
  rw [World.append, List.length_append]
  exact hlt

variable [DecidableEq A] [DecidableEq C]

/-- **Every event keeps the invariant.** -/
lemma next (h : Inv K w) (e : Event E A ε) : Inv K (w.next K e) := by
  cases e with
  | write a entries =>
    rw [World.next]
    split_ifs with ha
    · exact (h.append entries).setAppender fun pos hpos => lt_of_mem_range' hpos
    · exact h
  | ring a =>
    rw [World.next]
    split_ifs with ha
    · exact h
    · exact (h.sendReplace (h.appender a)).setAppender (by simp)
  | subscribe c =>
    rw [World.next]
    split
    · exact h.setParty (h.unrung c) (Int.le_refl w.version)
    · exact h
  | markChanged c =>
    rw [World.next]
    split
    · next seen hseen =>
      have hle : seen ≤ w.version := by
        have hok := h.receiver c
        rwa [hseen] at hok
      refine h.setParty (h.unrung c) ⟨by omega, fun heq => ?_⟩
      omega
    · exact h
  | act c e =>
    rw [World.next]
    split
    · next seen hseen hunrung =>
      obtain ⟨hle, hpast⟩ : seen ≤ w.version ∧ (seen = w.version → (K c).phase (w.party c).state =
          .ended ∨ ∃ reached, (K c).phase (w.party c).state = .looping reached ∧
            ∀ pos ∈ w.rung, pos < reached) := by
        have hok := h.receiver c
        rwa [hseen] at hok
      have hleads := (K c).phase_step w.log (w.party c).state e
      generalize (K c).step w.log (w.party c).state e = r at hleads ⊢
      obtain ⟨s, entry⟩ := r
      refine (h.append entry.toList).setParty (fun pos hpos => lt_of_mem_range' hpos)
        ⟨hle, fun heq => ?_⟩
      rcases hpast heq with hended | ⟨reached, hloop, hall⟩
      · rw [hended] at hleads
        exact Or.inl hleads
      · rw [hloop] at hleads
        rcases hleads with hloop' | hended
        · exact Or.inr ⟨reached, hloop', hall⟩
        · exact Or.inl hended
    · exact h
  | ringOwn c =>
    rw [World.next]
    split_ifs with hunrung
    · exact h
    · exact (h.sendReplace (h.unrung c)).setParty (by simp) (h.receiver c).ring
  | changed c =>
    rw [World.next]
    split
    · next seen _ r _ _ hcursor =>
      split_ifs with hseen
      · exact h
      · exact h.setParty (h.unrung c) ⟨Int.le_refl _, _, hcursor⟩
    · exact h
  | read c =>
    rw [World.next]
    split
    · next seen hseen =>
      obtain ⟨hle, r, hr⟩ : seen ≤ w.version ∧ ∃ r, (K c).cursor? (w.party c).state = some r := by
        have hok := h.receiver c
        rwa [hseen] at hok
      obtain ⟨reached, hlen, hphase⟩ := (K c).phase_read w.log _ r hr
      refine h.setParty (h.unrung c) ⟨hle, fun _ => Or.inr ⟨reached, hphase, fun pos hpos => ?_⟩⟩
      exact Nat.lt_of_lt_of_le (h.rung pos hpos) hlen
    · exact h
  | stop c =>
    rw [World.next]
    split_ifs with hunrung
    · exact h.setParty (by simp) trivial
    · exact h

lemma run (h : Inv K w) (es : List (Event E A ε)) : Inv K (World.run K w es) := by
  induction es generalizing w with
  | nil => exact h
  | cons e es ih => exact ih (h.next e)

end Inv

/-! ### Nobody sleeps through an entry -/

/-- The consumer waits at this cursor, and there is no change it has not seen. -/
def Asleep (K : ∀ c, Consumer E (σ c) (ε c)) (w : World E A σ) (c : C) (r : ℕ) : Prop :=
  (w.party c).receiver = .listening w.version false ∧ (K c).cursor? (w.party c).state = some r

/-- **A consumer that is asleep is past every entry that was rung for.** -/
theorem Inv.lt_of_asleep (h : Inv K w) {r : ℕ} (hc : Asleep K w c r) :
    ∀ pos ∈ w.rung, pos < r := by
  have hok := h.receiver c
  rw [hc.1] at hok
  have hphase := (K c).phase_of_cursor _ r hc.2
  rcases hok.2 rfl with hended | ⟨reached, hloop, hall⟩
  · rw [hphase] at hended
    exact absurd hended (by simp)
  · rw [hphase] at hloop
    obtain rfl := Phase.looping.inj hloop
    exact hall

/-- There is a change the consumer has not seen. -/
def Unseen (w : World E A σ) (c : C) : Prop :=
  ∃ seen : ℤ, (w.party c).receiver = .listening seen false ∧ seen < w.version

/-- The consumer an event is about. -/
def Event.about? : Event E A ε → Option C
  | .write _ _ | .ring _ => none
  | .subscribe c | .markChanged c | .act c _ | .ringOwn c | .changed c | .read c | .stop c => some c

variable [DecidableEq A] [DecidableEq C]

namespace World

lemma version_le_next (w : World E A σ) (e : Event E A ε) : w.version ≤ (w.next K e).version := by
  cases e with
  | ring a =>
    rw [next]
    split_ifs with ha
    · exact Nat.le_refl _
    · exact Nat.le_succ w.version
  | ringOwn c =>
    rw [next]
    split_ifs with ha
    · exact Nat.le_refl _
    · exact Nat.le_succ w.version
  | changed c =>
    rw [next]
    split
    · split_ifs <;> exact Nat.le_refl _
    · exact Nat.le_refl _
  | _ =>
    rw [next]
    split <;> exact Nat.le_refl _

lemma party_next_of_ne {e : Event E A ε} (h : e.about? ≠ some c) :
    (w.next K e).party c = w.party c := by
  cases e with
  | write a entries =>
    rw [next]
    split_ifs <;> rfl
  | ring a =>
    rw [next]
    split_ifs <;> rfl
  | changed c' =>
    have hne : c ≠ c' := fun heq => h (congrArg some heq.symm)
    rw [next]
    split
    · split_ifs
      · rfl
      · exact setParty_party_of_ne _ _ hne
    · rfl
  | _ c' =>
    have hne : c ≠ c' := fun heq => h (congrArg some heq.symm)
    rw [next]
    split <;> first | rfl | exact setParty_party_of_ne _ _ hne

end World

/-- A change stays unseen until the consumer stops waiting. -/
lemma Unseen.next (h : Unseen w c) {e : Event E A ε} (hchanged : e ≠ .changed c)
    (hstop : e ≠ .stop c) : Unseen (w.next K e) c := by
  obtain ⟨seen, hseen, hlt⟩ := h
  have hversion : (w.version : ℤ) ≤ (w.next K e).version :=
    Int.ofNat_le.mpr (w.version_le_next e)
  refine ⟨seen, ?_, Int.lt_of_lt_of_le hlt hversion⟩
  by_cases habout : e.about? = some c
  · cases e with
    | write a entries => simp [Event.about?] at habout
    | ring a => simp [Event.about?] at habout
    | changed c' => exact absurd (congrArg Event.changed (Option.some.inj habout)) hchanged
    | stop c' => exact absurd (congrArg Event.stop (Option.some.inj habout)) hstop
    | subscribe c' =>
      obtain rfl := Option.some.inj habout
      rw [World.next, hseen]
      exact hseen
    | markChanged c' =>
      obtain rfl := Option.some.inj habout
      rw [World.next, hseen]
      exact hseen
    | read c' =>
      obtain rfl := Option.some.inj habout
      rw [World.next, hseen]
      exact hseen
    | act c' e =>
      obtain rfl := Option.some.inj habout
      rw [World.next, hseen]
      cases (w.party c').unrung with
      | nil => exact congrArg Party.receiver (World.setParty_party_self _ _)
      | cons pos rest => exact hseen
    | ringOwn c' =>
      obtain rfl := Option.some.inj habout
      rw [World.next]
      split_ifs with hunrung
      · exact hseen
      · rw [World.setParty_party_self]
        exact hseen
  · rw [World.party_next_of_ne habout]
    exact hseen

/-- Marking the receiver as changed leaves something to see until the consumer has waited. -/
theorem unseen_of_markChanged (h : Inv K w) {seen : ℤ}
    (hsub : (w.party c).receiver = .subscribed seen) (es : List (Event E A ε))
    (hes : ∀ e ∈ es, e ≠ .changed c ∧ e ≠ .stop c) :
    Unseen (World.run K w (.markChanged c :: es)) c := by
  have hmark : Unseen (w.next K (.markChanged c)) c := by
    have hle : seen ≤ w.version := by
      have hok := h.receiver c
      rwa [hsub] at hok
    refine ⟨seen - 1, ?_, ?_⟩
    · rw [World.next, hsub]
      exact congrArg Party.receiver (World.setParty_party_self _ _)
    · have hversion : (w.version : ℤ) ≤ (w.next K (.markChanged c)).version :=
        Int.ofNat_le.mpr (w.version_le_next _)
      omega
  show Unseen (World.run K (w.next K (.markChanged c)) es) c
  generalize w.next K (.markChanged c) = w' at hmark
  induction es generalizing w' with
  | nil => exact hmark
  | cons e es ih =>
    obtain ⟨hchanged, hstop⟩ := hes e List.mem_cons_self
    exact ih (fun e' he' => hes e' (List.mem_cons_of_mem e he')) _ (hmark.next hchanged hstop)

/-- Until it marks its receiver, a consumer has seen the version of its subscription. -/
lemma receiver_next_of_subscribed {seen : ℤ} (h : (w.party c).receiver = .subscribed seen)
    {e : Event E A ε} (hmark : e ≠ .markChanged c) (hstop : e ≠ .stop c) :
    ((w.next K e).party c).receiver = .subscribed seen := by
  by_cases habout : e.about? = some c
  · cases e with
    | write a entries => simp [Event.about?] at habout
    | ring a => simp [Event.about?] at habout
    | markChanged c' => exact absurd (congrArg Event.markChanged (Option.some.inj habout)) hmark
    | stop c' => exact absurd (congrArg Event.stop (Option.some.inj habout)) hstop
    | ringOwn c' =>
      obtain rfl := Option.some.inj habout
      rw [World.next]
      split_ifs with hunrung
      · exact h
      · rw [World.setParty_party_self]
        exact h
    | _ c' =>
      obtain rfl := Option.some.inj habout
      rw [World.next, h]
      exact h
  · rw [World.party_next_of_ne habout]
    exact h

/-- A consumer that subscribes and then marks its receiver has something to see until it has
waited. -/
theorem unseen_of_subscribe (h : Inv K w) (hfree : (w.party c).receiver = .unsubscribed)
    (es es' : List (Event E A ε)) (hes : ∀ e ∈ es, e ≠ .markChanged c ∧ e ≠ .stop c)
    (hes' : ∀ e ∈ es', e ≠ .changed c ∧ e ≠ .stop c) :
    Unseen (World.run K w (.subscribe c :: (es ++ .markChanged c :: es'))) c := by
  have hsub : ((w.next K (.subscribe c)).party c).receiver = .subscribed w.version := by
    rw [World.next, hfree]
    exact congrArg Party.receiver (World.setParty_party_self _ _)
  have hinv := h.next (.subscribe c)
  show Unseen (World.run K (w.next K (.subscribe c)) (es ++ .markChanged c :: es')) c
  generalize w.next K (.subscribe c) = w' at hsub hinv
  induction es generalizing w' with
  | nil => exact unseen_of_markChanged hinv hsub es' hes'
  | cons e es ih =>
    obtain ⟨hmark, hstop⟩ := hes e List.mem_cons_self
    exact ih (fun e' he' => hes e' (List.mem_cons_of_mem e he')) _
      (receiver_next_of_subscribed hsub hmark hstop) (hinv.next e)

/-- **A consumer with something to see is woken**: its wait ends, and it reads the log to its
end, whatever others do meanwhile. -/
theorem Unseen.woken (h : Unseen w c) {r : ℕ} (hunrung : (w.party c).unrung = [])
    (hcursor : (K c).cursor? (w.party c).state = some r) :
    ∃ reached, w.log.length ≤ reached ∧
      (K c).phase ((World.run K w [.changed c, .read c]).party c).state = .looping reached := by
  obtain ⟨seen, hseen, hlt⟩ := h
  have hne : seen ≠ w.version := by omega
  have hchanged : w.next K (.changed c) =
      w.setParty c { w.party c with receiver := .listening w.version true } := by
    rw [World.next, hseen, hunrung, hcursor]
    simp only [if_neg hne]
  obtain ⟨reached, hlen, hphase⟩ := (K c).phase_read w.log _ r hcursor
  refine ⟨reached, hlen, ?_⟩
  show (K c).phase (((w.next K (.changed c)).next K (.read c)).party c).state = _
  rw [hchanged, World.next, World.setParty_party_self]
  simp only [World.setParty_party_self]
  exact hphase

end Doorbell
