/-
# Views of the log

What the log says, by kind of entry, and the stretch of the log between two positions.
-/
import Zequencer.Source.Log

namespace Zequencer

/-! ### By kind -/

def Entry.received? : Entry → Option IntentReceived
  | .intentReceived r => some r
  | _ => none

def Entry.expired? : Entry → Option IntentExpired
  | .intentExpired x => some x
  | _ => none

def Entry.committed? : Entry → Option SlotCommitted
  | .slotCommitted c => some c
  | _ => none

@[simp] lemma Entry.received?_eq_some {e : Entry} {r : IntentReceived} :
    e.received? = some r ↔ e = .intentReceived r := by
  cases e <;> simp [Entry.received?]

@[simp] lemma Entry.expired?_eq_some {e : Entry} {x : IntentExpired} :
    e.expired? = some x ↔ e = .intentExpired x := by
  cases e <;> simp [Entry.expired?]

@[simp] lemma Entry.committed?_eq_some {e : Entry} {c : SlotCommitted} :
    e.committed? = some c ↔ e = .slotCommitted c := by
  cases e <;> simp [Entry.committed?]

lemma getElem?_append_singleton_eq_some {α : Type*} {l : List α} {x y : α} {p : ℕ} :
    (l ++ [x])[p]? = some y ↔ l[p]? = some y ∨ p = l.length ∧ x = y := by
  rcases lt_trichotomy p l.length with h | rfl | h
  · simp [List.getElem?_append_left h, h.ne]
  · simp
  · have hle : (l ++ [x]).length ≤ p := by
      rw [List.length_append, List.length_singleton]
      omega
    simp [List.getElem?_eq_none hle, List.getElem?_eq_none h.le, h.ne']

namespace Log

/-- The admitted intents, in log order. -/
def received (log : Log) : List IntentReceived := log.filterMap Entry.received?

/-- The recorded misses, in log order. -/
def expiries (log : Log) : List IntentExpired := log.filterMap Entry.expired?

/-- The committed slots, in log order. -/
def commits (log : Log) : List SlotCommitted := log.filterMap Entry.committed?

@[simp] lemma received_nil : received [] = [] := rfl

@[simp] lemma expiries_nil : expiries [] = [] := rfl

@[simp] lemma commits_nil : commits [] = [] := rfl

@[simp] lemma received_append (log log' : Log) :
    received (log ++ log') = received log ++ received log' :=
  List.filterMap_append

@[simp] lemma expiries_append (log log' : Log) :
    expiries (log ++ log') = expiries log ++ expiries log' :=
  List.filterMap_append

@[simp] lemma commits_append (log log' : Log) :
    commits (log ++ log') = commits log ++ commits log' :=
  List.filterMap_append

@[simp] lemma mem_received {log : Log} {r : IntentReceived} :
    r ∈ received log ↔ .intentReceived r ∈ log := by
  simp [received]

@[simp] lemma mem_expiries {log : Log} {x : IntentExpired} :
    x ∈ expiries log ↔ .intentExpired x ∈ log := by
  simp [expiries]

@[simp] lemma mem_commits {log : Log} {c : SlotCommitted} :
    c ∈ commits log ↔ .slotCommitted c ∈ log := by
  simp [commits]

lemma mem_received_append_left {log : Log} {r : IntentReceived} (h : r ∈ log.received)
    (log' : Log) : r ∈ received (log ++ log') := by
  rw [received_append]
  exact List.mem_append_left _ h

lemma mem_expiries_append_left {log : Log} {x : IntentExpired} (h : x ∈ log.expiries)
    (log' : Log) : x ∈ expiries (log ++ log') := by
  rw [expiries_append]
  exact List.mem_append_left _ h

lemma mem_commits_append_left {log : Log} {c : SlotCommitted} (h : c ∈ log.commits)
    (log' : Log) : c ∈ commits (log ++ log') := by
  rw [commits_append]
  exact List.mem_append_left _ h

@[simp] lemma received_singleton_of_none {e : Entry} (h : e.received? = none) :
    received [e] = [] := by
  simp [received, h]

@[simp] lemma expiries_singleton_of_none {e : Entry} (h : e.expired? = none) :
    expiries [e] = [] := by
  simp [expiries, h]

@[simp] lemma commits_singleton_of_none {e : Entry} (h : e.committed? = none) :
    commits [e] = [] := by
  simp [commits, h]

lemma received_concat_received (log : Log) (r : IntentReceived) :
    received (log ++ [.intentReceived r]) = log.received ++ [r] := by
  rw [received_append]
  rfl

lemma commits_concat_slot (log : Log) (c : SlotCommitted) :
    commits (log ++ [.slotCommitted c]) = log.commits ++ [c] := by
  rw [commits_append]
  rfl

lemma received_concat_of_none {e : Entry} (h : e.received? = none) (log : Log) :
    received (log ++ [e]) = received log := by
  rw [received_append, received_singleton_of_none h, List.append_nil]

lemma expiries_concat_of_none {e : Entry} (h : e.expired? = none) (log : Log) :
    expiries (log ++ [e]) = expiries log := by
  rw [expiries_append, expiries_singleton_of_none h, List.append_nil]

lemma commits_concat_of_none {e : Entry} (h : e.committed? = none) (log : Log) :
    commits (log ++ [e]) = commits log := by
  rw [commits_append, commits_singleton_of_none h, List.append_nil]

/-! ### Between two positions -/

/-- The entries at positions from `a` inclusive to `b` exclusive. -/
def window (log : Log) (a b : ℕ) : Log := (log.take b).drop a

@[simp] lemma window_self (log : Log) (a : ℕ) : log.window a a = [] := by
  simp [window]

lemma window_append {log : Log} {a b : ℕ} (h : b ≤ log.length) (log' : Log) :
    window (log ++ log') a b = window log a b := by
  simp [window, List.take_append_of_le_length h]

lemma window_split {log : Log} {a b c : ℕ} (hab : a ≤ b) (hbc : b ≤ c) :
    window log a c = window log a b ++ window log b c := by
  apply List.ext_getElem?
  intro i
  simp only [window, List.getElem?_append, List.getElem?_drop, List.getElem?_take,
    List.length_drop, List.length_take]
  grind

lemma window_sublist (log : Log) (a b : ℕ) : (window log a b).Sublist log :=
  (List.drop_sublist a _).trans (List.take_sublist b log)

lemma window_succ {log : Log} {p : ℕ} {e : Entry} (h : log[p]? = some e) :
    window log p (p + 1) = [e] := by
  obtain ⟨hlt, rfl⟩ := List.getElem?_eq_some_iff.mp h
  rw [window, List.take_succ_eq_append_getElem hlt, List.drop_left' (by simp [hlt.le])]

/-- What a read returns, up to a number of entries, is a window. -/
lemma map_take_readFrom (log : Log) (cursor n : ℕ) :
    ((log.readFrom cursor).take n).map Prod.snd = window log cursor (cursor + n) := by
  induction n generalizing cursor with
  | zero => simp
  | succ n ih =>
    cases he : log[cursor]? with
    | none =>
      have hle : log.length ≤ cursor := by simpa using he
      simp [readFrom_eq_nil hle, window, List.drop_eq_nil_of_le, hle]
    | some e =>
      calc ((log.readFrom cursor).take (n + 1)).map Prod.snd
          = e :: window log (cursor + 1) (cursor + 1 + n) := by
            rw [readFrom_eq_cons he, List.take_succ_cons, List.map_cons, ih]
        _ = window log cursor (cursor + 1) ++ window log (cursor + 1) (cursor + (n + 1)) := by
            rw [window_succ he, add_assoc, add_comm 1 n, List.singleton_append]
        _ = window log cursor (cursor + (n + 1)) :=
            (window_split (by omega) (by omega)).symm

end Log

end Zequencer
