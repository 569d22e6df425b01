/-
# What the doorbell shows

`append` and `append_batch` of the in-memory log write under the lock, drop it, and publish the
position of their last entry on the watch channel.  Between the two steps others may write and
publish, so the value on the channel is that of whoever published last; it is the newest
position if that caller wrote last, too.
-/
import Mathlib.Data.List.Pairwise
import Mathlib.Logic.Function.Basic
import Zequencer.Lib.Stage
import Zequencer.Source.LogStores

namespace Zequencer

/-- A call of `append` or `append_batch`: who calls, and the position of the last entry. -/
structure AppendCall (ρ : Type*) where
  caller : ρ
  last : ℕ
deriving DecidableEq

/-- The log and the calls around it. -/
structure Publishing (ρ : Type*) where
  log : MemLog
  /-- The position a caller has written up to, and not published yet. -/
  unpublished : ρ → Option ℕ
  /-- The calls in the order in which they wrote. -/
  written : List (AppendCall ρ)
  /-- The calls in the order in which they published. -/
  published : List (AppendCall ρ)

/-- The two halves of an append: the write under the lock, and the signal after it. -/
inductive PublishEvent (ρ : Type*) where
  /-- Up to where the lock is dropped; `append` writes one entry. -/
  | write (p : ρ) (entries : List Entry)
  /-- `send_replace`. -/
  | publish (p : ρ)

section Calls

variable {ρ : Type*} [DecidableEq ρ] {w : Publishing ρ} {p : ρ}

namespace Publishing

/-- A new log, and no calls. -/
def new : Publishing ρ := ⟨.new, fun _ => none, [], []⟩

/-- One step of a caller.  A caller makes one call after the other. -/
def next (w : Publishing ρ) : PublishEvent ρ → Publishing ρ
  | .write p entries =>
    match w.unpublished p with
    | some _ => w
    | none =>
      -- `append_batch` of nothing is an error
      if entries.isEmpty then w
      else
        let (log, last) := w.log.write entries
        ⟨log, Function.update w.unpublished p (some last), w.written ++ [⟨p, last⟩], w.published⟩
  | .publish p =>
    match w.unpublished p with
    | none => w
    | some last =>
      ⟨w.log.ring last, Function.update w.unpublished p none, w.written,
        w.published ++ [⟨p, last⟩]⟩

/-- The steps of any number of callers, in any order. -/
def run (w : Publishing ρ) (es : List (PublishEvent ρ)) : Publishing ρ := es.foldl next w

lemma next_write {entries : List Entry} (hp : w.unpublished p = none) (he : entries ≠ []) :
    w.next (.write p entries) =
      ⟨(w.log.write entries).1, Function.update w.unpublished p (some (w.log.write entries).2),
        w.written ++ [⟨p, (w.log.write entries).2⟩], w.published⟩ := by
  have hne : entries.isEmpty = false := by simpa using he
  simp only [next, hp, hne, Bool.false_eq_true, if_false]

lemma next_publish {last : ℕ} (hp : w.unpublished p = some last) :
    w.next (.publish p) =
      ⟨w.log.ring last, Function.update w.unpublished p none, w.written,
        w.published ++ [⟨p, last⟩]⟩ := by
  simp only [next, hp]

theorem log_append_batch (hp : w.unpublished p = none) (entries : List Entry) :
    ((w.next (.write p entries)).next (.publish p)).log = (w.log.appendBatch entries).1 := by
  by_cases he : entries = []
  · subst he
    simp [next, hp, MemLog.appendBatch]
  · have hne : entries.isEmpty = false := by simpa using he
    rw [next_write hp he, next_publish (Function.update_self ..)]
    simp [MemLog.appendBatch, hne]

end Publishing

/-! ### The order of the calls -/

/-- The calls ascend as they are written, and those of one caller as they are published. -/
structure InTurn (w : Publishing ρ) : Prop where
  newest : ∀ c, w.written.getLast? = some c → c.last + 1 = w.log.entries.length
  below : ∀ c ∈ w.written, c.last < w.log.entries.length
  ascending : w.written.Pairwise fun c d => c.last < d.last
  all : w.written = [] → w.log.entries = []
  /-- Who is about to publish has written, and published nothing newer. -/
  pending : ∀ p last, w.unpublished p = some last → ⟨p, last⟩ ∈ w.written ∧
    ∀ c ∈ w.published, c.caller = p → c.last < last
  /-- Every call that has written publishes. -/
  settled : ∀ c ∈ w.written, c ∈ w.published ∨ w.unpublished c.caller = some c.last
  published : ∀ c ∈ w.published, c ∈ w.written
  byCaller : w.published.Pairwise fun c d => c.caller = d.caller → c.last < d.last
  doorbell : ∀ c, w.published.getLast? = some c → w.log.doorbell = c.last

namespace InTurn

omit [DecidableEq ρ] in
lemma new : InTurn (Publishing.new : Publishing ρ) where
  newest := by simp [Publishing.new]
  below := by simp [Publishing.new]
  ascending := List.Pairwise.nil
  all := fun _ => rfl
  pending := by simp [Publishing.new]
  settled := by simp [Publishing.new]
  published := by simp [Publishing.new]
  byCaller := List.Pairwise.nil
  doorbell := by simp [Publishing.new]

lemma write (h : InTurn w) {entries : List Entry} (hp : w.unpublished p = none)
    (he : entries ≠ []) : InTurn (w.next (.write p entries)) := by
  have hlen : 0 < entries.length := List.length_pos_of_ne_nil he
  have hlast : (w.log.write entries).2 + 1 = (w.log.write entries).1.entries.length := by
    simp only [MemLog.write, List.length_append]
    omega
  have hold : w.log.entries.length ≤ (w.log.write entries).2 := by
    simp only [MemLog.write, List.length_append]
    omega
  rw [Publishing.next_write hp he]
  refine ⟨?_, ?_, ?_, by simp, ?_, ?_, ?_, h.byCaller, h.doorbell⟩
  · intro c hc
    rw [List.getLast?_concat] at hc
    obtain rfl := Option.some.inj hc
    exact hlast
  · intro c hc
    rcases List.mem_append.mp hc with hc | hc
    · have hlt := h.below c hc
      show c.last < (w.log.write entries).1.entries.length
      omega
    · obtain rfl := List.mem_singleton.mp hc
      show (w.log.write entries).2 < (w.log.write entries).1.entries.length
      omega
  · refine List.pairwise_concat.mpr ⟨h.ascending, fun c hc => ?_⟩
    have hlt := h.below c hc
    show c.last < (w.log.write entries).2
    omega
  · intro q last hq
    dsimp only at hq
    by_cases hqp : q = p
    · subst hqp
      rw [Function.update_self] at hq
      obtain rfl := Option.some.inj hq
      refine ⟨by simp, fun c hc _ => ?_⟩
      have hlt := h.below c (h.published c hc)
      omega
    · rw [Function.update_of_ne hqp] at hq
      exact ⟨List.mem_append_left _ (h.pending q last hq).1, (h.pending q last hq).2⟩
  · intro c hc
    rcases List.mem_append.mp hc with hc | hc
    · rcases h.settled c hc with hdone | hwaits
      · exact Or.inl hdone
      · have hne : c.caller ≠ p := by
          intro heq
          rw [heq, hp] at hwaits
          simp at hwaits
        exact Or.inr ((Function.update_of_ne hne ..).trans hwaits)
    · obtain rfl := List.mem_singleton.mp hc
      exact Or.inr (Function.update_self ..)
  · exact fun c hc => List.mem_append_left _ (h.published c hc)

lemma publish (h : InTurn w) {last : ℕ} (hp : w.unpublished p = some last) :
    InTurn (w.next (.publish p)) := by
  obtain ⟨hwritten, hnewer⟩ := h.pending p last hp
  rw [Publishing.next_publish hp]
  refine ⟨h.newest, h.below, h.ascending, h.all, ?_, ?_, ?_, ?_, ?_⟩
  · intro q last' hq
    dsimp only at hq
    by_cases hqp : q = p
    · subst hqp
      rw [Function.update_self] at hq
      simp at hq
    · rw [Function.update_of_ne hqp] at hq
      refine ⟨(h.pending q last' hq).1, fun c hc hcaller => ?_⟩
      rcases List.mem_append.mp hc with hc | hc
      · exact (h.pending q last' hq).2 c hc hcaller
      · obtain rfl := List.mem_singleton.mp hc
        exact absurd hcaller.symm hqp
  · intro c hc
    rcases h.settled c hc with hdone | hwaits
    · exact Or.inl (List.mem_append_left _ hdone)
    · by_cases hcp : c.caller = p
      · rw [hcp, hp] at hwaits
        obtain rfl := Option.some.inj hwaits
        subst hcp
        exact Or.inl (by simp)
      · exact Or.inr ((Function.update_of_ne hcp ..).trans hwaits)
  · intro c hc
    rcases List.mem_append.mp hc with hc | hc
    · exact h.published c hc
    · obtain rfl := List.mem_singleton.mp hc
      exact hwritten
  · exact List.pairwise_concat.mpr ⟨h.byCaller, hnewer⟩
  · intro c hc
    rw [List.getLast?_concat] at hc
    obtain rfl := Option.some.inj hc
    rfl

lemma next (h : InTurn w) (e : PublishEvent ρ) : InTurn (w.next e) := by
  cases e with
  | write p entries =>
    cases hp : w.unpublished p with
    | some last =>
      simp only [Publishing.next, hp]
      exact h
    | none =>
      by_cases he : entries = []
      · simp only [Publishing.next, hp, he, List.isEmpty_nil, if_true]
        exact h
      · exact h.write hp he
  | publish p =>
    cases hp : w.unpublished p with
    | none =>
      simp only [Publishing.next, hp]
      exact h
    | some last => exact h.publish hp

lemma run (h : InTurn w) (es : List (PublishEvent ρ)) : InTurn (w.run es) := by
  induction es generalizing w with
  | nil => exact h
  | cons e es ih => exact ih (h.next e)

end InTurn

/-! ### When no call is in progress -/

/-- No caller is between writing and publishing. -/
def Publishing.Idle (w : Publishing ρ) : Prop := ∀ p, w.unpublished p = none

omit [DecidableEq ρ] in
lemma InTurn.exists_newest (h : InTurn w) (hidle : w.Idle) (hne : w.log.entries ≠ []) :
    ∃ c, w.written.getLast? = some c ∧ c ∈ w.written ∧ c ∈ w.published := by
  have hwritten : w.written ≠ [] := fun hnil => hne (h.all hnil)
  have hmem := List.getLast_mem hwritten
  refine ⟨w.written.getLast hwritten, List.getLast?_eq_some_getLast hwritten, hmem, ?_⟩
  rcases h.settled _ hmem with hdone | hwaits
  · exact hdone
  · rw [hidle] at hwaits
    simp at hwaits

omit [DecidableEq ρ] in
/-- Of the calls of one caller, the one published last is the newest. -/
lemma InTurn.le_of_published_last (h : InTurn w) {c d : AppendCall ρ}
    (hlast : w.published.getLast? = some c) (hd : d ∈ w.published) (hcaller : d.caller = c.caller) :
    d.last ≤ c.last := by
  obtain ⟨before, hbefore⟩ := List.getLast?_eq_some_iff.mp hlast
  have hpairs := h.byCaller
  rw [hbefore, List.pairwise_concat] at hpairs
  rw [hbefore, List.mem_append, List.mem_singleton] at hd
  rcases hd with hd | rfl
  · exact (hpairs.2 d hd hcaller).le
  · exact le_rfl

omit [DecidableEq ρ] in
lemma InTurn.eq_newest (h : InTurn w) {c d : AppendCall ρ} (hlast : w.written.getLast? = some c)
    (hd : d ∈ w.written) (heq : d.last = c.last) : d = c := by
  obtain ⟨before, hbefore⟩ := List.getLast?_eq_some_iff.mp hlast
  have hpairs := h.ascending
  rw [hbefore, List.pairwise_concat] at hpairs
  rw [hbefore, List.mem_append, List.mem_singleton] at hd
  rcases hd with hd | hd
  · have hlt := hpairs.2 d hd
    omega
  · exact hd

/-- **The doorbell shows what was published last.**  After every interleaving of any number of
callers of `append` and `append_batch`, whenever no call is in progress and the log is not
empty: the value of the doorbell is the position of the last entry that was written by the call
that published last; and that is the last entry of the log exactly if the caller that published
last is the one that wrote last. -/
theorem doorbell_newest_iff (es : List (PublishEvent ρ))
    (hidle : ((Publishing.new : Publishing ρ).run es).Idle)
    (hne : ((Publishing.new : Publishing ρ).run es).log.entries ≠ []) :
    let w := (Publishing.new : Publishing ρ).run es
    ∃ c, w.published.getLast? = some c ∧ c ∈ w.written ∧ w.log.doorbell = c.last ∧
      (w.log.doorbell + 1 = w.log.entries.length ↔
        w.written.getLast?.map AppendCall.caller = some c.caller) := by
  intro w
  have h : InTurn w := InTurn.new.run es
  obtain ⟨newest, hnewest, hmem, hpublished⟩ := h.exists_newest hidle hne
  have hnonempty : w.published ≠ [] := List.ne_nil_of_mem hpublished
  have hlast := List.getLast?_eq_some_getLast hnonempty
  generalize w.published.getLast hnonempty = c at hlast
  have hc : c ∈ w.written := h.published c (List.mem_of_getLast? hlast)
  have hend := h.newest newest hnewest
  refine ⟨c, hlast, hc, h.doorbell c hlast, ?_⟩
  rw [h.doorbell c hlast, hnewest, Option.map_some, Option.some.injEq]
  constructor
  · intro hlen
    have heq : c.last = newest.last := by omega
    rw [h.eq_newest hnewest hc heq]
  · intro hcaller
    have hle := h.le_of_published_last hlast hpublished hcaller
    have hlt := h.below c hc
    omega

end Calls

/-- Caller 0 writes first and publishes last; caller 1 writes and publishes in between. -/
def lateRing : List (PublishEvent ℕ) :=
  [.write 0 [.attestFailed ⟨0, "down"⟩], .write 1 [.attestFailed ⟨1, "down"⟩], .publish 1,
    .publish 0]

/-- Another call of caller 0 sets the doorbell right again. -/
theorem doorbell_newest_lateRing :
    let w := (Publishing.new : Publishing ℕ).run
      (lateRing ++ [.write 0 [.attestFailed ⟨2, "down"⟩], .publish 0])
    ∃ c, w.published.getLast? = some c ∧ c ∈ w.written ∧ w.log.doorbell = c.last ∧
      (w.log.doorbell + 1 = w.log.entries.length ↔
        w.written.getLast?.map AppendCall.caller = some c.caller) :=
  doorbell_newest_iff _ (by rintro (_ | _ | p) <;> rfl) (by decide +kernel)

/-- The doorbell shows position 0, and the log ends at position 1. -/
theorem doorbell_behind_lateRing :
    ¬ ∀ es : List (PublishEvent ℕ), ((Publishing.new : Publishing ℕ).run es).Idle →
      ((Publishing.new : Publishing ℕ).run es).log.entries ≠ [] →
        ((Publishing.new : Publishing ℕ).run es).log.doorbell + 1 =
          ((Publishing.new : Publishing ℕ).run es).log.entries.length := by
  intro h
  have hnewest := h lateRing (by rintro (_ | _ | p) <;> rfl) (by decide +kernel)
  revert hnewest
  decide +kernel

end Zequencer
