/-
# The window against the promise

The promise made to an intent is `max_slots` slots, and a slot lasts `slot_duration`, which is
exact to the nanosecond.  The window is computed from a slot rounded down to milliseconds, so
the part of each slot that is rounded away is missing once for every slot.
-/
import Zequencer.Source.Sequencer

namespace Zequencer

/-- The whole span. -/
def Duration.asNanos (d : Duration) : ℕ := d.secs.toNat * 1000000000 + d.nanos.val

/-- What a slot has beyond its whole milliseconds. -/
def Duration.subMillis (d : Duration) : ℕ := d.nanos.val % 1000000

/-- The span that is promised: `max_slots` slots, in nanoseconds. -/
def GuaranteeConfig.promised (g : GuaranteeConfig) : ℕ :=
  g.maxSlots.toNat * g.slotDuration.asNanos

variable {g : GuaranteeConfig} {now : UInt64}

lemma Duration.asNanos_eq (d : Duration) : d.asNanos = 1000000 * d.asMillis + d.subMillis := by
  unfold asNanos asMillis subMillis
  omega

/-- The promise is the product of the rounded slots, and what was rounded away. -/
lemma promised_eq (g : GuaranteeConfig) : g.promised =
    1000000 * (g.slotDuration.asMillis * g.maxSlots.toNat) +
      g.maxSlots.toNat * g.slotDuration.subMillis := by
  rw [GuaranteeConfig.promised, Duration.asNanos_eq, Nat.mul_add, Nat.mul_left_comm,
    Nat.mul_comm g.maxSlots.toNat g.slotDuration.asMillis]

lemma windowSize_toNat (hfit : g.promised < 2 ^ 64 * 1000000) :
    g.windowSize.toNat = g.slotDuration.asMillis * g.maxSlots.toNat := by
  have heq := promised_eq g
  have hlt : g.slotDuration.asMillis * g.maxSlots.toNat < 2 ^ 64 := by omega
  exact UInt64.toNat_ofNat_of_lt' hlt

/-- The window falls short by the whole milliseconds among what was rounded away. -/
lemma promised_div (hfit : g.promised < 2 ^ 64 * 1000000) :
    g.promised / 1000000 =
      g.windowSize.toNat + g.maxSlots.toNat * g.slotDuration.subMillis / 1000000 := by
  rw [windowSize_toNat hfit, promised_eq, Nat.mul_add_div (by decide)]

lemma deadlineFor_toNat (h : now.toNat + g.windowSize.toNat < 2 ^ 64) :
    (g.deadlineFor now).toNat = now.toNat + g.windowSize.toNat := by
  rw [GuaranteeConfig.deadlineFor, UInt64.toNat_add, Nat.mod_eq_of_lt h]

/-- **The window is the promised product exactly where rounding costs no millisecond.**  For
every slot duration and number of slots whose exact product is below 2⁶⁴ ms: the window is
that product in whole milliseconds, and every deadline is that much later than the arrival,
if and only if the fractions of a millisecond that the slots have do not add up to one. -/
theorem window_is_product_iff (g : GuaranteeConfig) (hfit : g.promised < 2 ^ 64 * 1000000) :
    (g.windowSize.toNat = g.promised / 1000000 ∧
        ∀ now : UInt64, now.toNat + g.promised / 1000000 < 2 ^ 64 →
          (g.deadlineFor now).toNat = now.toNat + g.promised / 1000000) ↔
      g.maxSlots.toNat * g.slotDuration.subMillis < 1000000 := by
  have hdiv := promised_div hfit
  constructor
  · rintro ⟨hwindow, -⟩
    omega
  · intro hrounded
    have hwindow : g.windowSize.toNat = g.promised / 1000000 := by omega
    refine ⟨hwindow, fun now hnow => ?_⟩
    rw [← hwindow] at hnow ⊢
    exact deadlineFor_toNat hnow

theorem window_is_product_testGuarantee :
    testGuarantee.windowSize.toNat = testGuarantee.promised / 1000000 ∧
      ∀ now : UInt64, now.toNat + testGuarantee.promised / 1000000 < 2 ^ 64 →
        (testGuarantee.deadlineFor now).toNat = now.toNat + testGuarantee.promised / 1000000 :=
  (window_is_product_iff testGuarantee (by decide)).mpr (by decide)

/-- Two slots of one and a half milliseconds. -/
def halfMillis : GuaranteeConfig := ⟨⟨0, ⟨1500000, by decide⟩⟩, 2⟩

/-- Three milliseconds are promised, and the window has two. -/
theorem window_falls_short_halfMillis :
    ¬ ∀ g : GuaranteeConfig, g.promised < 2 ^ 64 * 1000000 →
      g.windowSize.toNat = g.promised / 1000000 ∧
        ∀ now : UInt64, now.toNat + g.promised / 1000000 < 2 ^ 64 →
          (g.deadlineFor now).toNat = now.toNat + g.promised / 1000000 := by
  intro h
  have hwindow := (h halfMillis (by decide)).1
  revert hwindow
  decide

end Zequencer
