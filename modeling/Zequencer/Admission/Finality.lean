/-
# Rejections are final

What the gate holds only grows, and whatever it refuses for what it holds stays refused.  Of
the rules on the clock, the client's own deadline and the guarantee window get harder to meet
as time passes, as long as the end of the window moves with the clock; it stops to do so where
the addition wraps.
-/
import Zequencer.Admission.History
import Zequencer.Sequencer.Window

namespace Zequencer

/-! ### What the gate holds -/

namespace Admission

/-- The second gate has seen whatever the first one has. -/
structure Grows (a a' : Admission) : Prop where
  guarantee : a'.guarantee = a.guarantee
  seen : a.seen ⊆ a'.seen
  nonces : ∀ s last, a.nonces.lookup s = some last →
    ∃ last', a'.nonces.lookup s = some last' ∧ last ≤ last'

variable {a a' a'' : Admission}

lemma Grows.refl (a : Admission) : Grows a a :=
  ⟨rfl, Finset.Subset.refl _, fun _ last h => ⟨last, h, UInt64.le_refl _⟩⟩

lemma Grows.trans (h : Grows a a') (h' : Grows a' a'') : Grows a a'' where
  guarantee := h'.guarantee.trans h.guarantee
  seen := h.seen.trans h'.seen
  nonces := by
    intro s last hlast
    obtain ⟨last', hlast', hle⟩ := h.nonces s last hlast
    obtain ⟨last'', hlast'', hle'⟩ := h'.nonces s last' hlast'
    exact ⟨last'', hlast'', UInt64.le_trans hle hle'⟩

/-- No id is evicted, and no nonce is lowered. -/
lemma grows_record (a : Admission) (id : IntentId) (s : Address) (n : UInt64) :
    Grows a (a.record id s n) where
  guarantee := rfl
  seen := by
    rw [seen_record]
    exact Finset.subset_insert id a.seen
  nonces := by
    intro s' last hlast
    rw [lookup_nonces_record]
    split_ifs with hs
    · refine ⟨_, rfl, ?_⟩
      rw [← hs, hlast, Option.getD_some]
      exact (le_max_nonce last n).1
    · exact ⟨last, hlast, UInt64.le_refl _⟩

lemma grows_recoverEntry (a : Admission) (e : Entry) : Grows a (recoverEntry a e) := by
  cases e with
  | intentReceived r => exact grows_record a r.intentId r.intent.submitter r.intent.nonce
  | _ => exact .refl a

lemma grows_recover {log log' : Log} (g : GuaranteeConfig) (h : log <+: log') :
    Grows (recover log g) (recover log' g) := by
  obtain ⟨more, rfl⟩ := h
  induction more using List.reverseRecOn with
  | nil =>
    rw [List.append_nil]
    exact .refl _
  | append_singleton more e ih =>
    rw [← List.append_assoc, recover_append]
    exact ih.trans (grows_recoverEntry _ e)

/-- An intent that passes a grown gate passed before, if it met the rules of the clock. -/
lemma Grows.check_ok (h : Grows a a') {id : IntentId} {i : Intent} {t t' : UInt64}
    (hadm : i.Admissible a.guarantee t) (hc : a'.check id i t' = .ok ()) :
    a.check id i t = .ok () := by
  obtain ⟨-, hseen, hnonce⟩ := check_eq_ok_iff.mp hc
  refine check_eq_ok_iff.mpr ⟨hadm, fun hmem => hseen (h.seen hmem), fun last hlast => ?_⟩
  obtain ⟨last', hlast', hle⟩ := h.nonces _ last hlast
  exact UInt64.lt_of_le_of_lt hle (hnonce last' hlast')

end Admission

/-! ### What the clock does -/

/-- The end of the window wraps between `t` and `t'`, and the deadline `d` lies after `t'` but
before the end of the window at `t`. -/
structure ReopensBetween (g : GuaranteeConfig) (t t' d : UInt64) : Prop where
  before : t.toNat + g.windowSize.toNat < 2 ^ 64
  wraps : 2 ^ 64 ≤ t'.toNat + g.windowSize.toNat
  alive : t' < d
  unmeetable : d.toNat < t.toNat + g.windowSize.toNat

lemma reopensBetween_iff {g : GuaranteeConfig} {t t' d : UInt64} : ReopensBetween g t t' d ↔
    t.toNat + g.windowSize.toNat < 2 ^ 64 ∧ 2 ^ 64 ≤ t'.toNat + g.windowSize.toNat ∧ t' < d ∧
      d.toNat < t.toNat + g.windowSize.toNat :=
  ⟨fun h => ⟨h.before, h.wraps, h.alive, h.unmeetable⟩,
    fun ⟨hbefore, hwraps, halive, hunmeetable⟩ => ⟨hbefore, hwraps, halive, hunmeetable⟩⟩

instance (g : GuaranteeConfig) (t t' d : UInt64) : Decidable (ReopensBetween g t t' d) :=
  decidable_of_iff _ reopensBetween_iff.symm

variable {g : GuaranteeConfig} {t t' d : UInt64}

lemma deadlineFor_toNat_of_wraps (h : 2 ^ 64 ≤ t.toNat + g.windowSize.toNat) :
    (g.deadlineFor t).toNat + 2 ^ 64 = t.toNat + g.windowSize.toNat := by
  have ht := t.toNat_lt
  have hw := g.windowSize.toNat_lt
  rw [GuaranteeConfig.deadlineFor, UInt64.toNat_add]
  omega

/-- A deadline that a window can be promised for later could be promised for before, except
where the end of the window wraps in between. -/
lemma window_reopens_iff (ht : t ≤ t') (halive : t' < d) (hlater : g.deadlineFor t' ≤ d) :
    d < g.deadlineFor t ↔ ReopensBetween g t t' d := by
  rw [UInt64.le_iff_toNat_le] at ht hlater
  have halive' := UInt64.lt_iff_toNat_lt.mp halive
  rw [UInt64.lt_iff_toNat_lt, reopensBetween_iff]
  by_cases hbefore : t.toNat + g.windowSize.toNat < 2 ^ 64
  · rw [deadlineFor_toNat hbefore]
    by_cases hafter : t'.toNat + g.windowSize.toNat < 2 ^ 64
    · rw [deadlineFor_toNat hafter] at hlater
      omega
    · simp only [hbefore, halive, true_and]
      omega
  · have hend := deadlineFor_toNat_of_wraps (Nat.le_of_not_lt hbefore)
    have hw := g.windowSize.toNat_lt
    omega

/-- As long as it does not reopen, whatever meets the rules at a later time met them before. -/
lemma Intent.Admissible.earlier {i : Intent} (h : i.Admissible g t') (ht : t ≤ t')
    (hstays : ¬ ReopensBetween g t t' i.deadlineMs) : i.Admissible g t where
  size := h.size
  base := h.base
  quote := h.quote
  slippage := h.slippage
  deadline := UInt64.lt_of_le_of_lt ht h.deadline
  window := by
    rw [← window_reopens_iff ht h.deadline h.window] at hstays
    exact UInt64.not_lt.mp hstays

/-! ### Later submissions -/

section Runs

variable [Keccak256]

/-- The gate of a process that was started on a log, after a schedule. -/
def gateAfter (g : GuaranteeConfig) (log : Log) (es : List (GateEvent ⊕ Entry)) :
    Stage.World Entry (Admission × Unit) :=
  (gateSystem g).runFrom ⟨log, Admission.recover log g, ()⟩ es

/-- The answer to a submission is a rejection. -/
def Rejected (w : Stage.World Entry (Admission × Unit)) (i : Intent) (nowMs : UInt64)
    (fault : Option LogError) : Prop :=
  ∃ r, (admitAndAppend w.log w.state.1 i nowMs fault).1 = .error (.rejected r)

lemma rejected_iff {w : Stage.World Entry (Admission × Unit)} {i : Intent} {nowMs : UInt64}
    {fault : Option LogError} :
    Rejected w i nowMs fault ↔ w.state.1.check i.id i nowMs ≠ .ok () := by
  unfold Rejected admitAndAppend
  rcases hc : w.state.1.check i.id i nowMs with r | ⟨⟩
  · simp
  · cases fault <;> simp

lemma gateAfter_eq_recover (log : Log) (es : List (GateEvent ⊕ Entry)) :
    (gateAfter g log es).state.1 = Admission.recover (gateAfter g log es).log g :=
  (gate_upholds_recover.beside _ fun _ _ _ _ he => he).runFrom
    (w := ⟨log, Admission.recover log g, ()⟩) rfl es

lemma gateAfter_grows (log : Log) (es fs : List (GateEvent ⊕ Entry)) :
    (gateAfter g log es).state.1.Grows (gateAfter g log (es ++ fs)).state.1 := by
  rw [gateAfter_eq_recover, gateAfter_eq_recover]
  refine Admission.grows_recover g ?_
  rw [gateAfter, gateAfter, Stage.runFrom_append]
  exact Stage.log_prefix_runFrom _ _ fs

/-- An intent with this deadline that meets every other rule. -/
def reopened (d : UInt64) : Intent := { dummy 0 with deadlineMs := d }

omit [Keccak256] in
lemma reopened_admissible_iff :
    (reopened d).Admissible g t ↔ t < d ∧ g.deadlineFor t ≤ d := by
  constructor
  · exact fun h => ⟨h.deadline, h.window⟩
  · rintro ⟨hdeadline, hwindow⟩
    have hsize : (dummy 0).size ≠ 0 := by decide
    have hslippage : (dummy 0).maxSlippageBps ≤ MAX_SLIPPAGE_BPS := by decide
    exact ⟨hsize, by simp [reopened, dummy], by simp [reopened, dummy], hslippage, hdeadline,
      hwindow⟩

lemma check_new_iff {i : Intent} : (Admission.new g).check i.id i t = .ok () ↔
    i.Admissible g t := by
  rw [Admission.check_eq_ok_iff]
  constructor
  · exact fun h => h.1
  · exact fun h => ⟨h, Finset.notMem_empty _, fun last hlast => by simp [Admission.new] at hlast⟩

/-- **A rejection is final, except where the end of the window wraps.**  An intent with the
deadline `d` that the gate refuses at time `t` is refused at every `t'` not before `t`, after
any schedule of submissions, restarts and entries of other stages, on whatever log the process
was started; and so for all such intents and schedules exactly if `d` does not lie between `t'`
and an end of the window at `t` that has wrapped by `t'`. -/
theorem rejection_final_iff (g : GuaranteeConfig) (t t' d : UInt64) (ht : t ≤ t') :
    (∀ (log : Log) (es fs : List (GateEvent ⊕ Entry)) (i : Intent), i.deadlineMs = d →
        (∃ r, (gateAfter g log es).state.1.check i.id i t = .error r) →
          ∀ fault, Rejected (gateAfter g log (es ++ fs)) i t' fault) ↔
      ¬ ReopensBetween g t t' d := by
  constructor
  · intro h hreopens
    have hcheck : (Admission.new g).check (reopened d).id (reopened d) t ≠ .ok () := by
      rw [Ne, check_new_iff, reopened_admissible_iff, not_and, UInt64.not_le]
      intro _
      rw [UInt64.lt_iff_toNat_lt, deadlineFor_toNat hreopens.before]
      exact hreopens.unmeetable
    have hcheck' : (Admission.new g).check (reopened d).id (reopened d) t' = .ok () := by
      rw [check_new_iff, reopened_admissible_iff]
      have hend := deadlineFor_toNat_of_wraps hreopens.wraps
      have hw := g.windowSize.toNat_lt
      have halive := UInt64.lt_iff_toNat_lt.mp hreopens.alive
      refine ⟨hreopens.alive, UInt64.le_iff_toNat_le.mpr ?_⟩
      omega
    cases hr : (Admission.new g).check (reopened d).id (reopened d) t with
    | ok u => exact hcheck hr
    | error r => exact rejected_iff.mp (h [] [] [] (reopened d) rfl ⟨r, hr⟩ none) hcheck'
  · rintro hstays log es fs i rfl ⟨r, hr⟩ fault
    rw [rejected_iff]
    intro hok
    have hgrows := gateAfter_grows (g := g) log es fs
    have hlater : i.Admissible g t' := by
      have hadm := (Admission.check_eq_ok_iff.mp hok).1
      rwa [gateAfter_eq_recover, Admission.guarantee_recover] at hadm
    have hearlier : i.Admissible (gateAfter g log es).state.1.guarantee t := by
      rw [gateAfter_eq_recover, Admission.guarantee_recover]
      exact hlater.earlier ht hstays
    rw [hgrows.check_ok hearlier hok] at hr
    cases hr

omit [Keccak256] in
/-- An intent that expires within the window is still refused when another one has been
admitted and the gate has restarted. -/
theorem rejection_final_testGuarantee :
    let w := @gateAfter fixtureKeccak testGuarantee []
      ([] ++ [.inl (.submit (dummy 0) testNow none), .inl .restart])
    w.log.length = 1 ∧ @Rejected fixtureKeccak w (reopened (testNow + 500)) (testNow + 100) none :=
  ⟨by decide +kernel,
    (@rejection_final_iff fixtureKeccak testGuarantee testNow (testNow + 100) (testNow + 500)
      (by decide)).mpr (by decide) [] [] _ (reopened (testNow + 500)) rfl
      ⟨.unmeetableWindow (testNow + 500) (testNow + 1000), by decide +kernel⟩ none⟩

/-- A window of 18446742373709551611 ms: it ends five milliseconds before 2⁶⁴ for an intent
that arrives at `testNow`. -/
def longWindow : GuaranteeConfig := ⟨⟨18446742373709551, ⟨611000000, by decide⟩⟩, 1⟩

omit [Keccak256] in
/-- What is refused since it expires before the window closes is admitted ten milliseconds
later. -/
theorem rejection_not_final_longWindow :
    ¬ ∀ (_ : Keccak256) (g : GuaranteeConfig) (t t' : UInt64), t ≤ t' →
      ∀ (log : Log) (es fs : List (GateEvent ⊕ Entry)) (i : Intent),
        (∃ r, (gateAfter g log es).state.1.check i.id i t = .error r) →
          ∀ fault, Rejected (gateAfter g log (es ++ fs)) i t' fault := by
  intro h
  have hrefused : (@gateAfter fixtureKeccak longWindow [] []).state.1.check
      (@Intent.id fixtureKeccak (dummy 0)) (dummy 0) testNow =
        .error (.unmeetableWindow (testNow + 60000) 18446744073709551611) := by decide +kernel
  have hagain := @rejected_iff fixtureKeccak _ _ _ _ |>.mp
    (h fixtureKeccak longWindow testNow (testNow + 10) (by decide) [] [] [] (dummy 0)
      ⟨_, hrefused⟩ none)
  revert hagain
  decide +kernel

end Runs

end Zequencer
