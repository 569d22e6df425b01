/-
# Which build a preconfirmation names

The signature covers the commitment, and the measurement stands beside it in the quote.  A
holder who believes several builds accepts the same signature under each of them, so an
accepted preconfirmation tells the builds apart only for a holder who believes one.
-/
import Zequencer.Attester.Quotes

namespace Zequencer

/-- The claim with the measurement bytes of its quote replaced, and nothing else. -/
def PreconfClaim.withMeasurement (claim : PreconfClaim) (m : Measurement) : PreconfClaim :=
  { claim with quote := claim.quote.take (QUOTE_LEN - 32) ++ m.bytes.toList }

variable {slot : UInt64} {commitment : Commitment} {m m' : Measurement}

/-! ### The measurement in the quote -/

lemma take_encodeQuote (slot : UInt64) (commitment : Commitment) (m m' : Measurement) :
    (encodeQuote slot commitment m).take (QUOTE_LEN - 32) ++ m'.bytes.toList =
      encodeQuote slot commitment m' := by
  have hlen : (QUOTE_MAGIC ++ [QUOTE_VERSION] ++ leBytes 8 slot.toNat ++
      commitment.bytes.toList).length = QUOTE_LEN - 32 := by
    simp only [List.length_append, length_quoteMagic, List.length_singleton, length_leBytes,
      Vector.length_toList, QUOTE_LEN]
  rw [encodeQuote, List.take_left' hlen, encodeQuote]

lemma withMeasurement_quote {claim : PreconfClaim}
    (hquote : claim.quote = encodeQuote claim.slot claim.commitment m) (m' : Measurement) :
    (claim.withMeasurement m').quote = encodeQuote claim.slot claim.commitment m' := by
  rw [PreconfClaim.withMeasurement, hquote, take_encodeQuote]

lemma encodeQuote_inj (h : encodeQuote slot commitment m = encodeQuote slot commitment m') :
    m = m' := by
  have hdecoded := decodeQuote_encodeQuote slot commitment m
  rw [h, decodeQuote_encodeQuote] at hdecoded
  exact (Prod.mk.inj (Prod.mk.inj (Except.ok.inj hdecoded)).2).2.symm

/-! ### What the verifier makes of it -/

section Verify

variable [Keccak256] {verifier : Verifier} {claim : PreconfClaim} {intents : List IntentId}

/-- Once everything else is in order, the measurement decides. -/
lemma verifyPreconf_withMeasurement (h : verifyPreconf verifier claim intents = .ok ())
    (m' : Measurement) : verifyPreconf verifier (claim.withMeasurement m') intents =
      if verifier.trusts m' then .ok () else .error (.untrustedMeasurement m') := by
  obtain ⟨hcommit, m, hquote, -, hsig⟩ := verifyPreconf_eq_ok_iff.mp h
  have hquote' := withMeasurement_quote (decodeQuote_eq_ok_iff.mp hquote) m'
  have hslot : (claim.withMeasurement m').slot = claim.slot := rfl
  have hcommitment : (claim.withMeasurement m').commitment = claim.commitment := rfl
  have hsignature : (claim.withMeasurement m').signature = claim.signature := rfl
  rw [verifyPreconf, hquote', decodeQuote_encodeQuote, hslot, hcommitment, hsignature,
    if_neg (not_not.mpr hcommit)]
  by_cases htrust : verifier.trusts m'
  · simp [htrust, hsig]
  · simp [htrust]

/-- **The signature does not tell builds apart; the holder's trust does.**  When a claim is
accepted, the same claim with another measurement in its quote is accepted exactly if the
verifier trusts that build, and rejected for its build otherwise.  So an accepted
preconfirmation identifies the build exactly for a verifier that trusts one build only. -/
theorem accepted_under_every_trusted_build (verifier : Verifier) (claim : PreconfClaim)
    (intents : List IntentId) (h : verifyPreconf verifier claim intents = .ok ()) :
    (∀ m', verifyPreconf verifier (claim.withMeasurement m') intents =
        if verifier.trusts m' then .ok () else .error (.untrustedMeasurement m')) ∧
      ((∀ m', claim.withMeasurement m' ≠ claim →
          verifyPreconf verifier (claim.withMeasurement m') intents ≠ .ok ()) ↔
        ∃! m, verifier.trusts m) := by
  refine ⟨verifyPreconf_withMeasurement h, ?_⟩
  obtain ⟨-, m, hdecoded, htrust, -⟩ := verifyPreconf_eq_ok_iff.mp h
  have hquote := decodeQuote_eq_ok_iff.mp hdecoded
  have haccepted : ∀ m', verifyPreconf verifier (claim.withMeasurement m') intents = .ok () ↔
      verifier.trusts m' := by
    intro m'
    rw [verifyPreconf_withMeasurement h]
    by_cases htrust' : verifier.trusts m' <;> simp [htrust']
  have hsame : ∀ m', claim.withMeasurement m' = claim ↔ m' = m := by
    intro m'
    constructor
    · intro heq
      have hquote' := congrArg PreconfClaim.quote heq
      rw [withMeasurement_quote hquote, hquote] at hquote'
      exact encodeQuote_inj hquote'
    · rintro rfl
      have hquote' := withMeasurement_quote hquote m'
      rw [← hquote] at hquote'
      show { claim with quote := (claim.withMeasurement m').quote } = claim
      rw [hquote']
  constructor
  · intro hrejected
    refine ⟨m, htrust, fun m' htrust' => ?_⟩
    by_contra hne
    exact hrejected m' (mt (hsame m').mp hne) ((haccepted m').mpr htrust')
  · rintro ⟨only, -, honly⟩ m' hne hok
    have htrust' := (haccepted m').mp hok
    exact hne ((hsame m').mpr ((honly m' htrust').trans (honly m htrust).symm))

end Verify

/-! ### Two builds -/

/-- Another build of the enclave. -/
def otherMeasurement : Measurement := ⟨Vector.replicate 32 0x5f⟩

/-- Keccak-256, on the fixtures and on what the mock enclave signs for an empty slot 0. -/
@[reducible] def signingKeccak : Keccak256 where
  digest bytes :=
    if bytes = utf8Bytes "MOCKSIG" ++ (@commit fixtureKeccak 0 []).bytes.toList then
      Bytes.ofNat 32 0x769303a1706f6ecfa95a2f5b3d59888db936836c4c26cfd305e41c18bcdb3b7a
    else fixtureKeccak.digest bytes

/-- A holder who pins the mock enclave. -/
def mockHolder : Verifier := @MockVerifier.verifier signingKeccak (.pinning MOCK_MEASUREMENT)

/-- Trusts both builds, and accepts the mock enclave's signature scheme. -/
def eitherBuild : Verifier :=
  { mockHolder with trusts := fun m => m = MOCK_MEASUREMENT ∨ m = otherMeasurement }

/-- What the mock enclave answers on an empty slot 0. -/
def emptySlotClaim : PreconfClaim where
  slot := 0
  commitment := @commit signingKeccak 0 []
  quote := encodeQuote 0 (@commit signingKeccak 0 []) MOCK_MEASUREMENT
  signature := @Signature.mockOver signingKeccak (@commit signingKeccak 0 []).bytes.toList

theorem accepted_under_every_trusted_build_emptySlot :
    (∀ m', @verifyPreconf signingKeccak mockHolder (emptySlotClaim.withMeasurement m') [] =
        if mockHolder.trusts m' then .ok () else .error (.untrustedMeasurement m')) ∧
      ((∀ m', emptySlotClaim.withMeasurement m' ≠ emptySlotClaim →
          @verifyPreconf signingKeccak mockHolder (emptySlotClaim.withMeasurement m') [] ≠
            .ok ()) ↔
        ∃! m, mockHolder.trusts m) :=
  @accepted_under_every_trusted_build signingKeccak mockHolder emptySlotClaim []
    (by decide +kernel)

/-- The quote is rewritten to name the other trusted build, and is accepted again. -/
theorem measurement_not_bound_eitherBuild :
    ¬ ∀ (_ : Keccak256) (verifier : Verifier) (claim : PreconfClaim) (intents : List IntentId),
      verifyPreconf verifier claim intents = .ok () →
        ∀ m', verifier.trusts m' → claim.withMeasurement m' ≠ claim →
          verifyPreconf verifier (claim.withMeasurement m') intents ≠ .ok () := by
  intro h
  refine h signingKeccak eitherBuild emptySlotClaim [] ?_ otherMeasurement ?_ ?_ ?_
  all_goals decide +kernel

end Zequencer
