/-
# Quotes verify

A quote decodes to what it was encoded from and to nothing else, and a holder who pins a build
accepts exactly what the mock enclave of that build answers.
-/
import Zequencer.Source.MockEnclave

namespace Zequencer

/-! ### The layout -/

@[simp] lemma length_quoteMagic : QUOTE_MAGIC.length = 9 := by decide +kernel

lemma length_encodeQuote (slot : UInt64) (commitment : Commitment) (measurement : Measurement) :
    (encodeQuote slot commitment measurement).length = QUOTE_LEN := by
  simp only [encodeQuote, List.length_append, length_quoteMagic, List.length_singleton,
    length_leBytes, Vector.length_toList, QUOTE_LEN]

/-- **Producer and verifier share one layout.** -/
theorem decodeQuote_encodeQuote (slot : UInt64) (commitment : Commitment)
    (measurement : Measurement) :
    decodeQuote (encodeQuote slot commitment measurement) = .ok (slot, commitment, measurement) := by
  have hquote : encodeQuote slot commitment measurement =
      QUOTE_MAGIC ++ (QUOTE_VERSION :: (leBytes 8 slot.toNat ++
        (commitment.bytes.toList ++ measurement.bytes.toList))) := by
    simp only [encodeQuote, List.append_assoc, List.cons_append, List.nil_append]
  have hmagic : (encodeQuote slot commitment measurement).take QUOTE_MAGIC.length =
      QUOTE_MAGIC := by
    rw [hquote]
    exact List.take_left' rfl
  have hversion : (encodeQuote slot commitment measurement)[QUOTE_MAGIC.length]? =
      some QUOTE_VERSION := by
    rw [hquote, List.getElem?_append_right le_rfl, Nat.sub_self]
    rfl
  have hbody : (encodeQuote slot commitment measurement).drop (QUOTE_MAGIC.length + 1) =
      leBytes 8 slot.toNat ++ (commitment.bytes.toList ++ measurement.bytes.toList) := by
    rw [hquote, ← List.drop_drop, List.drop_left' rfl]
    rfl
  have hlen : (leBytes 8 slot.toNat).length = 8 := length_leBytes 8 _
  have hcommitment : commitment.bytes.toList.length = 32 := Vector.length_toList
  have hmeasurement : measurement.bytes.toList.length = 32 := Vector.length_toList
  have hslot : UInt64.ofNat (leValue (leBytes 8 slot.toNat)) = slot := by
    rw [leValue_leBytes, ← UInt64.toNat_inj, UInt64.toNat_ofNat']
    have hlt := slot.toNat_lt
    omega
  rw [decodeQuote, if_neg]
  · simp only [hbody]
    rw [List.take_left' hlen, hslot, List.drop_left' hlen, List.take_left' hcommitment,
      Bytes.ofList_toList, ← List.append_assoc, List.drop_left' (by simp),
      List.take_of_length_le hmeasurement.le, Bytes.ofList_toList]
  · rw [not_or, not_or, not_not, not_not, not_not]
    exact ⟨length_encodeQuote _ _ _, hmagic, hversion⟩

/-- **Nothing else decodes**: the fields read off a byte string make up the whole of it. -/
theorem decodeQuote_eq_ok_iff {quote : List UInt8} {slot : UInt64} {commitment : Commitment}
    {measurement : Measurement} :
    decodeQuote quote = .ok (slot, commitment, measurement) ↔
      quote = encodeQuote slot commitment measurement := by
  constructor
  · intro h
    unfold decodeQuote at h
    split_ifs at h with hbad
    rw [not_or, not_or, not_not, not_not, not_not] at hbad
    obtain ⟨hlen, hmagic, hversion⟩ := hbad
    obtain ⟨body, rfl⟩ : ∃ body, quote = QUOTE_MAGIC ++ QUOTE_VERSION :: body := by
      obtain ⟨hlt, hget⟩ := List.getElem?_eq_some_iff.mp hversion
      refine ⟨quote.drop (QUOTE_MAGIC.length + 1), ?_⟩
      conv_lhs => rw [← List.take_append_drop QUOTE_MAGIC.length quote, hmagic]
      rw [List.drop_eq_getElem_cons hlt, hget]
    have hbody : (QUOTE_MAGIC ++ QUOTE_VERSION :: body).drop (QUOTE_MAGIC.length + 1) = body := by
      rw [← List.drop_drop, List.drop_left' rfl]
      rfl
    have hwidth : body.length = 8 + (32 + 32) := by
      simp only [List.length_append, length_quoteMagic, List.length_cons, QUOTE_LEN] at hlen
      omega
    simp only [hbody] at h
    obtain ⟨rfl, rfl, rfl⟩ : UInt64.ofNat (leValue (body.take 8)) = slot ∧
        Commitment.mk (Bytes.ofList 32 ((body.drop 8).take 32)) = commitment ∧
        Measurement.mk (Bytes.ofList 32 ((body.drop 40).take 32)) = measurement := by
      simpa using h
    have hslot : (body.take 8).length = 8 := by simp [hwidth]
    have hcommitment : ((body.drop 8).take 32).length = 32 := by simp [hwidth]
    have hmeasurement : (body.drop 40).length = 32 := by simp [hwidth]
    have hvalue : leValue (body.take 8) < 2 ^ 64 := by
      have hlt := leValue_lt (body.take 8)
      rw [hslot] at hlt
      exact hlt
    have hbytes : leBytes 8 (UInt64.ofNat (leValue (body.take 8))).toNat = body.take 8 := by
      have hback := leBytes_leValue (body.take 8)
      rwa [hslot, ← UInt64.toNat_ofNat_of_lt' hvalue] at hback
    have hsplit : body.take 8 ++ ((body.drop 8).take 32 ++ body.drop 40) = body := by
      rw [show body.drop 40 = (body.drop 8).drop 32 by rw [List.drop_drop],
        List.take_append_drop, List.take_append_drop]
    rw [encodeQuote, hbytes, Bytes.toList_ofList hcommitment,
      List.take_of_length_le hmeasurement.le, Bytes.toList_ofList hmeasurement]
    simp only [List.append_assoc, List.cons_append, List.nil_append, hsplit]
  · rintro rfl
    exact decodeQuote_encodeQuote _ _ _

/-! ### What the verifier accepts -/

section Verify

variable [Keccak256]

/-- A claim is accepted exactly when the intents reproduce its commitment, and its quote is
for its slot and commitment, from a trusted build, under a valid signature. -/
lemma verifyPreconf_eq_ok_iff {verifier : Verifier} {claim : PreconfClaim}
    {intents : List IntentId} :
    verifyPreconf verifier claim intents = .ok () ↔
      commit claim.slot.toNat intents = claim.commitment ∧
        ∃ measurement, decodeQuote claim.quote = .ok (claim.slot, claim.commitment, measurement) ∧
          verifier.trusts measurement ∧
          verifier.signatureIsValid claim.commitment claim.signature := by
  unfold verifyPreconf
  by_cases hcommit : commit claim.slot.toNat intents = claim.commitment
  · rw [if_neg (not_not.mpr hcommit), and_iff_right hcommit]
    cases hquote : decodeQuote claim.quote with
    | error e => simp
    | ok q =>
      obtain ⟨slot, commitment, measurement⟩ := q
      simp only [ne_eq, Except.ok.injEq, Prod.mk.injEq]
      constructor
      · intro h
        split_ifs at h with hslot hcommitment htrust hsig
        exact ⟨measurement, ⟨hslot, hcommitment, rfl⟩, htrust, hcommitment ▸ hsig⟩
      · rintro ⟨_, ⟨rfl, rfl, rfl⟩, htrust, hsig⟩
        simp [htrust, hsig]
  · rw [if_pos hcommit]
    simp [hcommit]

lemma MockEnclave.attest_eq_ok_iff {m : MockEnclave} {slot : UInt64} {intents : List IntentId}
    {commitment : Commitment} {q : Quote} (hfail : slot ∉ m.failSlots) :
    m.attest slot intents commitment = .ok q ↔
      commit slot.toNat intents = commitment ∧
        q = ⟨encodeQuote slot commitment m.measurement,
          Signature.mockOver commitment.bytes.toList⟩ := by
  rw [MockEnclave.attest, if_neg hfail]
  split_ifs with hcommit
  · simp [hcommit]
  · simp [not_not.mp hcommit, eq_comm]

/-- **The verifier accepts exactly the honest evidence.**  A holder who pins a build accepts
the commitment of the intents, the quote encoded for slot, commitment and build, and the mock
signature over the commitment, which is what an enclave of the build answers on any slot it is
not told to fail, and nothing else.  Where the hash tells two lists apart, at most one of them
is accepted under one claim; no hash tells all lists apart. -/
theorem preconf_accepted_iff (m : Measurement) (claim : PreconfClaim) (intents : List IntentId) :
    (verifyPreconf (MockVerifier.pinning m).verifier claim intents = .ok () ↔
      claim.commitment = commit claim.slot.toNat intents ∧
        claim.quote = encodeQuote claim.slot claim.commitment m ∧
        claim.signature = Signature.mockOver claim.commitment.bytes.toList) ∧
    (∀ enclave : MockEnclave, enclave.measurement = m → claim.slot ∉ enclave.failSlots →
      (verifyPreconf (MockVerifier.pinning m).verifier claim intents = .ok () ↔
        enclave.attest claim.slot intents claim.commitment = .ok ⟨claim.quote, claim.signature⟩)) ∧
    ∀ intents' : List IntentId,
      (Keccak256.digest (commitPreimage claim.slot.toNat intents) =
          Keccak256.digest (commitPreimage claim.slot.toNat intents') →
        commitPreimage claim.slot.toNat intents = commitPreimage claim.slot.toNat intents') →
      verifyPreconf (MockVerifier.pinning m).verifier claim intents = .ok () →
      verifyPreconf (MockVerifier.pinning m).verifier claim intents' = .ok () →
        intents = intents' := by
  have haccept : ∀ ids, verifyPreconf (MockVerifier.pinning m).verifier claim ids = .ok () ↔
      claim.commitment = commit claim.slot.toNat ids ∧
        claim.quote = encodeQuote claim.slot claim.commitment m ∧
        claim.signature = Signature.mockOver claim.commitment.bytes.toList := by
    intro ids
    have htrusts : ∀ x, (MockVerifier.pinning m).verifier.trusts x ↔ x = m :=
      fun x => decide_eq_true_iff
    have hvalid : ∀ c s, (MockVerifier.pinning m).verifier.signatureIsValid c s ↔
        s = Signature.mockOver c.bytes.toList := fun c s => decide_eq_true_iff
    simp only [verifyPreconf_eq_ok_iff, decodeQuote_eq_ok_iff, htrusts, hvalid]
    constructor
    · rintro ⟨hcommit, measurement, hquote, rfl, hsig⟩
      exact ⟨hcommit.symm, hquote, hsig⟩
    · rintro ⟨hcommit, hquote, hsig⟩
      exact ⟨hcommit.symm, m, hquote, rfl, hsig⟩
  refine ⟨haccept intents, ?enclave, ?unique⟩
  case enclave =>
    rintro enclave rfl hfail
    rw [haccept, MockEnclave.attest_eq_ok_iff hfail, Quote.mk.injEq, eq_comm]
  case unique =>
    intro intents' hhash h h'
    rw [haccept] at h h'
    have hdigest : commit claim.slot.toNat intents = commit claim.slot.toNat intents' :=
      h.1.symm.trans h'.1
    have hslot : claim.slot.toNat < 2 ^ 64 := claim.slot.toNat_lt
    exact (commitPreimage_inj hslot hslot (hhash (Commitment.mk.inj hdigest))).2

lemma commit_toNat_ofNat (slot : ℕ) (intents : List IntentId) :
    commit (UInt64.ofNat slot).toNat intents = commit slot intents := by
  have hslot : (UInt64.ofNat slot).toNat = slot % 256 ^ 8 := UInt64.toNat_ofNat'
  rw [commit, commit, commitPreimage, commitPreimage, hslot, leBytes_mod]

/-- What an attestation claims of the slot it is for. -/
def SlotAttested.claim (a : SlotAttested) (c : SlotCommitted) : PreconfClaim :=
  ⟨UInt64.ofNat c.slot, c.commitment, a.quote, a.signature⟩

/-- An attestation by the mock enclave is accepted by a holder who pins its build. -/
lemma verifyPreconf_of_ruling {m : MockEnclave} {c : SlotCommitted} {a : SlotAttested}
    (h : ruling c (m.answer c) = .slotAttested a) :
    verifyPreconf (MockVerifier.pinning m.measurement).verifier (a.claim c) c.intents = .ok () := by
  unfold ruling at h
  by_cases hne : commit c.slot c.intents ≠ c.commitment
  · simp [hne] at h
  · rw [if_neg hne, MockEnclave.answer, MockEnclave.attest] at h
    by_cases hfail : UInt64.ofNat c.slot ∈ m.failSlots
    · simp [hfail] at h
    · rw [if_neg hfail, commit_toNat_ofNat, if_neg hne] at h
      obtain rfl := Entry.slotAttested.inj h
      rw [verifyPreconf_eq_ok_iff]
      refine ⟨?_, m.measurement, decodeQuote_encodeQuote _ _ _, ?_, ?_⟩
      · exact (commit_toNat_ofNat _ _).trans (not_not.mp hne)
      · exact decide_eq_true rfl
      · exact decide_eq_true rfl

end Verify

end Zequencer
