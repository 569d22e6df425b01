/-
# The identity of an intent

The bytes that an id is the hash of determine the intent: every field has a fixed width or
stands behind its length.  So two ids that were admitted are equal exactly when the intents
are, as far as the hash does not collide on them.
-/
import Zequencer.Admission.History
import Zequencer.Admission.Isolation
import Zequencer.Lib.Framing

namespace Zequencer

/-- The lengths of both strings fit into their prefixes. -/
structure Market.Fits (m : Market) : Prop where
  base : (utf8Bytes m.base).length < 2 ^ 64
  quote : (utf8Bytes m.quote).length < 2 ^ 64

/-! ### The fields of the encoding -/

lemma utf8Bytes_injective : Function.Injective utf8Bytes := by
  intro s t h
  have hdata : s.toByteArray.data = t.toByteArray.data := Array.toList_inj.mp h
  exact String.toByteArray_inj.mp (ByteArray.ext hdata)

lemma Side.toU8_injective : Function.Injective Side.toU8 := by
  intro s t h
  cases s <;> cases t <;> first | rfl | exact absurd h (by decide)

lemma selfDelimiting_address : SelfDelimiting (fun _ => True) fun a : Address => a.bytes.toList :=
  .of_length (fun a => a.bytes.length_toList) fun ⟨_⟩ ⟨_⟩ _ _ h =>
    congrArg Address.mk (Vector.toList_inj.mp h)

lemma selfDelimiting_u64 : SelfDelimiting (fun _ => True) fun n : UInt64 => leBytes 8 n.toNat :=
  (SelfDelimiting.number 8).comap (fun _ _ => UInt64.toNat_inj.mp) fun n _ => n.toNat_lt

lemma selfDelimiting_u16 : SelfDelimiting (fun _ => True) fun n : UInt16 => leBytes 2 n.toNat :=
  (SelfDelimiting.number 2).comap (fun _ _ => UInt16.toNat_inj.mp) fun n _ => n.toNat_lt

lemma selfDelimiting_u128 :
    SelfDelimiting (fun _ => True) fun n : BitVec 128 => leBytes 16 n.toNat :=
  (SelfDelimiting.number 16).comap (fun _ _ => BitVec.eq_of_toNat_eq) fun n _ => n.isLt

lemma selfDelimiting_side : SelfDelimiting (fun _ => True) fun s : Side => [s.toU8] :=
  .of_length (fun _ => rfl) fun _ _ _ _ h => Side.toU8_injective (List.singleton_inj.mp h)

/-- Whatever the strings hold, their lengths say where they end. -/
lemma selfDelimiting_market : SelfDelimiting Market.Fits fun m =>
    (leBytes 8 (utf8Bytes m.base).length ++ utf8Bytes m.base) ++
      (leBytes 8 (utf8Bytes m.quote).length ++ utf8Bytes m.quote) := by
  have hstring := SelfDelimiting.lengthPrefixed 8 utf8Bytes_injective
  refine (hstring.append hstring).comap (k := fun m : Market => (m.base, m.quote)) ?_ ?_
  · rintro ⟨base, quote⟩ ⟨base', quote'⟩ h
    obtain ⟨rfl, rfl⟩ := Prod.mk.inj h
    rfl
  · exact fun m h => ⟨h.base, h.quote⟩

lemma Intent.encoding_eq (i : Intent) :
    i.encoding = intentDomain ++ (i.submitter.bytes.toList ++ (leBytes 8 i.nonce.toNat ++
      (((leBytes 8 (utf8Bytes i.market.base).length ++ utf8Bytes i.market.base) ++
        (leBytes 8 (utf8Bytes i.market.quote).length ++ utf8Bytes i.market.quote)) ++
      ([i.side.toU8] ++ (leBytes 16 i.size.toNat ++ (leBytes 2 i.maxSlippageBps.toNat ++
        (leBytes 8 i.priorityFee.toNat ++ (leBytes 8 i.timestampMs.toNat ++
          leBytes 8 i.deadlineMs.toNat)))))))) := by
  simp only [encoding, List.append_assoc]

lemma Intent.encoding_inj {i j : Intent} (hi : i.market.Fits) (hj : j.market.Fits)
    (h : i.encoding = j.encoding) : i = j := by
  rw [encoding_eq, encoding_eq] at h
  -- field by field: each one ends where the next one begins
  have h := List.append_cancel_left h
  obtain ⟨hsubmitter, h⟩ := selfDelimiting_address trivial trivial h
  obtain ⟨hnonce, h⟩ := selfDelimiting_u64 trivial trivial h
  obtain ⟨hmarket, h⟩ := selfDelimiting_market hi hj h
  obtain ⟨hside, h⟩ := selfDelimiting_side trivial trivial h
  obtain ⟨hsize, h⟩ := selfDelimiting_u128 trivial trivial h
  obtain ⟨hslippage, h⟩ := selfDelimiting_u16 trivial trivial h
  obtain ⟨hfee, h⟩ := selfDelimiting_u64 trivial trivial h
  obtain ⟨htimestamp, h⟩ := selfDelimiting_u64 trivial trivial h
  have hdeadline := selfDelimiting_u64.inj trivial trivial h
  cases i
  cases j
  rw [Intent.mk.injEq]
  exact ⟨hsubmitter, hnonce, hmarket, hside, hsize, hslippage, hfee, htimestamp, hdeadline⟩

/-! ### Ids -/

section Ids

variable [Keccak256]

/-- The hash does not collide on the encodings of two intents. -/
def Intent.NoCollision (i j : Intent) : Prop :=
  Keccak256.digest i.encoding = Keccak256.digest j.encoding → i.encoding = j.encoding

/-- An id is the id of one intent, as far as the hash does not collide. -/
lemma Intent.id_eq_iff {i j : Intent} (hi : i.market.Fits) (hj : j.market.Fits)
    (hhash : i.NoCollision j) : i.id = j.id ↔ i = j := by
  constructor
  · intro h
    have hdigest : Keccak256.digest i.encoding = Keccak256.digest j.encoding :=
      congrArg IntentId.bytes h
    exact encoding_inj hi hj (hhash hdigest)
  · rintro rfl
    rfl

/-- **The identity of an intent is injective.**  For any two intents whose strings are
shorter than 2⁶⁴ bytes, the bytes fed to the hash are equal only if the intents are equal in
every field.  So two admitted ids, in any runs of the gate, coincide exactly when the intents
do, as far as the hash does not collide on the two. -/
theorem intent_identity_injective (i j : Intent) (hi : i.market.Fits) (hj : j.market.Fits) :
    (i.encoding = j.encoding → i = j) ∧
      ∀ (g h : GuaranteeConfig) (es fs : List (GateEvent ⊕ Entry)),
        ∀ r ∈ Log.received ((gateSystem g).run es).log,
          ∀ s ∈ Log.received ((gateSystem h).run fs).log,
            r.intent = i → s.intent = j → i.NoCollision j → (r.intentId = s.intentId ↔ i = j) := by
  refine ⟨Intent.encoding_inj hi hj, ?_⟩
  rintro g h es fs r hr s hs rfl rfl hhash
  have hcontent : ∀ (g : GuaranteeConfig) (es : List (GateEvent ⊕ Entry)),
      AdmissionHistory g ((gateSystem g).run es).log :=
    fun g es => ((gate_upholds_history.beside _ fun _ _ _ _ he => he).run es).2
  rw [(hcontent g es).content r hr, (hcontent h fs).content s hs]
  exact Intent.id_eq_iff hi hj hhash

/-- The case the length prefix exists for: one intent trades `AB/C`, the other `A/BC`. -/
def splitOne : Intent := { dummy 0 with market := ⟨"AB", "C"⟩ }

def splitOther : Intent := { dummy 0 with market := ⟨"A", "BC"⟩ }

/-- Keccak-256, on the two of them. -/
@[reducible] def splitKeccak : Keccak256 where
  digest bytes :=
    if bytes = splitOne.encoding then
      Bytes.ofNat 32 0xaf840ba35a03cf170e243cca7d5de183b0198ae77604047fe527a35cb96f2389
    else if bytes = splitOther.encoding then
      Bytes.ofNat 32 0x47d76ca940533b3f8f393e2adbadc73d1064a92e32d0bfcf4e463f97d3be5658
    else fixtureKeccak.digest bytes

/-- The only admission of a gate that is submitted one intent. -/
def onlyAdmission (i : Intent) : IntentReceived := ⟨@Intent.id splitKeccak i, i, testNow⟩

omit [Keccak256] in
theorem market_strings_are_length_prefixed :
    splitOne.encoding ≠ splitOther.encoding ∧
      (onlyAdmission splitOne).intentId ≠ (onlyAdmission splitOther).intentId := by
  obtain ⟨hbytes, hids⟩ := @intent_identity_injective splitKeccak splitOne splitOther
    ⟨by decide +kernel, by decide +kernel⟩ ⟨by decide +kernel, by decide +kernel⟩
  have hne : splitOne ≠ splitOther := by decide
  have hid := hids testGuarantee testGuarantee [.inl (.submit splitOne testNow none)]
    [.inl (.submit splitOther testNow none)] (onlyAdmission splitOne) (by decide +kernel)
    (onlyAdmission splitOther) (by decide +kernel) rfl rfl
    (by unfold Intent.NoCollision; decide +kernel)
  exact ⟨fun h => hne (hbytes h), fun h => hne (hid.mp h)⟩

end Ids

end Zequencer
