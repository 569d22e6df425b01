/-
# What a proof handle binds

The statement and the chain of the mock backend are over the commitments that the slots
carry.  A handle is accepted for two lists exactly when these agree, so it binds the ordered
ids where each slot carries the commitment of its own contents.
-/
import Zequencer.Source.MockProver

namespace Zequencer

/-- The number and the ordered ids of a slot. -/
def CommittedSlot.ordered (s : CommittedSlot) : ℕ × List IntentId := (s.slot, s.intents)

lemma CommittedSlot.eq_of_ordered_eq {s t : CommittedSlot} (h : s.ordered = t.ordered)
    (hcommitment : s.commitment = t.commitment) : s = t := by
  obtain ⟨slot, intents, commitment⟩ := s
  obtain ⟨hslot, hintents⟩ := Prod.mk.inj h
  simp only at hslot hintents hcommitment
  rw [hslot, hintents, hcommitment]

namespace MockProver

lemma statement_inj {slots slots' : List CommittedSlot} :
    statement slots = statement slots' ↔
      slots.map CommittedSlot.commitment = slots'.map CommittedSlot.commitment := by
  have hcommitment : Function.Injective fun c : Commitment => c.bytes.toList := by
    rintro ⟨a⟩ ⟨b⟩ hab
    exact congrArg Commitment.mk (Vector.toList_inj.mp hab)
  have hstatement : ∀ l : List CommittedSlot, statement l =
      (l.map CommittedSlot.commitment).flatMap fun c => c.bytes.toList := by
    intro l
    rw [List.flatMap_map, statement]
  rw [hstatement, hstatement]
  exact (flatMap_injective (by decide) (fun c => Vector.length_toList) hcommitment).eq_iff

end MockProver

section Handle

variable [Keccak256]

/-- The slot carries the commitment of its own contents. -/
def CommittedSlot.Sealed (s : CommittedSlot) : Prop := commit s.slot s.intents = s.commitment

instance : DecidablePred CommittedSlot.Sealed := fun s =>
  inferInstanceAs (Decidable (commit s.slot s.intents = s.commitment))

/-- The hash is injective on what `commit` feeds it for these slots. -/
def NoCollision (slots : List CommittedSlot) : Prop :=
  ∀ s ∈ slots, ∀ t ∈ slots,
    Keccak256.digest (commitPreimage s.slot s.intents) =
        Keccak256.digest (commitPreimage t.slot t.intents) →
      commitPreimage s.slot s.intents = commitPreimage t.slot t.intents

instance : DecidablePred NoCollision := fun slots =>
  inferInstanceAs (Decidable (∀ s ∈ slots, ∀ t ∈ slots,
    Keccak256.digest (commitPreimage s.slot s.intents) =
        Keccak256.digest (commitPreimage t.slot t.intents) →
      commitPreimage s.slot s.intents = commitPreimage t.slot t.intents))

/-- Sealed slots under one commitment hold the same. -/
lemma CommittedSlot.Sealed.ordered_eq {s t : CommittedSlot} (hs : s.Sealed) (ht : t.Sealed)
    (hslot : s.slot < 2 ^ 64) (hslot' : t.slot < 2 ^ 64)
    (hinj : Keccak256.digest (commitPreimage s.slot s.intents) =
        Keccak256.digest (commitPreimage t.slot t.intents) →
      commitPreimage s.slot s.intents = commitPreimage t.slot t.intents)
    (hcommitment : s.commitment = t.commitment) : s.ordered = t.ordered := by
  have hcommit : commit s.slot s.intents = commit t.slot t.intents := by
    rw [hs, ht, hcommitment]
  have hdigest := congrArg Commitment.bytes hcommit
  obtain ⟨hnumber, hids⟩ := commitPreimage_inj hslot hslot' (hinj hdigest)
  exact Prod.ext hnumber hids

namespace MockProver

/-- The handle of a batch, which `prove` answers where it answers with one. -/
def handle (slots : List CommittedSlot) : ProofHandle :=
  ⟨.mock, chain slots, statement slots, MOCK_VKEY_HASH⟩

lemma eq_handle_of_prove {backend : MockProver} {slots : List CommittedSlot} {h : ProofHandle}
    (hprove : backend.prove slots = some (.ok h)) : h = handle slots := by
  unfold prove at hprove
  cases hfirst : slots.head? with
  | none => simp [hfirst] at hprove
  | some first =>
    cases hlast : slots.getLast? with
    | none => simp [hfirst, hlast] at hprove
    | some last =>
      simp only [hfirst, hlast] at hprove
      split_ifs at hprove with hfail
      · simp at hprove
      · exact (Except.ok.inj (Option.some.inj hprove)).symm

/-- No handle but the batch's own is accepted for it. -/
lemma verify_eq_ok_iff {h : ProofHandle} {slots : List CommittedSlot} :
    verify h slots = .ok () ↔ h = handle slots := by
  constructor
  · intro hok
    unfold verify at hok
    split_ifs at hok with hbackend hkey hinputs hproof
    obtain ⟨⟨⟩, proof, publicInputs, vkeyHash⟩ := h
    rw [handle, ← not_not.mp hkey, ← not_not.mp hinputs, ← not_not.mp hproof]
  · rintro rfl
    simp [verify, handle]

/-- The chain is over the statement, so batches share a handle where they share the
commitments. -/
lemma handle_inj {slots slots' : List CommittedSlot} :
    handle slots = handle slots' ↔
      slots.map CommittedSlot.commitment = slots'.map CommittedSlot.commitment := by
  rw [← statement_inj]
  constructor
  · exact fun h => congrArg ProofHandle.publicInputs h
  · intro h
    have hchain : chain slots = chain slots' := congrArg (fun l => (Keccak256.digest l).toList) h
    rw [handle, handle, h, hchain]

lemma commitments_eq_of_verify {h : ProofHandle} {slots slots' : List CommittedSlot}
    (hok : verify h slots = .ok ()) (hok' : verify h slots' = .ok ()) :
    slots.map CommittedSlot.commitment = slots'.map CommittedSlot.commitment :=
  handle_inj.mp ((verify_eq_ok_iff.mp hok).symm.trans (verify_eq_ok_iff.mp hok'))

end MockProver

lemma ordered_eq_of_sealed {slots slots' : List CommittedSlot}
    (hsealed : ∀ s ∈ slots ++ slots', s.Sealed) (hslots : ∀ s ∈ slots ++ slots', s.slot < 2 ^ 64)
    (hinj : NoCollision (slots ++ slots'))
    (hcommitments : slots.map CommittedSlot.commitment = slots'.map CommittedSlot.commitment) :
    slots.map CommittedSlot.ordered = slots'.map CommittedSlot.ordered := by
  have hlen : slots.length = slots'.length := by simpa using congrArg List.length hcommitments
  refine List.ext_getElem (by simpa using hlen) fun i hi hi' => ?_
  rw [List.length_map] at hi hi'
  rw [List.getElem_map, List.getElem_map]
  have hmem : slots[i] ∈ slots ++ slots' := List.mem_append_left _ (List.getElem_mem hi)
  have hmem' : slots'[i] ∈ slots ++ slots' := List.mem_append_right _ (List.getElem_mem hi')
  have hcommitment : slots[i].commitment = slots'[i].commitment := by
    have hget := congrArg (fun l : List Commitment => l[i]?) hcommitments
    simpa [hi, hi'] using hget
  exact (hsealed _ hmem).ordered_eq (hsealed _ hmem') (hslots _ hmem) (hslots _ hmem')
    (hinj _ hmem _ hmem') hcommitment

omit [Keccak256] in
lemma eq_of_ordered_eq {slots slots' : List CommittedSlot}
    (hcommitments : slots.map CommittedSlot.commitment = slots'.map CommittedSlot.commitment)
    (hordered : slots.map CommittedSlot.ordered = slots'.map CommittedSlot.ordered) :
    slots = slots' := by
  have hlen : slots.length = slots'.length := by simpa using congrArg List.length hordered
  refine List.ext_getElem hlen fun i hi hi' => ?_
  have hget := congrArg (fun l : List (ℕ × List IntentId) => l[i]?) hordered
  have hget' := congrArg (fun l : List Commitment => l[i]?) hcommitments
  exact CommittedSlot.eq_of_ordered_eq (by simpa [hi, hi'] using hget)
    (by simpa [hi, hi'] using hget')

/-- **A handle binds what it covers where every slot is sealed.**  Where the handle is turned away
before the commitments are looked at, or every slot of both lists carries the commitment of its
own contents, two lists it is accepted for hold the same, slot by slot.  Where the slots of one
list do, another one it is accepted for holds the same exactly if its slots do, too. -/
theorem handle_binds_of_sealed (h : ProofHandle) (slots slots' : List CommittedSlot)
    (hslots : ∀ s ∈ slots ++ slots', s.slot < 2 ^ 64) (hinj : NoCollision (slots ++ slots')) :
    ((h.backend ≠ .mock ∨ h.vkeyHash ≠ MOCK_VKEY_HASH ∨ ∀ s ∈ slots ++ slots', s.Sealed) →
      MockProver.verify h slots = .ok () → MockProver.verify h slots' = .ok () →
        slots.map CommittedSlot.ordered = slots'.map CommittedSlot.ordered) ∧
    ((∀ s ∈ slots, s.Sealed) →
      MockProver.verify h slots = .ok () → MockProver.verify h slots' = .ok () →
        (slots.map CommittedSlot.ordered = slots'.map CommittedSlot.ordered ↔
          ∀ s ∈ slots', s.Sealed)) := by
  constructor
  · rintro (hbackend | hkey | hsealed) hok hok'
    · rw [MockProver.verify_eq_ok_iff.mp hok] at hbackend
      exact absurd rfl hbackend
    · rw [MockProver.verify_eq_ok_iff.mp hok] at hkey
      exact absurd rfl hkey
    · exact ordered_eq_of_sealed hsealed hslots hinj (MockProver.commitments_eq_of_verify hok hok')
  · intro hsealed hok hok'
    have hcommitments := MockProver.commitments_eq_of_verify hok hok'
    refine ⟨fun hordered => ?_, fun hsealed' => ?_⟩
    · rw [← eq_of_ordered_eq hcommitments hordered]
      exact hsealed
    · exact ordered_eq_of_sealed (List.forall_mem_append.mpr ⟨hsealed, hsealed'⟩) hslots hinj
        hcommitments

end Handle

/-- Keccak-256, on the fixtures and on the commitment of a slot that has the first one. -/
@[reducible] def handleKeccak : Keccak256 where
  digest bytes :=
    if bytes = (@commit fixtureKeccak 0 [@Intent.id fixtureKeccak (dummy 0)]).bytes.toList then
      Bytes.ofNat 32 0xf30b14749184428812c4b901f1cd333a36b9a4f3db4d811bd29612abea3bea82
    else fixtureKeccak.digest bytes

/-- A slot with one intent, under its commitment. -/
def sealedSlot : CommittedSlot :=
  ⟨0, [@Intent.id handleKeccak (dummy 0)],
    @commit handleKeccak 0 [@Intent.id handleKeccak (dummy 0)]⟩

/-- The handle of a sealed slot is accepted for it, and for the slot emptied under its commitment,
which is not sealed. -/
theorem handle_binds_of_sealed_sealedSlot :
    let h := @MockProver.handle handleKeccak [sealedSlot]
    let emptied : CommittedSlot := { sealedSlot with intents := [] }
    [sealedSlot].map CommittedSlot.ordered = [sealedSlot].map CommittedSlot.ordered ∧
      @MockProver.verify handleKeccak h [emptied] = .ok () ∧
        ¬ ∀ s ∈ [emptied], @CommittedSlot.Sealed handleKeccak s := by
  intro h emptied
  have hbinds := @handle_binds_of_sealed handleKeccak h [sealedSlot] [sealedSlot]
    (by decide +kernel) (by decide +kernel)
  have hemptied := @handle_binds_of_sealed handleKeccak h [sealedSlot] [emptied]
    (by decide +kernel) (by decide +kernel)
  refine ⟨hbinds.1 (Or.inr (Or.inr (by decide +kernel))) (by decide +kernel) (by decide +kernel),
    by decide +kernel, ?_⟩
  rw [← hemptied.2 (by decide +kernel) (by decide +kernel) (by decide +kernel)]
  decide +kernel

/-- The intent can be taken out under the commitment. -/
theorem handle_accepted_for_altered_slot :
    ¬ ∀ (_ : Keccak256) (h : ProofHandle) (slots slots' : List CommittedSlot),
      (∀ s ∈ slots ++ slots', s.slot < 2 ^ 64) → NoCollision (slots ++ slots') →
        MockProver.verify h slots = .ok () → MockProver.verify h slots' = .ok () →
          slots.map CommittedSlot.ordered = slots'.map CommittedSlot.ordered := by
  intro h
  have hbound := h handleKeccak (@MockProver.handle handleKeccak [sealedSlot]) [sealedSlot]
    [{ sealedSlot with intents := [] }] (by decide +kernel) (by decide +kernel)
    (by decide +kernel) (by decide +kernel)
  revert hbound
  decide +kernel

end Zequencer
