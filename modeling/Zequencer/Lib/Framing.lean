/-
# Self-delimiting encodings

An encoding is self-delimiting if a reader who knows what comes next can tell where it ends,
whatever follows it.  Fields written one after the other can then be told apart, although
nothing stands between them.
-/
import Zequencer.Lib.Bytes

/-- Two values that meet `P` are equal as soon as their encodings are, each followed by
anything; and what follows them is equal then, too. -/
def SelfDelimiting {α β : Type*} (P : α → Prop) (f : α → List β) : Prop :=
  ∀ ⦃a b : α⦄, P a → P b → ∀ ⦃s t : List β⦄, f a ++ s = f b ++ t → a = b ∧ s = t

namespace SelfDelimiting

variable {α β γ : Type*} {P : α → Prop} {Q : γ → Prop} {f : α → List β} {g : γ → List β}

lemma inj (h : SelfDelimiting P f) {a b : α} (ha : P a) (hb : P b) (hab : f a = f b) : a = b :=
  (h ha hb (congrArg (· ++ []) hab)).1

/-- A field of one width is self-delimiting. -/
lemma of_length {width : ℕ} (hlen : ∀ a, (f a).length = width)
    (hf : ∀ ⦃a b : α⦄, P a → P b → f a = f b → a = b) : SelfDelimiting P f := by
  intro a b ha hb s t h
  obtain ⟨hhead, htail⟩ := List.append_inj h ((hlen a).trans (hlen b).symm)
  exact ⟨hf ha hb hhead, htail⟩

/-- Two fields, the second where the first ends. -/
lemma append (hf : SelfDelimiting P f) (hg : SelfDelimiting Q g) :
    SelfDelimiting (fun x : α × γ => P x.1 ∧ Q x.2) fun x => f x.1 ++ g x.2 := by
  rintro ⟨a, c⟩ ⟨b, d⟩ ⟨ha, hc⟩ ⟨hb, hd⟩ s t h
  rw [List.append_assoc, List.append_assoc] at h
  obtain ⟨hfst, h⟩ := hf ha hb h
  obtain ⟨hsnd, htail⟩ := hg hc hd h
  exact ⟨Prod.ext hfst hsnd, htail⟩

/-- A field may stand for the value that it is read off, when it determines the value. -/
lemma comap {k : γ → α} (hf : SelfDelimiting P f) (hk : Function.Injective k)
    (hP : ∀ c, Q c → P (k c)) : SelfDelimiting Q fun c => f (k c) := by
  intro c d hc hd s t h
  obtain ⟨hkey, htail⟩ := hf (hP c hc) (hP d hd) h
  exact ⟨hk hkey, htail⟩

lemma number (width : ℕ) : SelfDelimiting (· < 256 ^ width) (leBytes width) :=
  of_length (length_leBytes width) fun _ _ ha hb h => leBytes_inj ha hb h

/-- A string of bytes after its length: the bytes may be any, the ones that a length or
another field would have included. -/
lemma lengthPrefixed {f : α → List UInt8} (width : ℕ) (hf : Function.Injective f) :
    SelfDelimiting (fun a => (f a).length < 256 ^ width)
      fun a => leBytes width (f a).length ++ f a := by
  intro a b ha hb s t h
  rw [List.append_assoc, List.append_assoc] at h
  obtain ⟨hlen, h⟩ := number width ha hb h
  obtain ⟨hbytes, htail⟩ := List.append_inj h hlen
  exact ⟨hf hbytes, htail⟩

end SelfDelimiting
