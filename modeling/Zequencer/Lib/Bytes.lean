/-
# Byte strings

Fixed-width byte arrays, ordered the way arrays of bytes are compared, the little-endian
bytes of a number, there and back, and blocks of one width written one after the other.
-/
import Mathlib.Algebra.Group.Nat.Defs
import Mathlib.Data.List.Lex
import Mathlib.Order.Lex

/-- An array of `n` bytes. -/
abbrev Bytes (n : ℕ) := Vector UInt8 n

/-- The first `width` little-endian bytes of a number. -/
def leBytes : ℕ → ℕ → List UInt8
  | 0, _ => []
  | width + 1, n => UInt8.ofNat n :: leBytes width (n / 256)

/-- The number with these little-endian bytes. -/
def leValue : List UInt8 → ℕ
  | [] => 0
  | b :: bytes => b.toNat + 256 * leValue bytes

@[simp] lemma length_leBytes (width n : ℕ) : (leBytes width n).length = width := by
  induction width generalizing n with
  | zero => rfl
  | succ width ih => rw [leBytes, List.length_cons, ih]

/-- Reading back what was written loses what did not fit. -/
lemma leValue_leBytes (width n : ℕ) : leValue (leBytes width n) = n % 256 ^ width := by
  induction width generalizing n with
  | zero => rw [leBytes, leValue, pow_zero, Nat.mod_one]
  | succ width ih =>
    have hhead : (UInt8.ofNat n).toNat = n % 256 := UInt8.toNat_ofNat'
    rw [leBytes, leValue, ih, hhead, pow_succ, Nat.mul_comm (256 ^ width), Nat.mod_mul]

lemma leBytes_mod (width n : ℕ) : leBytes width (n % 256 ^ width) = leBytes width n := by
  induction width generalizing n with
  | zero => rfl
  | succ width ih =>
    have hhead : UInt8.ofNat (n % 256 ^ (width + 1)) = UInt8.ofNat n := by
      rw [← UInt8.toNat_inj, UInt8.toNat_ofNat', UInt8.toNat_ofNat', pow_succ]
      exact Nat.mod_mul_left_mod n _ 256
    have htail : n % 256 ^ (width + 1) / 256 = n / 256 % 256 ^ width := by
      rw [pow_succ, Nat.mul_comm, Nat.mod_mul_right_div_self]
    rw [leBytes, leBytes, hhead, htail, ih]

lemma leValue_lt (bytes : List UInt8) : leValue bytes < 256 ^ bytes.length := by
  induction bytes with
  | nil => exact Nat.one_pos
  | cons b bytes ih =>
    have hb : b.toNat < 256 := b.toNat_lt
    rw [leValue, List.length_cons, pow_succ]
    omega

lemma leBytes_leValue (bytes : List UInt8) : leBytes bytes.length (leValue bytes) = bytes := by
  induction bytes with
  | nil => rfl
  | cons b bytes ih =>
    have hb : b.toNat < 256 := b.toNat_lt
    have hhead : UInt8.ofNat (b.toNat + 256 * leValue bytes) = b := by
      rw [← UInt8.toNat_inj, UInt8.toNat_ofNat']
      omega
    have htail : (b.toNat + 256 * leValue bytes) / 256 = leValue bytes := by omega
    rw [List.length_cons, leValue, leBytes, hhead, htail, ih]

/-- Numbers that fit are told apart by their bytes. -/
lemma leBytes_inj {width m n : ℕ} (hm : m < 256 ^ width) (hn : n < 256 ^ width)
    (h : leBytes width m = leBytes width n) : m = n := by
  have hvalue := congrArg leValue h
  rwa [leValue_leBytes, leValue_leBytes, Nat.mod_eq_of_lt hm, Nat.mod_eq_of_lt hn] at hvalue

lemma flatMap_injective {α β : Type*} {f : α → List β} {width : ℕ} (hwidth : 0 < width)
    (hlen : ∀ a, (f a).length = width) (hf : Function.Injective f) :
    Function.Injective (List.flatMap f) := by
  intro xs
  induction xs with
  | nil =>
    intro ys h
    cases ys with
    | nil => rfl
    | cons y ys =>
      have hempty := congrArg List.length h
      rw [List.flatMap_nil, List.flatMap_cons, List.length_append, hlen, List.length_nil] at hempty
      omega
  | cons x xs ih =>
    intro ys h
    cases ys with
    | nil =>
      have hempty := congrArg List.length h
      rw [List.flatMap_nil, List.flatMap_cons, List.length_append, hlen, List.length_nil] at hempty
      omega
    | cons y ys =>
      rw [List.flatMap_cons, List.flatMap_cons] at h
      obtain ⟨hhead, htail⟩ := List.append_inj h ((hlen x).trans (hlen y).symm)
      rw [hf hhead, ih htail]

namespace Bytes

variable {n : ℕ}

/-- The bytes of a number, most significant first: a digest as one writes it. -/
def ofNat (n value : ℕ) : Bytes n :=
  Vector.ofFn fun i => UInt8.ofNat (value / 256 ^ (n - 1 - i.val))

/-- The array of the first `n` of these bytes, filled up with zeros. -/
def ofList (n : ℕ) (bytes : List UInt8) : Bytes n := Vector.ofFn fun i => bytes.getD i 0

@[simp] lemma ofList_toList (b : Bytes n) : ofList n b.toList = b := by
  ext i hi
  simp [ofList, List.getD]

lemma toList_ofList {bytes : List UInt8} (h : bytes.length = n) :
    (ofList n bytes).toList = bytes := by
  refine List.ext_getElem (by simp [h]) fun i hi hi' => ?_
  simp [ofList, List.getD, hi']

/-- The values of the bytes, first byte first. -/
def digits (b : Bytes n) : List ℕ := b.toList.map UInt8.toNat

lemma digits_injective : Function.Injective (digits : Bytes n → List ℕ) := by
  intro a b h
  have htoNat : Function.Injective UInt8.toNat := fun x y hxy => UInt8.toNat_inj.mp hxy
  exact Vector.toList_inj.mp (htoNat.list_map h)

end Bytes
