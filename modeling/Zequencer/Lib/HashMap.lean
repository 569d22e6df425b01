/-
# Finite maps with the operations of a hash map

A hash map is a finite map from Mathlib; iteration order is never used.  Beside lookup,
insertion and removal there are the two operations on the entry of one key that programs
use: changing a value that is there, and putting a value in where there is none.
-/
import Mathlib.Data.Finmap

/-- A finite map from keys to values. -/
abbrev HashMap (K V : Type*) := Finmap fun _ : K => V

namespace HashMap

variable {K V : Type*} [DecidableEq K]

/-- Change the value of a key that is there. -/
def modify (m : HashMap K V) (k : K) (f : V → V) : HashMap K V :=
  match m.lookup k with
  | some v => m.insert k (f v)
  | none => m

/-- Put a value in where the key has none. -/
def orInsert (m : HashMap K V) (k : K) (v : V) : HashMap K V :=
  match m.lookup k with
  | some _ => m
  | none => m.insert k v

/-- Change the values of several keys, one after the other. -/
def modifyAll (m : HashMap K V) (ks : List K) (f : V → V) : HashMap K V :=
  ks.foldl (fun m k => m.modify k f) m

lemma lookup_insert_ite (m : HashMap K V) (k k' : K) (v : V) :
    (m.insert k v).lookup k' = if k' = k then some v else m.lookup k' := by
  split_ifs with h
  · rw [h, Finmap.lookup_insert]
  · exact Finmap.lookup_insert_of_ne _ h

lemma lookup_erase_ite (m : HashMap K V) (k k' : K) :
    (m.erase k).lookup k' = if k' = k then none else m.lookup k' := by
  split_ifs with h
  · rw [h, Finmap.lookup_erase]
  · exact Finmap.lookup_erase_ne h

lemma lookup_modify (m : HashMap K V) (k k' : K) (f : V → V) :
    (m.modify k f).lookup k' = if k' = k then (m.lookup k).map f else m.lookup k' := by
  unfold modify
  cases hk : m.lookup k with
  | none =>
    split_ifs with h
    · rw [h, hk, Option.map_none]
    · rfl
  | some v => simp only [lookup_insert_ite, Option.map_some]

lemma lookup_orInsert (m : HashMap K V) (k k' : K) (v : V) :
    (m.orInsert k v).lookup k' =
      if k' = k then some ((m.lookup k).getD v) else m.lookup k' := by
  unfold orInsert
  cases hk : m.lookup k with
  | none => simp only [lookup_insert_ite, Option.getD_none]
  | some w =>
    split_ifs with h
    · rw [h, hk, Option.getD_some]
    · rfl

lemma lookup_modifyAll (m : HashMap K V) {ks : List K} (hks : ks.Nodup) (k : K) (f : V → V) :
    (m.modifyAll ks f).lookup k = if k ∈ ks then (m.lookup k).map f else m.lookup k := by
  induction ks generalizing m with
  | nil => simp [modifyAll]
  | cons k' ks ih =>
    obtain ⟨hk', hks⟩ := List.nodup_cons.mp hks
    have hcons : m.modifyAll (k' :: ks) f = (m.modify k' f).modifyAll ks f := rfl
    rw [hcons, ih _ hks, lookup_modify]
    by_cases h : k = k'
    · subst h
      simp [hk']
    · simp [h]

end HashMap
