/-
# Sorted maps

A finite map over a linear order, kept as its list of entries in strictly ascending key
order.  The order is a field, so a map whose iteration is out of order cannot be built.
Grouping a list by a key puts every element at the end of the bucket of its key.
-/
import Mathlib.Order.Lattice
import Mathlib.Data.List.Induction
import Mathlib.Data.List.Perm.Basic
import Mathlib.Data.List.Flatten
import Mathlib.Tactic.Common

/-- A finite map, as its entries in strictly ascending key order. -/
structure SortedMap (K V : Type*) [LinearOrder K] where
  entries : List (K × V)
  sorted : entries.Pairwise fun a b => a.1 < b.1

namespace SortedMap

variable {K V W α : Type*} [LinearOrder K]

/-- The map without entries. -/
def empty : SortedMap K V := ⟨[], List.Pairwise.nil⟩

/-- The values, in ascending key order. -/
def values (m : SortedMap K V) : List V := m.entries.map Prod.snd

/-- The value of a key. -/
def find? (m : SortedMap K V) (k : K) : Option V :=
  (m.entries.find? fun e => e.1 = k).map Prod.snd

/-- Put `f` of the old value at the key `k` of an ascending list of entries. -/
def upsertList (k : K) (f : Option V → V) : List (K × V) → List (K × V)
  | [] => [(k, f none)]
  | (k', v) :: rest =>
    if k < k' then (k, f none) :: (k', v) :: rest
    else if k = k' then (k', f (some v)) :: rest
    else (k', v) :: upsertList k f rest

lemma mem_keys_upsertList {k k' : K} {f : Option V → V} {l : List (K × V)} :
    k' ∈ (upsertList k f l).map Prod.fst ↔ k' = k ∨ k' ∈ l.map Prod.fst := by
  induction l with
  | nil => simp [upsertList]
  | cons e rest ih =>
    obtain ⟨k₀, v⟩ := e
    rw [upsertList]
    split_ifs with hlt heq
    · simp
    · subst heq
      simp
    · simp only [List.map_cons, List.mem_cons, ih]
      tauto

lemma upsertList_sorted (k : K) (f : Option V → V) {l : List (K × V)}
    (h : l.Pairwise fun a b => a.1 < b.1) :
    (upsertList k f l).Pairwise fun a b => a.1 < b.1 := by
  induction l with
  | nil => exact List.pairwise_singleton _ _
  | cons e rest ih =>
    obtain ⟨k₀, v⟩ := e
    obtain ⟨hhead, htail⟩ := List.pairwise_cons.mp h
    rw [upsertList]
    split_ifs with hlt heq
    · refine List.pairwise_cons.mpr ⟨fun b hb => ?_, h⟩
      rcases List.mem_cons.mp hb with rfl | hb
      · exact hlt
      · exact hlt.trans (hhead b hb)
    · exact List.pairwise_cons.mpr ⟨hhead, htail⟩
    · refine List.pairwise_cons.mpr ⟨fun b hb => ?_, ih htail⟩
      -- the keys below the new one are the old keys and `k` itself
      rcases mem_keys_upsertList.mp (List.mem_map_of_mem hb) with hk | hk
      · exact hk ▸ lt_of_le_of_ne (not_lt.mp hlt) (Ne.symm heq)
      · obtain ⟨c, hc, hcb⟩ := List.mem_map.mp hk
        exact hcb ▸ hhead c hc

/-- Put `f` of the old value, if any, at the key `k`. -/
def upsert (m : SortedMap K V) (k : K) (f : Option V → V) : SortedMap K V :=
  ⟨upsertList k f m.entries, upsertList_sorted k f m.sorted⟩

/-- Remove a key. -/
def erase (m : SortedMap K V) (k : K) : SortedMap K V :=
  ⟨m.entries.filter fun e => e.1 ≠ k, m.sorted.filter _⟩

/-- Put a value at a key, in place of the old one. -/
def insert (m : SortedMap K V) (k : K) (v : V) : SortedMap K V := m.upsert k fun _ => v

/-- The greatest key. -/
def lastKey? (m : SortedMap K V) : Option K := m.entries.getLast?.map Prod.fst

/-- The entries from a key on, in ascending order. -/
def range (m : SortedMap K V) (k : K) : List (K × V) := m.entries.filter fun e => k ≤ e.1

/-- Change every value. -/
def mapValues (m : SortedMap K V) (f : V → W) : SortedMap K W :=
  ⟨m.entries.map fun e => (e.1, f e.2), m.sorted.map _ fun _ _ h => h⟩

/-- The buckets of a list: every element goes to the end of the bucket of its key. -/
def groupBy (key : α → K) (l : List α) : SortedMap K (List α) :=
  l.foldl (fun m x => m.upsert (key x) fun bucket => bucket.getD [] ++ [x]) empty

/-! ### The elements of the buckets -/

/-- All elements of a map of buckets, in iteration order. -/
def elems (m : SortedMap K (List α)) : List α := m.values.flatten

lemma upsertList_push_perm (k : K) (x : α) (l : List (K × List α)) :
    ((upsertList k (fun bucket => bucket.getD [] ++ [x]) l).map Prod.snd).flatten.Perm
      ((l.map Prod.snd).flatten ++ [x]) := by
  induction l with
  | nil => exact List.Perm.refl _
  | cons e rest ih =>
    obtain ⟨k₀, v⟩ := e
    rw [upsertList]
    split_ifs with hlt heq
    · simpa using (List.perm_append_singleton x (v ++ (rest.map Prod.snd).flatten)).symm
    · simp only [List.map_cons, List.flatten_cons, Option.getD_some, List.append_assoc]
      exact List.Perm.append_left v List.perm_append_comm
    · simp only [List.map_cons, List.flatten_cons, List.append_assoc]
      exact List.Perm.append_left v ih

lemma elems_upsert_push (m : SortedMap K (List α)) (k : K) (x : α) :
    (m.upsert k fun bucket => bucket.getD [] ++ [x]).elems.Perm (m.elems ++ [x]) :=
  upsertList_push_perm k x m.entries

theorem elems_groupBy_perm (key : α → K) (l : List α) : (groupBy key l).elems.Perm l := by
  induction l using List.reverseRecOn with
  | nil => exact List.Perm.refl _
  | append_singleton l x ih =>
    rw [groupBy, List.foldl_append]
    exact (elems_upsert_push (groupBy key l) (key x) x).trans (ih.append_right [x])

/-- A change of the values that rearranges every bucket rearranges the elements. -/
lemma elems_mapValues_perm (m : SortedMap K (List α)) {f : List α → List α}
    (hf : ∀ l, (f l).Perm l) : (m.mapValues f).elems.Perm m.elems := by
  obtain ⟨l, hl⟩ := m
  simp only [elems, values, mapValues, List.map_map, Function.comp_def]
  clear hl
  induction l with
  | nil => exact List.Perm.refl _
  | cons e rest ih => exact (hf e.2).append ih

/-! ### Lookup and removal -/

lemma mem_of_find? {m : SortedMap K V} {k : K} {v : V} (h : m.find? k = some v) :
    (k, v) ∈ m.entries := by
  obtain ⟨e, he, rfl⟩ := Option.map_eq_some_iff.mp h
  have hk : e.1 = k := by simpa using List.find?_some he
  exact hk ▸ List.mem_of_find?_eq_some he

lemma find?_of_mem {m : SortedMap K V} {k : K} {v : V} (h : (k, v) ∈ m.entries) :
    m.find? k = some v := by
  obtain ⟨l, hl⟩ := m
  simp only [find?]
  induction l with
  | nil => exact absurd h List.not_mem_nil
  | cons e rest ih =>
    obtain ⟨hhead, htail⟩ := List.pairwise_cons.mp hl
    rcases List.mem_cons.mp h with rfl | h
    · simp
    · have hne : e.1 ≠ k := (hhead _ h).ne
      simpa [hne] using ih htail h

lemma upsertList_of_mem {k : K} {f : Option V → V} {v : V} :
    ∀ {l : List (K × V)}, l.Pairwise (fun a b => a.1 < b.1) → (k, v) ∈ l →
      ∃ l₁ l₂, l = l₁ ++ (k, v) :: l₂ ∧ upsertList k f l = l₁ ++ (k, f (some v)) :: l₂ ∧
        l.filter (fun e => e.1 ≠ k) = l₁ ++ l₂ := by
  intro l hl hmem
  induction l with
  | nil => exact absurd hmem List.not_mem_nil
  | cons e rest ih =>
    obtain ⟨hhead, htail⟩ := List.pairwise_cons.mp hl
    rcases List.mem_cons.mp hmem with rfl | hmem
    · refine ⟨[], rest, rfl, by simp [upsertList], ?_⟩
      have hrest : ∀ b ∈ rest, b.1 ≠ k := fun b hb => (hhead b hb).ne'
      simpa [List.filter_eq_self] using hrest
    · obtain ⟨l₁, l₂, rfl, hup, hfil⟩ := ih htail hmem
      have hlt : e.1 < k := hhead _ hmem
      refine ⟨e :: l₁, l₂, rfl, ?_, ?_⟩
      · obtain ⟨k₀, v₀⟩ := e
        rw [upsertList, if_neg hlt.asymm, if_neg hlt.ne', hup, List.cons_append]
      · rw [List.filter_cons, if_pos (by simpa using hlt.ne), hfil, List.cons_append]

lemma find?_upsertList {k k' : K} {f : Option V → V} {l : List (K × V)}
    (h : l.Pairwise fun a b => a.1 < b.1) :
    ((upsertList k f l).find? fun e => e.1 = k').map Prod.snd =
      if k' = k then some (f ((l.find? fun e => e.1 = k).map Prod.snd))
      else (l.find? fun e => e.1 = k').map Prod.snd := by
  induction l with
  | nil =>
    by_cases hk : k' = k
    · simp [upsertList, hk]
    · simp [upsertList, hk, Ne.symm hk]
  | cons e rest ih =>
    obtain ⟨k₀, v⟩ := e
    obtain ⟨hhead, htail⟩ := List.pairwise_cons.mp h
    rcases lt_trichotomy k k₀ with hlt | rfl | hgt
    · -- a key below all others
      have hnone : ((k₀, v) :: rest).find? (fun e => e.1 = k) = none := by
        rw [List.find?_eq_none]
        intro e he
        rcases List.mem_cons.mp he with rfl | he
        · simpa using hlt.ne'
        · simpa using (hlt.trans (hhead e he)).ne'
      rw [upsertList, if_pos hlt, hnone]
      by_cases hk : k' = k
      · simp [hk]
      · simp [hk, Ne.symm hk]
    · rw [upsertList, if_neg (lt_irrefl k), if_pos rfl]
      by_cases hk : k' = k
      · simp [hk]
      · simp [hk, Ne.symm hk]
    · rw [upsertList, if_neg hgt.asymm, if_neg hgt.ne']
      by_cases hk₀ : k₀ = k'
      · subst hk₀
        simp [hgt.ne]
      · simp [hk₀, ih htail, hgt.ne]

lemma find?_upsert (m : SortedMap K V) (k k' : K) (f : Option V → V) :
    (m.upsert k f).find? k' = if k' = k then some (f (m.find? k)) else m.find? k' :=
  find?_upsertList m.sorted

lemma find?_erase (m : SortedMap K V) (k k' : K) :
    (m.erase k).find? k' = if k' = k then none else m.find? k' := by
  rw [find?, erase, List.find?_filter]
  split_ifs with hk
  · subst hk
    simp
  · have hsame : (fun e : K × V => decide (decide (e.1 ≠ k) = true ∧ decide (e.1 = k') = true)) =
        fun e => decide (e.1 = k') := by
      ext e
      by_cases he : e.1 = k'
      · simp [he, hk]
      · simp [he]
    rw [find?, hsame]

lemma find?_mapValues (m : SortedMap K V) (f : V → W) (k : K) :
    (m.mapValues f).find? k = (m.find? k).map f := by
  simp only [find?, mapValues, List.find?_map, Option.map_map, Function.comp_def]

/-- The bucket of a key; without one it is empty. -/
def bucket (m : SortedMap K (List α)) (k : K) : List α := (m.find? k).getD []

/-- **A bucket holds the elements of its key, in their order.** -/
theorem bucket_groupBy (key : α → K) (l : List α) (k : K) :
    (groupBy key l).bucket k = l.filter fun x => key x = k := by
  induction l using List.reverseRecOn with
  | nil => rfl
  | append_singleton l x ih =>
    rw [groupBy, List.foldl_append, List.foldl_cons, List.foldl_nil, bucket, find?_upsert,
      List.filter_append, ← ih]
    by_cases hk : key x = k
    · subst hk
      simp [bucket, groupBy]
    · simp [bucket, groupBy, hk, Ne.symm hk]

lemma mem_keys_groupBy {key : α → K} {l : List α} {k : K} :
    k ∈ (groupBy key l).entries.map Prod.fst ↔ ∃ x ∈ l, key x = k := by
  induction l using List.reverseRecOn with
  | nil => simp [groupBy, empty]
  | append_singleton l x ih =>
    rw [groupBy, List.foldl_append, List.foldl_cons, List.foldl_nil, upsert,
      mem_keys_upsertList]
    change k = key x ∨ k ∈ (groupBy key l).entries.map Prod.fst ↔ _
    rw [ih]
    simp only [List.mem_append, List.mem_singleton, or_and_right, exists_or, exists_eq_left]
    rw [or_comm, eq_comm]

/-- Taking the first element of a bucket away, and the bucket with it when it was the
last one. -/
lemma elems_pop_perm {m : SortedMap K (List α)} {k : K} {x : α} {rest : List α}
    (h : m.find? k = some (x :: rest)) :
    (x :: (if rest.isEmpty then m.erase k else m.upsert k fun _ => rest).elems).Perm
      m.elems := by
  obtain ⟨l₁, l₂, hl, hup, hfil⟩ :=
    upsertList_of_mem (f := fun _ => rest) m.sorted (mem_of_find? h)
  have helems : m.elems =
      (l₁.map Prod.snd).flatten ++ x :: (rest ++ (l₂.map Prod.snd).flatten) := by
    simp [elems, values, hl]
  split_ifs with hr
  · have herase : (m.erase k).elems = (l₁.map Prod.snd).flatten ++ (l₂.map Prod.snd).flatten := by
      simp only [elems, values, erase, hfil, List.map_append, List.flatten_append]
    rw [helems, herase, List.isEmpty_iff.mp hr]
    exact List.perm_middle.symm
  · have hups : (m.upsert k fun _ => rest).elems =
        (l₁.map Prod.snd).flatten ++ (rest ++ (l₂.map Prod.snd).flatten) := by
      simp only [elems, values, upsert, hup, List.map_append, List.map_cons,
        List.flatten_append, List.flatten_cons]
    rw [helems, hups]
    exact List.perm_middle.symm

/-! ### The last key -/

lemma upsertList_of_forall_lt {k : K} {f : Option V → V} {l : List (K × V)}
    (h : ∀ e ∈ l, e.1 < k) : upsertList k f l = l ++ [(k, f none)] := by
  induction l with
  | nil => rfl
  | cons e rest ih =>
    have he : e.1 < k := h e List.mem_cons_self
    rw [upsertList, if_neg he.asymm, if_neg he.ne', List.cons_append,
      ih fun e' he' => h e' (List.mem_cons_of_mem e he')]

lemma entries_insert {m : SortedMap K V} {k : K} (h : ∀ e ∈ m.entries, e.1 < k) (v : V) :
    (m.insert k v).entries = m.entries ++ [(k, v)] :=
  upsertList_of_forall_lt h

lemma le_of_lastKey? {m : SortedMap K V} {k : K} (h : m.lastKey? = some k) {e : K × V}
    (he : e ∈ m.entries) : e.1 ≤ k := by
  obtain ⟨last, hlast, rfl⟩ := Option.map_eq_some_iff.mp h
  obtain ⟨init, hinit⟩ := List.getLast?_eq_some_iff.mp hlast
  have hsorted := m.sorted
  rw [hinit] at hsorted he
  rcases List.mem_append.mp he with he | he
  · exact ((List.pairwise_append.mp hsorted).2.2 e he last List.mem_cons_self).le
  · rw [List.mem_singleton.mp he]

/-! ### Buckets, one by one -/

lemma mem_elems {m : SortedMap K (List α)} {x : α} : x ∈ m.elems ↔ ∃ k, x ∈ m.bucket k := by
  constructor
  · intro h
    obtain ⟨b, hb, hx⟩ := List.mem_flatten.mp h
    obtain ⟨⟨k, b⟩, he, rfl⟩ := List.mem_map.mp hb
    refine ⟨k, ?_⟩
    rwa [bucket, find?_of_mem he, Option.getD_some]
  · rintro ⟨k, hx⟩
    cases hb : m.find? k with
    | none => simp [bucket, hb] at hx
    | some b =>
      rw [bucket, hb, Option.getD_some] at hx
      exact List.mem_flatten.mpr ⟨b, List.mem_map_of_mem (mem_of_find? hb), hx⟩

lemma bucket_eq_nil {m : SortedMap K (List α)} (h : m.elems = []) (k : K) : m.bucket k = [] := by
  rw [List.eq_nil_iff_forall_not_mem]
  intro x hx
  have hmem := mem_elems.mpr ⟨k, hx⟩
  simp [h] at hmem

lemma bucket_mapValues {β : Type*} (m : SortedMap K (List α)) {f : List α → List β}
    (hf : f [] = []) (k : K) : (m.mapValues f).bucket k = f (m.bucket k) := by
  rw [bucket, find?_mapValues, bucket]
  cases m.find? k with
  | none => exact hf.symm
  | some b => rfl

/-- Taking the first element of a bucket away leaves the rest of it, and the others. -/
lemma bucket_pop (m : SortedMap K (List α)) (k k' : K) (rest : List α) :
    (if rest.isEmpty then m.erase k else m.upsert k fun _ => rest).bucket k' =
      if k' = k then rest else m.bucket k' := by
  split_ifs with hr hk hk
  · rw [bucket, find?_erase, if_pos hk, List.isEmpty_iff.mp hr]
    rfl
  · rw [bucket, find?_erase, if_neg hk, bucket]
  · rw [bucket, find?_upsert, if_pos hk]
    rfl
  · rw [bucket, find?_upsert, if_neg hk, bucket]

end SortedMap
