/-
  StarryOS.Lib.Table — FINITE MAPS WHOSE ENTRIES CAN BE COUNTED.

  A `Table K V` is a list of entries with distinct keys.  Clients reason
  through `lookup`, the map that the table represents, and through `count P`,
  the number of entries with property `P`.  Every operation has one lemma for
  each of the two:

    • `insert`   — `count` goes up by the new entry and down by the one replaced,
    • `erase`    — `count` goes down by the entry removed,
    • `mapVals`  — all values change at once, the keys stay,
    • `filterKeys` — all entries of some keys go at once.
-/
import Mathlib.Algebra.Order.Ring.Nat
import Mathlib.Data.List.Nodup

namespace StarryOS.Lib

open List

/-- Entries with distinct keys. -/
structure Table (K V : Type) where
  entries : List (K × V)
  nodup : (entries.map Prod.fst).Nodup

namespace Table

variable {K V : Type}

/-- The table without entries. -/
def empty : Table K V where
  entries := []
  nodup := List.nodup_nil

variable (t : Table K V)

def keys : List K := t.entries.map Prod.fst

/-- The number of entries with property `P`. -/
def count (P : K → V → Bool) (t : Table K V) : Nat := t.entries.countP (fun e => P e.1 e.2)

/-- Changes every value. -/
def mapVals (f : K → V → V) (t : Table K V) : Table K V where
  entries := t.entries.map (fun e => (e.1, f e.1 e.2))
  nodup := by
    rw [List.map_map]
    exact t.nodup

/-- The entries whose key satisfies `p`. -/
def filterKeys (p : K → Bool) (t : Table K V) : Table K V where
  entries := t.entries.filter (fun e => p e.1)
  nodup := (List.filter_sublist.map _).nodup t.nodup

variable [DecidableEq K] (k : K)

/-- The value stored under a key. -/
def lookup : Option V :=
  (t.entries.find? (fun e => e.1 = k)).map Prod.snd

/-- The table without the entry of `k`. -/
def erase : Table K V where
  entries := t.entries.filter (fun e => e.1 ≠ k)
  nodup := (List.filter_sublist.map _).nodup t.nodup

theorem not_mem_keys_erase : k ∉ (t.erase k).entries.map Prod.fst := by
  intro hk
  obtain ⟨e, he, hek⟩ := mem_map.mp hk
  simp [erase, hek] at he

/-- Stores `v` under `k`, in front. -/
def insert (v : V) : Table K V where
  entries := (k, v) :: (t.erase k).entries
  nodup := by
    rw [List.map_cons, List.nodup_cons]
    exact ⟨t.not_mem_keys_erase k, (t.erase k).nodup⟩

/-! ## §1. `lookup` is membership. -/

theorem lookup_eq_some_iff (v : V) : t.lookup k = some v ↔ (k, v) ∈ t.entries := by
  unfold lookup
  rw [Option.map_eq_some_iff]
  constructor
  · grind
  intro hm
  obtain ⟨e, he⟩ : ∃ e, t.entries.find? (fun e => e.1 = k) = some e := by
    rw [← Option.isSome_iff_exists, find?_isSome]
    exact ⟨(k, v), hm, by simp⟩
  have hk : e.1 = k := by simpa using find?_some he
  have heq : e = (k, v) := inj_on_of_nodup_map t.nodup (mem_of_find?_eq_some he) hm hk
  exact ⟨e, he, by rw [heq]⟩

theorem lookup_eq_none_iff : t.lookup k = none ↔ ∀ v, (k, v) ∉ t.entries := by
  constructor
  · intro h v hm
    rw [(t.lookup_eq_some_iff k v).mpr hm] at h
    cases h
  · intro h
    cases hp : t.lookup k with
    | none => rfl
    | some v => exact absurd ((t.lookup_eq_some_iff k v).mp hp) (h v)

theorem mem_keys_iff : k ∈ t.keys ↔ ∃ v, t.lookup k = some v := by
  simp [keys, mem_map, lookup_eq_some_iff]

/-- Two tables with the same entries of `j` agree on `lookup j`. -/
theorem lookup_congr {t u : Table K V} {j : K}
    (h : ∀ v, (j, v) ∈ t.entries ↔ (j, v) ∈ u.entries) : t.lookup j = u.lookup j := by
  cases hu : u.lookup j with
  | none =>
    refine (t.lookup_eq_none_iff j).mpr (fun v hv => ?_)
    exact (u.lookup_eq_none_iff j).mp hu v ((h v).mp hv)
  | some v => exact (t.lookup_eq_some_iff j v).mpr ((h v).mpr ((u.lookup_eq_some_iff j v).mp hu))

@[simp, grind =] theorem lookup_empty : (empty : Table K V).lookup k = none := rfl

@[grind =] theorem lookup_erase (k j : K) :
    (t.erase k).lookup j = if j = k then none else t.lookup j := by
  split
  next h =>
    rw [lookup_eq_none_iff]
    intro v hv
    simp [erase, h] at hv
  next h =>
    apply lookup_congr
    intro v
    simp [erase, h]

@[grind =] theorem lookup_insert (v : V) (j : K) :
    (t.insert k v).lookup j = if j = k then some v else t.lookup j := by
  split
  next h =>
    rw [lookup_eq_some_iff, h]
    exact .head _
  next h =>
    apply lookup_congr
    intro w
    simp [insert, erase, h]

@[grind =] theorem lookup_mapVals (f : K → V → V) (t : Table K V) (j : K) :
    (t.mapVals f).lookup j = (t.lookup j).map (f j) := by
  cases h : t.lookup j with
  | none =>
    rw [Option.map_none, lookup_eq_none_iff]
    intro v hv
    obtain ⟨e, he, heq⟩ := mem_map.mp hv
    cases heq
    exact (t.lookup_eq_none_iff e.1).mp h e.2 he
  | some v =>
    rw [Option.map_some, lookup_eq_some_iff]
    exact mem_map.mpr ⟨(j, v), (t.lookup_eq_some_iff j v).mp h, rfl⟩

@[grind =] theorem lookup_filterKeys (p : K → Bool) (t : Table K V) (j : K) :
    (t.filterKeys p).lookup j = if p j = true then t.lookup j else none := by
  split
  next h =>
    apply lookup_congr
    intro v
    simp [filterKeys, h]
  next h =>
    rw [lookup_eq_none_iff]
    intro v hv
    simp [filterKeys, h] at hv

/-! ## §2. Counting. -/

section Count

variable (P : K → V → Bool)

omit [DecidableEq K] in
/-- Counting only sees the values a property asks about. -/
theorem count_mapVals (f : K → V → V) (t : Table K V)
    (h : ∀ k v, P k (f k v) = P k v) : count P (t.mapVals f) = count P t := by
  unfold count mapVals
  rw [countP_map]
  apply countP_congr
  intro e _
  show P e.1 (f e.1 e.2) = true ↔ P e.1 e.2 = true
  rw [h]

omit [DecidableEq K] in
theorem count_filterKeys_le (p : K → Bool) (t : Table K V) :
    count P (t.filterKeys p) ≤ count P t := by
  unfold count filterKeys
  exact filter_sublist.countP_le

variable {t : Table K V} {k : K} {v : V}

theorem filterKeys_of_all {p : K → Bool} (h : ∀ k v, t.lookup k = some v → p k = true) :
    t.filterKeys p = t := by
  unfold filterKeys
  congr 1
  rw [filter_eq_self]
  intro e he
  exact h e.1 e.2 ((t.lookup_eq_some_iff e.1 e.2).mpr he)

/-- Properties that imply one another are counted in order. -/
theorem count_le_of_imp {Q : K → V → Bool} (t : Table K V)
    (h : ∀ k v, t.lookup k = some v → P k v = true → Q k v = true) : count P t ≤ count Q t := by
  apply countP_mono_left
  intro e he
  exact h e.1 e.2 ((t.lookup_eq_some_iff e.1 e.2).mpr he)

theorem erase_of_lookup_none (h : t.lookup k = none) : (t.erase k).entries = t.entries := by
  unfold erase
  rw [filter_eq_self]
  intro e he
  have hne : e.1 ≠ k := by
    intro hek
    exact (t.lookup_eq_none_iff k).mp h e.2 (hek ▸ he)
  simpa using hne

/-- **Removal** takes one entry away. -/
theorem count_erase (h : t.lookup k = some v) :
    count P (t.erase k) + (P k v).toNat = count P t := by
  have hmem := (t.lookup_eq_some_iff k v).mp h
  -- with distinct keys, filtering the key is erasing the one entry
  have herase : (t.erase k).entries.countP (fun e => P e.1 e.2)
      + (if P k v = true then 1 else 0) = t.entries.countP (fun e => P e.1 e.2) := by
    have hnd := t.nodup
    show (t.entries.filter (fun e => e.1 ≠ k)).countP _ + _ = _
    revert hmem hnd
    generalize t.entries = es
    intro hmem hnd
    induction es with
    | nil => cases hmem
    | cons e es ih =>
      rw [map_cons] at hnd
      rcases mem_cons.mp hmem with heq | htail
      · subst heq
        have hrest : es.filter (fun e => e.1 ≠ k) = es := by
          rw [filter_eq_self]
          grind
        rw [filter_cons_of_neg (by simp), hrest, countP_cons]
      · grind
  unfold count
  rw [← herase]
  cases P k v <;> rfl

/-- **Insertion under a new key** adds one entry. -/
theorem count_insert_new (v : V) (h : t.lookup k = none) :
    count P (t.insert k v) = count P t + (P k v).toNat := by
  unfold count insert
  rw [countP_cons, erase_of_lookup_none h]
  cases P k v <;> rfl

/-- **Replacement** adds the new entry and takes the old one away. -/
theorem count_insert_old (w : V) (h : t.lookup k = some v) :
    count P (t.insert k w) + (P k v).toNat = count P t + (P k w).toNat := by
  have herase := count_erase P h
  have hcons : count P (t.insert k w) = count P (t.erase k) + (P k w).toNat := by
    unfold count insert
    rw [countP_cons]
    cases P k w <;> rfl
  omega

theorem count_pos (h : t.lookup k = some v) (hP : P k v = true) : 0 < count P t := by
  have herase := count_erase P h
  rw [hP] at herase
  have htrue : Bool.toNat true = 1 := rfl
  omega

/-- When at most one entry is counted, it is the only one. -/
theorem eq_of_count_le_one {j : K} {w : V} (hone : count P t ≤ 1) (hk : t.lookup k = some v)
    (hPk : P k v = true) (hj : t.lookup j = some w) (hPj : P j w = true) : j = k := by
  by_contra hne
  have herase := count_erase P hk
  have hj' : (t.erase k).lookup j = some w := by
    rw [lookup_erase, if_neg hne]
    exact hj
  have hpos := count_pos P hj' hPj
  rw [hPk] at herase
  have htrue : Bool.toNat true = 1 := rfl
  omega

end Count

end Table

end StarryOS.Lib
