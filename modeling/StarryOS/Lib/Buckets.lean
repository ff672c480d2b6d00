/-
  StarryOS.Lib.Buckets — A LIST KEPT IN BUCKETS: one list for every key that
  occurs, in an ordered map.

  `Holds key m l` says that the buckets of `m` hold the list `l`: the bucket of a
  key is the part of `l` with that key, in the order of `l`, and no bucket is
  empty.  What is lost is the order between elements of different keys:

    • `Holds.first_bucket` — the buckets in order give the first element with the
      smallest key, not the first element,
    • `Holds.getElem?_flatMap` — the buckets one after the other give every
      element behind all elements with smaller keys.
-/
import StarryOS.Lib.OrdMap
import Mathlib.Data.List.Perm.Basic
import Mathlib.Order.MinMax

namespace StarryOS.Lib

open OrdMap

open List

namespace Buckets

variable {K α : Type} [LinearOrder K]

/-- A bucket, unless it is empty. -/
def nonempty : List α → Option (List α)
  | [] => none
  | x :: xs => some (x :: xs)

theorem nonempty_eq_none_iff {l : List α} : nonempty l = none ↔ l = [] := by
  cases l <;> simp [nonempty]

theorem nonempty_eq_some_iff {l b : List α} : nonempty l = some b ↔ l = b ∧ b ≠ [] := by
  cases l with
  | nil =>
    simp only [nonempty, reduceCtorEq, false_iff, not_and, not_not]
    exact fun h => h.symm
  | cons x xs =>
    simp only [nonempty, Option.some.injEq]
    grind

/-- Behind the last element of its bucket. -/
def push (key : α → K) (x : α) (m : OrdMap K (List α)) : OrdMap K (List α) :=
  m.alter (key x) (fun b => some (b.getD [] ++ [x]))

/-- Without the element at position `i` of the bucket of `k`. -/
def removeAt (k : K) (i : Nat) (m : OrdMap K (List α)) : OrdMap K (List α) :=
  m.alter k (fun b => b.bind (fun l => nonempty (l.eraseIdx i)))

/-- **The buckets hold the list.** -/
def Holds (key : α → K) (m : OrdMap K (List α)) (l : List α) : Prop :=
  ∀ k, m.lookup k = nonempty (l.filter (fun x => key x = k))

variable {key : α → K} {m : OrdMap K (List α)} {l : List α}

theorem holds_empty : Holds key empty [] := fun _ => rfl

/-! ## §1. One bucket. -/

section

variable (h : Holds key m l)
include h

theorem Holds.bucket {k : K} {b : List α} (hk : m.lookup k = some b) :
    b = l.filter (fun x => key x = k) ∧ b ≠ [] := by
  rw [h k, nonempty_eq_some_iff] at hk
  exact ⟨hk.1.symm, hk.2⟩

theorem Holds.exists_lookup {x : α} (hx : x ∈ l) : ∃ b, m.lookup (key x) = some b := by
  cases hk : m.lookup (key x) with
  | some b => exact ⟨b, rfl⟩
  | none =>
    rw [h (key x), nonempty_eq_none_iff, filter_eq_nil_iff] at hk
    exact absurd (decide_eq_true rfl) (hk x hx)

theorem Holds.exists_mem {k : K} {b : List α} (hk : m.lookup k = some b) : ∃ x ∈ l, key x = k := by
  obtain ⟨rfl, hne⟩ := h.bucket hk
  obtain ⟨x, hx⟩ := exists_mem_of_ne_nil _ hne
  rw [mem_filter, decide_eq_true_eq] at hx
  exact ⟨x, hx.1, hx.2⟩

theorem Holds.push (x : α) : Holds key (push key x m) (l ++ [x]) := by
  intro k
  unfold Buckets.push
  rw [lookup_alter, filter_append]
  by_cases hk : k = key x
  · rw [if_pos hk, hk, h (key x)]
    have hnew : [x].filter (fun y => decide (key y = key x)) = [x] := by simp
    rw [hnew]
    cases l.filter (fun y => decide (key y = key x)) with
    | nil => rfl
    | cons y ys => rfl
  · have hold : [x].filter (fun y => decide (key y = k)) = [] := by simp [Ne.symm hk]
    rw [if_neg hk, hold, append_nil, h k]

/-- The first element of a bucket is the first element with its key. -/
theorem Holds.find?_bucket (k : K) : (m.lookup k).bind head? = l.find? (fun x => key x = k) := by
  rw [h k, ← head?_filter]
  cases l.filter (fun x => decide (key x = k)) <;> rfl

end

theorem filter_eraseP_of_key (k j : K) : ∀ l : List α,
    (l.eraseP (fun x => key x = k)).filter (fun x => key x = j)
      = if j = k then (l.filter (fun x => key x = j)).tail else l.filter (fun x => key x = j) := by
  intro l
  induction l with
  | nil => simp
  | cons x xs ih =>
    by_cases hx : key x = k
    · grind
    · grind

/-- **The first element of a bucket leaves**: the first one with its key. -/
theorem Holds.removeAt (h : Holds key m l) (k : K) :
    Holds key (removeAt k 0 m) (l.eraseP (fun x => key x = k)) := by
  intro j
  unfold Buckets.removeAt
  rw [lookup_alter, filter_eraseP_of_key]
  by_cases hj : j = k
  · rw [if_pos hj, if_pos hj, h k, hj]
    cases l.filter (fun x => decide (key x = k)) with
    | nil => rfl
    | cons y ys => rfl
  · rw [if_neg hj, if_neg hj, h j]

/-! ## §2. The buckets in order. -/

/-- The minimum of a list is the one of its order. -/
instance lawfulOrderMin : Std.LawfulOrderMin K where
  min_eq_or a b := min_choice a b
  le_min_iff _ _ _ := le_min_iff

/-- **The first bucket with a property** gives the first element with the smallest
key. -/
theorem Holds.first_bucket (h : Holds key m l) (p : K → Bool) :
    (m.entries.find? (fun e => p e.1)).bind (fun e => e.2.head?)
      = (((l.map key).filter p).min?).bind (fun k => l.find? (fun x => key x = k)) := by
  cases hmin : ((l.map key).filter p).min? with
  | none =>
    -- no key of the list has the property
    rw [min?_eq_none_iff, filter_eq_nil_iff] at hmin
    have hnone : m.entries.find? (fun e => p e.1) = none := by
      rw [find?_eq_none]
      intro e he
      obtain ⟨x, hx, hkey⟩ := h.exists_mem ((m.lookup_eq_some_iff e.1 e.2).mpr he)
      rw [← hkey]
      exact hmin (key x) (mem_map.mpr ⟨x, hx, rfl⟩)
    rw [hnone]
    rfl
  | some k =>
    rw [min?_eq_some_iff] at hmin
    obtain ⟨hmem, hle⟩ := hmin
    rw [mem_filter, mem_map] at hmem
    obtain ⟨⟨x, hx, rfl⟩, hp⟩ := hmem
    obtain ⟨b, hb⟩ := h.exists_lookup hx
    have hfind : m.entries.find? (fun e => p e.1) = some (key x, b) := by
      rw [m.find?_eq_some_iff (fun k _ => p k)]
      refine ⟨hb, hp, ?_⟩
      intro j w hj hpj
      obtain ⟨y, hy, rfl⟩ := h.exists_mem hj
      exact hle (key y) (mem_filter.mpr ⟨mem_map.mpr ⟨y, hy, rfl⟩, hpj⟩)
    rw [hfind, Option.bind_some, Option.bind_some, ← h.find?_bucket, hb]
    rfl

/-! ## §3. The buckets one after the other. -/

/-- Lists of all buckets of `l` are `l` in another order. -/
theorem flatMap_perm (key : α → K) :
    ∀ (es : List (K × List α)) (l : List α), (es.map Prod.fst).Nodup →
    (∀ e ∈ es, e.2 = l.filter (fun x => key x = e.1)) → (∀ x ∈ l, ∃ e ∈ es, e.1 = key x) →
    (es.flatMap Prod.snd).Perm l := by
  intro es
  -- on the buckets: without those of the first key, `l` has one bucket less
  induction es with
  | nil =>
    intro l _ _ hall
    cases l with
    | nil => exact .nil
    | cons x xs =>
      obtain ⟨e, he, -⟩ := hall x (.head _)
      cases he
  | cons e es ih =>
    intro l hnd hb hall
    rw [map_cons, nodup_cons] at hnd
    have hrest : (es.flatMap Prod.snd).Perm (l.filter (fun x => !decide (key x = e.1))) := by
      refine ih _ hnd.2 ?_ ?_
      · intro e' he'
        have hne : e'.1 ≠ e.1 := fun heq => hnd.1 (heq ▸ mem_map.mpr ⟨e', he', rfl⟩)
        rw [filter_filter]
        grind
      · grind
    rw [flatMap_cons, hb e (.head _)]
    exact (hrest.append_left _).trans (filter_append_perm _ l)

theorem Holds.perm (h : Holds key m l) : (m.entries.flatMap Prod.snd).Perm l := by
  refine flatMap_perm key m.entries l m.nodup ?_ ?_
  · intro e he
    exact (h.bucket ((m.lookup_eq_some_iff e.1 e.2).mpr he)).1
  · intro x hx
    obtain ⟨b, hb⟩ := h.exists_lookup hx
    exact ⟨(key x, b), (m.lookup_eq_some_iff _ _).mp hb, rfl⟩

theorem Holds.total_eq (h : Holds key m l) (weight : α → Nat) :
    m.total (fun _ b => (b.map weight).sum) = (l.map weight).sum := by
  have hflat : ∀ es : List (K × List α), (es.map (fun e => (e.2.map weight).sum)).sum
      = ((es.flatMap Prod.snd).map weight).sum := by
    intro es
    induction es with
    | nil => rfl
    | cons e es ih => simp [ih]
  show (m.entries.map (fun e => (e.2.map weight).sum)).sum = _
  rw [hflat]
  exact (h.perm.map weight).sum_eq

/-- Filtering moves an element by those that are filtered out before it. -/
theorem getElem?_filter_countP {p : α → Bool} {l : List α} {i : Nat} {x : α} (hx : l[i]? = some x)
    (hp : p x = true) : (l.filter p)[(l.take i).countP p]? = some x := by
  have hsplit : l = l.take i ++ x :: l.drop (i + 1) := by
    obtain ⟨hi, rfl⟩ := List.getElem?_eq_some_iff.mp hx
    rw [← drop_eq_getElem_cons hi, take_append_drop]
  grind

/-- **Where an element stands**: behind all elements with smaller keys and behind
the earlier ones with its key. -/
theorem Holds.getElem?_flatMap (h : Holds key m l) {i : Nat} {x : α} (hx : l[i]? = some x) :
    (m.entries.flatMap Prod.snd)[l.countP (fun y => key y < key x)
      + (l.take i).countP (fun y => key y = key x)]? = some x := by
  obtain ⟨b, hb⟩ := h.exists_lookup (mem_of_getElem? hx)
  obtain ⟨hbucket, -⟩ := h.bucket hb
  obtain ⟨before, behind, hes⟩ := append_of_mem ((m.lookup_eq_some_iff _ _).mp hb)
  have hsorted := m.sorted
  rw [hes, pairwise_append] at hsorted
  obtain ⟨hsb, hsl, hcross⟩ := hsorted
  have hsmaller : ∀ e ∈ before, e.1 < key x := fun e he => hcross e he _ (.head _)
  have hlarger : ∀ e ∈ behind, key x < e.1 := (pairwise_cons.mp hsl).1
  have hmem : ∀ e ∈ before, m.lookup e.1 = some e.2 := by
    intro e he
    rw [m.lookup_eq_some_iff, hes]
    exact mem_append_left _ he
  -- the buckets before it hold the elements with smaller keys
  have hperm : (before.flatMap Prod.snd).Perm (l.filter (fun y => key y < key x)) := by
    refine flatMap_perm key before _ (nodup_keys_of_sorted hsb) ?_ ?_
    · intro e he
      rw [(h.bucket (hmem e he)).1, filter_filter]
      grind
    intro y hy
    rw [mem_filter] at hy
    obtain ⟨b', hb'⟩ := h.exists_lookup hy.1
    have hin := (m.lookup_eq_some_iff _ _).mp hb'
    grind
  have hlen : (before.flatMap Prod.snd).length = l.countP (fun y => key y < key x) := by
    rw [hperm.length_eq, countP_eq_length_filter]
  have hin : b[(l.take i).countP (fun y => key y = key x)]? = some x := by
    rw [hbucket]
    exact getElem?_filter_countP hx (by simp)
  grind

/-! ## §4. Where the order is kept. -/

/-- **The first bucket gives the first element** with a property exactly where this
element has the smallest key. -/
theorem Holds.first_bucket_eq_iff (h : Holds key m l) (p : K → Bool) :
    (m.entries.find? (fun e => p e.1)).bind (fun e => e.2.head?) = l.find? (fun x => p (key x))
      ↔ ∀ x, l.find? (fun x => p (key x)) = some x → ∀ y ∈ l, p (key y) = true → key x ≤ key y := by
  rw [h.first_bucket p]
  constructor
  · intro heq x hx y hy hpy
    rw [hx, Option.bind_eq_some_iff] at heq
    obtain ⟨k, hmin, hfind⟩ := heq
    have hkey : key x = k := by simpa using find?_some hfind
    rw [min?_eq_some_iff] at hmin
    grind
  intro hle
  cases hx : l.find? (fun x => p (key x)) with
  | none =>
    rw [find?_eq_none] at hx
    have hnil : (l.map key).filter p = [] := by
      rw [filter_eq_nil_iff]
      grind
    rw [hnil]
    rfl
  | some x =>
    have hmem := mem_of_find?_eq_some hx
    have hpx : p (key x) = true := by simpa using find?_some hx
    have hmin : ((l.map key).filter p).min? = some (key x) := by
      rw [min?_eq_some_iff]
      grind
    rw [hmin, Option.bind_some]
    -- an earlier element with this key would have been found
    rw [find?_eq_some_iff_append] at hx ⊢
    grind

theorem countP_trichotomy (key : α → K) (x : α) :
    ∀ l : List α, l.length = l.countP (fun y => key y < key x)
      + l.countP (fun y => key y = key x) + l.countP (fun y => key x < key y) := by
  intro l
  induction l with
  | nil => rfl
  | cons y l ih => grind

/-- **An element keeps its place** exactly where as many elements with smaller keys
stand behind it as elements with larger keys before it. -/
theorem Holds.getElem?_flatMap_eq_iff (h : Holds key m l) (hnd : l.Nodup) {i : Nat} {x : α}
    (hx : l[i]? = some x) : (m.entries.flatMap Prod.snd)[i]? = some x
      ↔ (l.drop i).countP (fun y => key y < key x)
        = (l.take i).countP (fun y => key x < key y) := by
  have hplace := h.getElem?_flatMap hx
  have hflat : (m.entries.flatMap Prod.snd).Nodup := h.perm.nodup_iff.mpr hnd
  have hi : i < l.length := (List.getElem?_eq_some_iff.mp hx).1
  have hsplit : l.countP (fun y => key y < key x)
      = (l.take i).countP (fun y => key y < key x)
        + (l.drop i).countP (fun y => key y < key x) := by
    rw [← countP_append, take_append_drop]
  have htake := countP_trichotomy key x (l.take i)
  rw [length_take] at htake
  constructor
  · grind [getElem?_inj]
  · intro hcount
    rw [← hplace]
    congr 1
    omega

end Buckets

end StarryOS.Lib
