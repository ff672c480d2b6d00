/-
  StarryOS.Lib.LruCache — A BOUNDED MAP WITH LEAST-RECENTLY-USED REPLACEMENT.

  The entries stand in order of use, most recent first.  The structure carries
  its own well-formedness: keys are distinct, the capacity is positive and is
  never exceeded.

  Clients reason through `peek`, the map that the cache represents.  Every
  operation has ONE lemma that says what it does to `peek`:

    • `getMut`  — looks a key up, updates its value and makes it most recent,
    • `put`     — inserts at the front; a full cache drops its last entry,
    • `popLru`  — removes the last entry,
    • `pop`     — removes a key.
-/
import StarryOS.Lib.Table
import Mathlib.Data.List.Perm.Subperm

namespace StarryOS.Lib

open List

/-- Entries in order of use, most recent first. -/
structure LruCache (K V : Type) extends Table K V where
  cap : Nat
  cap_pos : 0 < cap
  len_le : entries.length ≤ cap

namespace LruCache

variable {K V : Type} [DecidableEq K]

/-- The empty cache of a given capacity. -/
def empty (cap : Nat) (h : 0 < cap) : LruCache K V where
  toTable := .empty
  cap := cap
  cap_pos := h
  len_le := Nat.zero_le _

variable (c : LruCache K V) (k : K)

def len : Nat := c.entries.length

def keys (c : LruCache K V) : List K := c.toTable.keys

/-- The value stored under a key; the order of use does not change. -/
def peek : Option V := c.toTable.lookup k

def contains : Bool := (c.peek k).isSome

/-! ## §1. `peek` is membership. -/

theorem peek_eq_some_iff (v : V) :
    c.peek k = some v ↔ (k, v) ∈ c.entries := c.toTable.lookup_eq_some_iff k v

theorem peek_eq_none_iff :
    c.peek k = none ↔ ∀ v, (k, v) ∉ c.entries := c.toTable.lookup_eq_none_iff k

theorem mem_keys_iff (c : LruCache K V) (k : K) : k ∈ c.keys ↔ ∃ v, c.peek k = some v :=
  c.toTable.mem_keys_iff k

/-- Distinct keys below `n` are at most `n`. -/
theorem len_le_of_keys_lt (c : LruCache Nat V) (n : Nat)
    (h : ∀ k v, c.peek k = some v → k < n) : c.len ≤ n := by
  have hsub : c.keys ⊆ range n := by
    intro k hk
    obtain ⟨v, hv⟩ := (c.mem_keys_iff k).mp hk
    exact mem_range.mpr (h k v hv)
  have hlen := (subperm_of_subset c.nodup hsub).length_le
  rw [length_range, length_map] at hlen
  exact hlen

/-! ## §2. Removing a key. -/

/-- The cache without the entry of `k`. -/
def erase (c : LruCache K V) (k : K) : LruCache K V where
  toTable := c.toTable.erase k
  cap := c.cap
  cap_pos := c.cap_pos
  len_le := Nat.le_trans (List.length_filter_le _ _) c.len_le

@[grind =] theorem peek_erase (k j : K) :
    (c.erase k).peek j = if j = k then none else c.peek j := c.toTable.lookup_erase k j

/-- Removes a key and hands its value out. -/
def pop : Option (V × LruCache K V) :=
  (c.peek k).map (fun v => (v, c.erase k))

/-! ## §3. Insertion and promotion. -/

/-- Inserts `(k, v)` as the most recent entry.  A present key is replaced; a
full cache loses its least recently used entry. -/
def put (v : V) : LruCache K V where
  cap := c.cap
  entries := (k, v) :: (c.erase k).entries.take (c.cap - 1)
  nodup := by
    rw [List.map_cons, List.nodup_cons]
    have hsub := (List.take_sublist (c.cap - 1) (c.erase k).entries).map Prod.fst
    exact ⟨fun hk => c.toTable.not_mem_keys_erase k (hsub.subset hk), hsub.nodup (c.erase k).nodup⟩
  cap_pos := c.cap_pos
  len_le := by
    have := c.cap_pos
    simp only [List.length_cons, List.length_take]
    omega

/-- When the other entries leave room, `put` loses nothing. -/
private theorem peek_put_of_room (v : V) (h : (c.erase k).len < c.cap) (j : K) :
    (c.put k v).peek j = if j = k then some v else c.peek j := by
  have hlen : (c.erase k).entries.length ≤ c.cap - 1 := Nat.le_sub_one_of_lt h
  split
  next hj =>
    rw [peek_eq_some_iff]
    simp [put, hj]
  next hj =>
    apply Table.lookup_congr
    intro w
    simp only [put, List.take_of_length_le hlen]
    simp [erase, Table.erase, hj]

theorem peek_put (v : V) (h : c.len < c.cap) (j : K) :
    (c.put k v).peek j = if j = k then some v else c.peek j := by
  apply peek_put_of_room
  exact Nat.lt_of_le_of_lt (length_filter_le _ _) h

theorem len_put_le (v : V) : (c.put k v).len ≤ c.len + 1 := by
  have htake : ((c.erase k).entries.take (c.cap - 1)).length ≤ (c.erase k).entries.length := by
    rw [length_take]
    exact Nat.min_le_right _ _
  have herase : (c.erase k).entries.length ≤ c.entries.length := length_filter_le _ _
  unfold len put
  rw [length_cons]
  omega

/-- Updates the value of `k` with `f` and makes it the most recent entry. -/
def getMut (f : V → V) : LruCache K V :=
  match c.peek k with
  | none => c
  | some v => c.put k (f v)

@[simp] theorem cap_getMut (f : V → V) : (c.getMut k f).cap = c.cap := by
  unfold getMut
  split <;> rfl

theorem len_getMut_le (f : V → V) : (c.getMut k f).len ≤ c.len + 1 := by
  unfold getMut
  split
  · exact Nat.le_succ _
  · exact c.len_put_le k _

@[grind =] theorem peek_getMut (f : V → V) (j : K) :
    (c.getMut k f).peek j = if j = k then (c.peek k).map f else c.peek j := by
  unfold getMut
  cases h : c.peek k with
  | none =>
    by_cases hj : j = k
    · rw [if_pos hj, hj, h]
      rfl
    · rw [if_neg hj]
  | some v =>
    -- the entry of `k` itself is filtered out, which leaves room in front
    apply peek_put_of_room
    have hm : (k, v) ∈ c.entries := (c.peek_eq_some_iff k v).mp h
    have hlt : (c.erase k).entries.length < c.entries.length :=
      length_filter_lt_length_iff_exists.mpr ⟨(k, v), hm, by simp⟩
    exact Nat.lt_of_lt_of_le hlt c.len_le

/-! ## §4. Replacement. -/

/-- Removes the least recently used entry. -/
def popLru : Option ((K × V) × LruCache K V) :=
  c.entries.getLast?.map (fun e =>
    (e, { cap := c.cap
          entries := c.entries.dropLast
          nodup := ((List.dropLast_sublist _).map _).nodup c.nodup
          cap_pos := c.cap_pos
          len_le := Nat.le_trans (by simp) c.len_le }))

omit [DecidableEq K] in
theorem popLru_eq_none_iff : c.popLru = none ↔ c.entries = [] := by
  simp [popLru]

/-- The popped entry was in the cache, and only its key is gone. -/
theorem peek_popLru {c d : LruCache K V} {k : K} {v : V} (h : c.popLru = some ((k, v), d)) :
    c.peek k = some v ∧ (∀ j, d.peek j = if j = k then none else c.peek j)
      ∧ d.cap = c.cap ∧ d.len + 1 = c.len := by
  simp only [popLru, Option.map_eq_some_iff, Prod.mk.injEq] at h
  obtain ⟨e, hlast, he, hd⟩ := h
  subst hd
  subst he
  have hsplit : c.entries = c.entries.dropLast ++ [(k, v)] :=
    (dropLast_append_getLast? (k, v) (by rw [hlast]; rfl)).symm
  have hnd := c.nodup
  rw [hsplit, map_append] at hnd
  have hfresh : ∀ w, (k, w) ∉ c.entries.dropLast := by grind
  refine ⟨?_, ?_, rfl, ?_⟩
  · rw [peek_eq_some_iff, hsplit]
    simp
  · intro j
    split
    next hj =>
      rw [peek_eq_none_iff, hj]
      exact hfresh
    · apply Table.lookup_congr
      grind
  · have hlen := congrArg length hsplit
    simp only [List.length_append, length_singleton] at hlen
    exact hlen.symm

omit [DecidableEq K] in
theorem exists_popLru_of_full (h : c.len = c.cap) : ∃ k v d, c.popLru = some ((k, v), d) := by
  cases hp : c.popLru with
  | none =>
    have hnil := (c.popLru_eq_none_iff).mp hp
    have := c.cap_pos
    simp [len, hnil] at h
    omega
  | some r =>
    obtain ⟨⟨k, v⟩, d⟩ := r
    exact ⟨k, v, d, rfl⟩

end LruCache

end StarryOS.Lib
