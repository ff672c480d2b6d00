/-
  StarryOS.Lib.OrdMap — ORDERED MAPS (`BTreeMap`).

  An `OrdMap K V` is a table whose entries stand in ascending order of their
  keys, which is the order in which an iterator visits them.  There is one
  operation, `alter`, which gives a key what a function makes of its value; it
  inserts, replaces and removes.  Its lemmas:

    • `lookup_alter` — the map that is represented,
    • `total_alter`  — a sum over all entries exchanges one of them,
    • `find?_eq_some_iff` — an iterator that stops at the first entry with a
      property stops at the smallest key with it.
-/
import StarryOS.Lib.Table
import Mathlib.Order.Defs.LinearOrder
import Mathlib.Algebra.BigOperators.Group.List.Basic

namespace StarryOS.Lib

open List

/-- A table in ascending order of its keys. -/
structure OrdMap (K V : Type) [LinearOrder K] extends Table K V where
  sorted : entries.Pairwise (fun a b => a.1 < b.1)

namespace OrdMap

variable {K V : Type} [LinearOrder K]

/-- The map without entries. -/
def empty : OrdMap K V where
  toTable := .empty
  sorted := .nil

instance : Inhabited (OrdMap K V) := ⟨empty⟩

/-! ## §1. `alter`. -/

/-- In front of the rest, if there is a value. -/
def emit (k : K) : Option V → List (K × V) → List (K × V)
  | none, rest => rest
  | some v, rest => (k, v) :: rest

/-- The place of `k` is before the first larger key. -/
def alterEntries (k : K) (f : Option V → Option V) : List (K × V) → List (K × V)
  | [] => emit k (f none) []
  | (j, w) :: rest =>
    if k < j then emit k (f none) ((j, w) :: rest)
    else if j < k then (j, w) :: alterEntries k f rest
    else emit k (f (some w)) rest

omit [LinearOrder K] in
theorem mem_emit {k : K} {x : Option V} {rest : List (K × V)} {e : K × V} :
    e ∈ emit k x rest ↔ e.1 = k ∧ x = some e.2 ∨ e ∈ rest := by
  cases x with
  | none => simp [emit]
  | some v =>
    obtain ⟨j, w⟩ := e
    simp [emit, eq_comm]

/-- What the list holds under `k`. -/
def value (k : K) (es : List (K × V)) : Option V :=
  (es.find? (fun e => e.1 = k)).map Prod.snd

theorem value_cons (k : K) (e : K × V) (es : List (K × V)) :
    value k (e :: es) = if e.1 = k then some e.2 else value k es := by
  unfold value
  grind

theorem value_eq_none {k : K} {es : List (K × V)} (h : ∀ e ∈ es, k < e.1) : value k es = none := by
  unfold value
  grind

/-- **Membership**: the other keys keep their entries. -/
theorem mem_alterEntries {k : K} {f : Option V → Option V} {e : K × V} :
    ∀ {es : List (K × V)}, es.Pairwise (fun a b => a.1 < b.1) →
      (e ∈ alterEntries k f es ↔ e.1 = k ∧ f (value k es) = some e.2 ∨ e.1 ≠ k ∧ e ∈ es) := by
  intro es
  induction es with
  | nil =>
    intro _
    unfold alterEntries
    rw [mem_emit]
    simp [value]
  | cons a rest ih =>
    intro hs
    obtain ⟨j, w⟩ := a
    obtain ⟨hlt, hs⟩ := pairwise_cons.mp hs
    unfold alterEntries
    split
    · -- all keys of the list are larger
      have hlarger : ∀ x ∈ (j, w) :: rest, k < x.1 := by grind
      have hne : e ∈ (j, w) :: rest → e.1 ≠ k := fun he => ne_of_gt (hlarger e he)
      rw [mem_emit, value_eq_none hlarger]
      grind
    next hkj =>
      split
      next hjk =>
        have hne : j ≠ k := ne_of_lt hjk
        rw [mem_cons, value_cons]
        grind
      next hjk =>
        have heq : j = k := le_antisymm (not_lt.mp hkj) (not_lt.mp hjk)
        subst heq
        have hne : e ∈ rest → e.1 ≠ j := fun he => ne_of_gt (hlt e he)
        rw [mem_emit, value_cons]
        grind

theorem sorted_emit {k : K} {x : Option V} {rest : List (K × V)}
    (hs : rest.Pairwise (fun a b => a.1 < b.1)) (h : ∀ e ∈ rest, k < e.1) :
    (emit k x rest).Pairwise (fun a b => a.1 < b.1) := by
  cases x with
  | none => exact hs
  | some v => exact pairwise_cons.mpr ⟨h, hs⟩

theorem sorted_alterEntries {k : K} {f : Option V → Option V} :
    ∀ {es : List (K × V)}, es.Pairwise (fun a b => a.1 < b.1) →
      (alterEntries k f es).Pairwise (fun a b => a.1 < b.1) := by
  intro es
  induction es with
  | nil =>
    intro _
    exact sorted_emit .nil (fun _ he => absurd he not_mem_nil)
  | cons a rest ih =>
    intro hs
    obtain ⟨j, w⟩ := a
    obtain ⟨hlt, hrest⟩ := pairwise_cons.mp hs
    unfold alterEntries
    split
    · grind [sorted_emit]
    split
    next hjk =>
      refine pairwise_cons.mpr ⟨?_, ih hrest⟩
      intro e he
      rcases (mem_alterEntries hrest).mp he with ⟨hek, -⟩ | ⟨-, he⟩
      · rw [hek]
        exact hjk
      · exact hlt e he
    · grind [sorted_emit]

theorem nodup_keys_of_sorted {es : List (K × V)} (hs : es.Pairwise (fun a b => a.1 < b.1)) :
    (es.map Prod.fst).Nodup := by
  rw [List.Nodup, pairwise_map]
  exact hs.imp ne_of_lt

/-- The entry of `k` becomes what `f` makes of it. -/
def alter (k : K) (f : Option V → Option V) (m : OrdMap K V) : OrdMap K V where
  entries := alterEntries k f m.entries
  nodup := nodup_keys_of_sorted (sorted_alterEntries m.sorted)
  sorted := sorted_alterEntries m.sorted

@[grind =] theorem lookup_alter (k : K) (f : Option V → Option V) (m : OrdMap K V) (j : K) :
    (m.alter k f).lookup j = if j = k then f (m.lookup k) else m.lookup j := by
  have hmem : ∀ v, (j, v) ∈ (m.alter k f).entries
      ↔ j = k ∧ f (m.lookup k) = some v ∨ j ≠ k ∧ (j, v) ∈ m.entries :=
    fun v => mem_alterEntries m.sorted
  split
  next hj =>
    cases hf : f (m.lookup k) with
    | none =>
      rw [Table.lookup_eq_none_iff]
      grind
    | some v =>
      rw [Table.lookup_eq_some_iff]
      exact (hmem v).mpr (.inl ⟨hj, hf⟩)
  next hj =>
    apply Table.lookup_congr
    intro v
    rw [hmem v]
    simp [hj]

/-! ## §2. Sums. -/

variable (weight : K → V → Nat)

/-- The sum of a weight over all entries. -/
def total (m : OrdMap K V) : Nat :=
  (m.entries.map (fun e => weight e.1 e.2)).sum

/-- The weight of an entry that may be missing. -/
def weightOf (k : K) (x : Option V) : Nat := (x.map (weight k)).getD 0

omit [LinearOrder K] in
theorem sum_emit (k : K) (x : Option V) (rest : List (K × V)) :
    ((emit k x rest).map (fun e => weight e.1 e.2)).sum
      = weightOf weight k x + (rest.map (fun e => weight e.1 e.2)).sum := by
  cases x with
  | none | some v => simp [emit, weightOf]

theorem sum_alterEntries (k : K) (f : Option V → Option V) :
    ∀ {es : List (K × V)}, es.Pairwise (fun a b => a.1 < b.1) →
      ((alterEntries k f es).map (fun e => weight e.1 e.2)).sum + weightOf weight k (value k es)
        = (es.map (fun e => weight e.1 e.2)).sum + weightOf weight k (f (value k es)) := by
  intro es
  induction es with
  | nil =>
    intro _
    unfold alterEntries
    rw [sum_emit]
    simp [value, weightOf]
  | cons a rest ih =>
    intro hs
    obtain ⟨j, w⟩ := a
    obtain ⟨hlt, hrest⟩ := pairwise_cons.mp hs
    unfold alterEntries
    split
    · have hlarger : ∀ x ∈ (j, w) :: rest, k < x.1 := by grind
      rw [sum_emit, value_eq_none hlarger]
      simp only [weightOf, Option.map_none, Option.getD_none]
      omega
    next hkj =>
      split
      next hjk =>
        have hrec := ih hrest
        rw [value_cons, if_neg (ne_of_lt hjk)]
        simp only [map_cons, sum_cons]
        omega
      next hjk =>
        have heq : j = k := le_antisymm (not_lt.mp hkj) (not_lt.mp hjk)
        subst heq
        rw [sum_emit, value_cons, if_pos rfl]
        simp only [map_cons, sum_cons, weightOf, Option.map_some, Option.getD_some]
        omega

/-- **`alter` exchanges one entry of a sum.** -/
theorem total_alter (k : K) (f : Option V → Option V) (m : OrdMap K V) :
    total weight (m.alter k f) + weightOf weight k (m.lookup k)
      = total weight m + weightOf weight k (f (m.lookup k)) :=
  sum_alterEntries weight k f m.sorted

theorem length_alter (k : K) (f : Option V → Option V) (m : OrdMap K V) :
    (m.alter k f).entries.length + (m.lookup k).isSome.toNat
      = m.entries.length + (f (m.lookup k)).isSome.toNat := by
  have hone : ∀ x : Option V, weightOf (fun _ _ => 1) k x = x.isSome.toNat := by
    intro x
    cases x <;> rfl
  have hlength : ∀ m : OrdMap K V, total (fun _ _ => 1) m = m.entries.length := by
    intro m
    unfold total
    rw [map_const', sum_replicate_nat, Nat.mul_one]
  have h := total_alter (fun _ _ => 1) k f m
  rwa [hone, hone, hlength, hlength] at h

/-! ## §3. Iterators. -/

/-- **The first entry with a property is the one with the smallest key.** -/
theorem find?_eq_some_iff (m : OrdMap K V) (p : K → V → Bool) (k : K) (v : V) :
    m.entries.find? (fun e => p e.1 e.2) = some (k, v)
      ↔ m.lookup k = some v ∧ p k v = true
        ∧ ∀ j w, m.lookup j = some w → p j w = true → k ≤ j := by
  simp only [Table.lookup_eq_some_iff]
  have hs := m.sorted
  generalize m.entries = es at hs
  induction es with
  | nil => simp
  | cons a rest ih =>
    obtain ⟨j, w⟩ := a
    obtain ⟨hlt, hrest⟩ := pairwise_cons.mp hs
    cases hp : p j w with
    | true =>
      have hfirst : ((j, w) :: rest).find? (fun e => p e.1 e.2) = some (j, w) :=
        find?_cons_of_pos hp
      rw [hfirst]
      constructor
      · grind
      · grind
    | false =>
      have hskip : ((j, w) :: rest).find? (fun e => p e.1 e.2) = rest.find? (fun e => p e.1 e.2) :=
        find?_cons_of_neg (by simp [hp])
      rw [hskip]
      refine (ih hrest).trans ?_
      constructor
      · grind
      · grind

end OrdMap

end StarryOS.Lib
