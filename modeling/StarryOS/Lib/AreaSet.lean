/-
  StarryOS.Lib.AreaSet — SETS OF DISJOINT ADDRESS RANGES, each with flags and a
  payload.

  An `Area` is a non-empty range `[start, stop)`.  An `AreaSet` keeps its areas
  in address order and disjoint; both facts are fields, so no operation can
  break them.  There are two operations:

    • `insert a`      — adds `a` if it overlaps nothing,
    • `carve lo hi g` — cuts `[lo, hi)` out of every area and puts back what
      `g` says about the flags of the part inside: `none` removes it, `some f`
      keeps it with flags `f`.  The parts outside keep their flags.
-/
import Mathlib.Algebra.Order.Ring.Nat
import Mathlib.Data.List.Pairwise

namespace StarryOS.Lib

open List

/-- A non-empty range of addresses. -/
structure Area (F B : Type) where
  start : Nat
  stop : Nat
  nonempty : start < stop
  flags : F
  backend : B

namespace Area

variable {F B : Type}

/-- The address lies in the area. -/
def Has (a : Area F B) (v : Nat) : Prop := a.start ≤ v ∧ v < a.stop

instance (a : Area F B) (v : Nat) : Decidable (a.Has v) :=
  inferInstanceAs (Decidable (a.start ≤ v ∧ v < a.stop))

/-- The part of the area inside `[lo, hi)`. -/
def within (a : Area F B) (lo hi : Nat) : Option (Area F B) :=
  if h : max a.start lo < min a.stop hi then
    some { a with start := max a.start lo, stop := min a.stop hi, nonempty := h }
  else
    none

/-- The part of the area inside `[lo, hi)` with the flags that `g` gives it. -/
def reflag (lo hi : Nat) (g : F → Option F) (a : Area F B) : Option (Area F B) :=
  (a.within lo hi).bind (fun m => (g m.flags).map (fun f => { m with flags := f }))

/-- The pieces that remain of an area when `[lo, hi)` is carved. -/
def pieces (lo hi : Nat) (g : F → Option F) (a : Area F B) : List (Area F B) :=
  (a.within 0 lo).toList ++ (a.reflag lo hi g).toList ++ (a.within (max lo hi) a.stop).toList

variable {a p : Area F B} {lo hi : Nat} {g : F → Option F}

theorem within_eq_some (h : a.within lo hi = some p) :
    p.start = max a.start lo ∧ p.stop = min a.stop hi ∧ p.flags = a.flags
      ∧ p.backend = a.backend := by
  unfold within at h
  split at h
  · cases h
    exact ⟨rfl, rfl, rfl, rfl⟩
  · cases h

theorem reflag_eq_some (h : a.reflag lo hi g = some p) :
    p.start = max a.start lo ∧ p.stop = min a.stop hi ∧ g a.flags = some p.flags
      ∧ p.backend = a.backend := by
  unfold reflag at h
  rw [Option.bind_eq_some_iff] at h
  obtain ⟨m, hm, hg⟩ := h
  obtain ⟨hs, he, hf, hb⟩ := within_eq_some hm
  rw [Option.map_eq_some_iff, hf] at hg
  obtain ⟨f, hg, rfl⟩ := hg
  exact ⟨hs, he, hg, hb⟩

/-- An address of the area inside the window is in the part. -/
theorem exists_within {v : Nat} (h : a.Has v) (hlo : lo ≤ v) (hhi : v < hi) :
    ∃ p, a.within lo hi = some p ∧ p.Has v := by
  have hlt : max a.start lo < min a.stop hi := by
    unfold Has at h
    omega
  refine ⟨{ a with start := max a.start lo, stop := min a.stop hi, nonempty := hlt }, ?_, ?_⟩
  · unfold within
    rw [dif_pos hlt]
  · show max a.start lo ≤ v ∧ v < min a.stop hi
    unfold Has at h
    omega

/-- **Where a piece comes from**: it is part of the area, with its payload; it
lies outside the window with the old flags, or inside it with flags from `g`. -/
theorem of_mem_pieces (hlohi : lo ≤ hi) (h : p ∈ a.pieces lo hi g) :
    a.start ≤ p.start ∧ p.stop ≤ a.stop ∧ p.backend = a.backend
      ∧ ((p.stop ≤ lo ∨ hi ≤ p.start) ∧ p.flags = a.flags
        ∨ lo ≤ p.start ∧ p.stop ≤ hi ∧ g a.flags = some p.flags) := by
  unfold pieces at h
  rw [mem_append, mem_append] at h
  rcases h with (hleft | hmid) | hright
  · obtain ⟨hs, he, hf, hb⟩ := within_eq_some (Option.mem_toList.mp hleft)
    exact ⟨by omega, by omega, hb, .inl ⟨by omega, hf⟩⟩
  · obtain ⟨hs, he, hg, hb⟩ := reflag_eq_some (Option.mem_toList.mp hmid)
    exact ⟨by omega, by omega, hb, .inr ⟨by omega, by omega, hg⟩⟩
  · obtain ⟨hs, he, hf, hb⟩ := within_eq_some (Option.mem_toList.mp hright)
    exact ⟨by omega, by omega, hb, .inl ⟨by omega, hf⟩⟩

theorem pieces_of_disjoint (g : F → Option F) (hlohi : lo < hi)
    (hout : a.stop ≤ lo ∨ hi ≤ a.start) : a.pieces lo hi g = [a] := by
  have hlt := a.nonempty
  have hself : ∀ l h, max a.start l = a.start → min a.stop h = a.stop → a.within l h = some a := by
    intro l h hl hh
    unfold within
    simp only [hl, hh, dif_pos hlt]
  have hnone : ∀ l h, ¬ max a.start l < min a.stop h → a.within l h = none := by
    intro l h hno
    unfold within
    rw [dif_neg hno]
  unfold pieces reflag
  rcases hout with hle | hge
  · rw [hself 0 lo (by omega) (by omega), hnone lo hi (by omega),
      hnone (max lo hi) a.stop (by omega)]
    rfl
  · rw [hnone 0 lo (by omega), hnone lo hi (by omega),
      hself (max lo hi) a.stop (by omega) (by omega)]
    rfl

/-- The ends of a piece are ends of the area or of a window inside it. -/
theorem ends_of_mem_pieces (hlo : a.start ≤ lo) (hhi : hi ≤ a.stop) (hlohi : lo < hi)
    (h : p ∈ a.pieces lo hi g) : (p.start = a.start ∨ p.start = lo ∨ p.start = hi)
      ∧ (p.stop = a.stop ∨ p.stop = lo ∨ p.stop = hi) := by
  unfold pieces at h
  rw [mem_append, mem_append] at h
  rcases h with (hleft | hmid) | hright
  · obtain ⟨hs, he, -, -⟩ := within_eq_some (Option.mem_toList.mp hleft)
    omega
  · obtain ⟨hs, he, -, -⟩ := reflag_eq_some (Option.mem_toList.mp hmid)
    omega
  · obtain ⟨hs, he, -, -⟩ := within_eq_some (Option.mem_toList.mp hright)
    omega

theorem pieces_sorted (lo hi : Nat) (g : F → Option F) (a : Area F B) :
    (a.pieces lo hi g).Pairwise (fun p q => p.stop ≤ q.start) := by
  unfold pieces
  have hsingle : ∀ o : Option (Area F B), o.toList.Pairwise (fun p q => p.stop ≤ q.start) := by
    intro o
    cases o with
    | none => exact List.Pairwise.nil
    | some p => exact pairwise_singleton _ p
  rw [pairwise_append, pairwise_append]
  refine ⟨⟨hsingle _, hsingle _, ?_⟩, hsingle _, ?_⟩
  · intro p hp q hq
    obtain ⟨-, hpe, -, -⟩ := within_eq_some (Option.mem_toList.mp hp)
    obtain ⟨hqs, -, -, -⟩ := reflag_eq_some (Option.mem_toList.mp hq)
    omega
  · intro p hp q hq
    obtain ⟨hqs, -, -, -⟩ := within_eq_some (Option.mem_toList.mp hq)
    rcases mem_append.mp hp with hleft | hmid
    · obtain ⟨-, hpe, -, -⟩ := within_eq_some (Option.mem_toList.mp hleft)
      omega
    · obtain ⟨-, hpe, -, -⟩ := reflag_eq_some (Option.mem_toList.mp hmid)
      omega

end Area

/-- Disjoint areas in address order. -/
structure AreaSet (F B : Type) where
  areas : List (Area F B)
  sorted : areas.Pairwise (fun a b => a.stop ≤ b.start)

namespace AreaSet

variable {F B : Type} (as : AreaSet F B)

def empty : AreaSet F B where
  areas := []
  sorted := List.Pairwise.nil

/-- The area that an address lies in. -/
def find (v : Nat) : Option (Area F B) := as.areas.find? (fun a => a.Has v)

/-- Some area meets `[lo, hi)`. -/
def overlaps (lo hi : Nat) : Bool :=
  as.areas.any (fun a => a.start < hi ∧ lo < a.stop)

/-- Adds an area at its place in the order; one that overlaps is not added. -/
def insert (a : Area F B) : AreaSet F B where
  areas := if as.overlaps a.start a.stop then as.areas
    else as.areas.filter (fun b => b.stop ≤ a.start) ++ a ::
      as.areas.filter (fun b => a.stop ≤ b.start)
  sorted := by
    split
    · exact as.sorted
    rw [List.pairwise_append, List.pairwise_cons]
    refine ⟨as.sorted.filter _, ⟨?_, as.sorted.filter _⟩, ?_⟩
    · intro b hb
      simpa using (List.mem_filter.mp hb).2
    intro b hb c hc
    have hba : b.stop ≤ a.start := by simpa using (List.mem_filter.mp hb).2
    have hlt := a.nonempty
    rcases List.mem_cons.mp hc with rfl | hc
    · exact hba
    · have hac : a.stop ≤ c.start := by simpa using (List.mem_filter.mp hc).2
      omega

/-- Cuts `[lo, hi)` out of every area; `g` says what becomes of the part inside. -/
def carve (lo hi : Nat) (g : F → Option F) : AreaSet F B where
  areas := if lo < hi then as.areas.flatMap (Area.pieces lo hi g) else as.areas
  sorted := by
    split
    next hlohi =>
      rw [List.pairwise_flatMap]
      refine ⟨fun a _ => Area.pieces_sorted lo hi g a, as.sorted.imp ?_⟩
      intro a b hab p hp q hq
      have hpa := Area.of_mem_pieces (Nat.le_of_lt hlohi) hp
      have hqb := Area.of_mem_pieces (Nat.le_of_lt hlohi) hq
      omega
    · exact as.sorted

variable {as : AreaSet F B} {a : Area F B} {v lo hi : Nat} {g : F → Option F}

theorem eq_of_has {b : Area F B} (ha : a ∈ as.areas) (hb : b ∈ as.areas) (hav : a.Has v)
    (hbv : b.Has v) : a = b := by
  by_contra hne
  have hdisj : ∀ x ∈ as.areas, ∀ y ∈ as.areas, x ≠ y → x.stop ≤ y.start ∨ y.stop ≤ x.start := by
    intro x hx y hy hxy
    have hpair : as.areas.Pairwise (fun c d => c.stop ≤ d.start ∨ d.stop ≤ c.start) :=
      as.sorted.imp .inl
    have : Std.Symm (fun c d : Area F B => c.stop ≤ d.start ∨ d.stop ≤ c.start) :=
      ⟨fun _ _ hcd => hcd.symm⟩
    exact hpair.forall hx hy hxy
  have := hdisj a ha b hb hne
  unfold Area.Has at hav hbv
  omega

/-- `find` finds the area, and only areas of the set. -/
theorem find_eq_some_iff : as.find v = some a ↔ a ∈ as.areas ∧ a.Has v := by
  unfold find
  constructor
  · intro h
    exact ⟨mem_of_find?_eq_some h, by simpa using find?_some h⟩
  rintro ⟨ha, hav⟩
  obtain ⟨b, hb⟩ : ∃ b, as.areas.find? (fun a => a.Has v) = some b := by
    rw [← Option.isSome_iff_exists, find?_isSome]
    exact ⟨a, ha, by simpa using hav⟩
  have hbv : b.Has v := by simpa using find?_some hb
  rw [hb, eq_of_has (mem_of_find?_eq_some hb) ha hbv hav]

/-- **Insertion**: the new area and the old ones. -/
theorem mem_insert {b : Area F B} (h : as.overlaps a.start a.stop = false) :
    b ∈ (as.insert a).areas ↔ b = a ∨ b ∈ as.areas := by
  unfold insert
  simp only [h, Bool.false_eq_true, if_false, mem_append, mem_cons, mem_filter, decide_eq_true_eq]
  constructor
  · intro hb
    rcases hb with hb | rfl | hb
    · exact .inr hb.1
    · exact .inl rfl
    · exact .inr hb.1
  intro hb
  rcases hb with rfl | hb
  · exact .inr (.inl rfl)
  -- no overlap: the old area ends before the new one or starts after it
  have hno : ¬ (b.start < a.stop ∧ a.start < b.stop) := by
    intro hov
    have htrue : as.overlaps a.start a.stop = true := by
      unfold overlaps
      rw [any_eq_true]
      exact ⟨b, hb, by simpa using hov⟩
    rw [htrue] at h
    cases h
  by_cases hle : b.stop ≤ a.start
  · exact .inl ⟨hb, hle⟩
  · exact .inr (.inr ⟨hb, by omega⟩)

/-- **Where a piece of a carved set comes from.** -/
theorem of_mem_carve {p : Area F B} (hlohi : lo < hi) (h : p ∈ (as.carve lo hi g).areas) :
    ∃ a ∈ as.areas, a.start ≤ p.start ∧ p.stop ≤ a.stop ∧ p.backend = a.backend
      ∧ ((p.stop ≤ lo ∨ hi ≤ p.start) ∧ p.flags = a.flags
        ∨ lo ≤ p.start ∧ p.stop ≤ hi ∧ g a.flags = some p.flags) := by
  unfold carve at h
  simp only [if_pos hlohi, mem_flatMap] at h
  obtain ⟨a, ha, hp⟩ := h
  exact ⟨a, ha, Area.of_mem_pieces (Nat.le_of_lt hlohi) hp⟩

theorem mem_carve_of_disjoint (hlohi : lo < hi) (ha : a ∈ as.areas)
    (hout : a.stop ≤ lo ∨ hi ≤ a.start) : a ∈ (as.carve lo hi g).areas := by
  unfold carve
  simp only [if_pos hlohi, mem_flatMap]
  refine ⟨a, ha, ?_⟩
  rw [Area.pieces_of_disjoint g hlohi hout]
  exact .head _

/-- Carving inside one area leaves the others as they are. -/
theorem mem_or_piece_of_mem_carve {p : Area F B} (ha : a ∈ as.areas) (hlo : a.start ≤ lo)
    (hhi : hi ≤ a.stop) (hlohi : lo < hi) (h : p ∈ (as.carve lo hi g).areas) :
    p ∈ as.areas ∨ p ∈ a.pieces lo hi g := by
  unfold carve at h
  simp only [if_pos hlohi, mem_flatMap] at h
  obtain ⟨b, hb, hp⟩ := h
  by_cases hout : b.stop ≤ lo ∨ hi ≤ b.start
  · rw [Area.pieces_of_disjoint g hlohi hout, mem_singleton] at hp
    exact .inl (hp ▸ hb)
  -- an area that meets the window shares an address with `a`
  have hva : a.Has (max b.start lo) := by
    unfold Area.Has
    omega
  have hvb : b.Has (max b.start lo) := by
    have := b.nonempty
    unfold Area.Has
    omega
  rw [eq_of_has hb ha hvb hva] at hp
  exact .inr hp

/-- **An address outside the window stays covered**, with payload and flags. -/
theorem exists_mem_carve_outside (hlohi : lo < hi) (ha : a ∈ as.areas) (hv : a.Has v)
    (hout : v < lo ∨ hi ≤ v) :
    ∃ p ∈ (as.carve lo hi g).areas, p.Has v ∧ p.backend = a.backend ∧ p.flags = a.flags := by
  unfold carve
  simp only [if_pos hlohi, mem_flatMap]
  unfold Area.pieces
  rcases hout with hlt | hge
  · obtain ⟨p, hp, hpv⟩ := Area.exists_within hv (Nat.zero_le v) hlt
    obtain ⟨-, -, hf, hb⟩ := Area.within_eq_some hp
    refine ⟨p, ⟨a, ha, ?_⟩, hpv, hb, hf⟩
    rw [hp]
    simp
  · obtain ⟨p, hp, hpv⟩ := Area.exists_within hv (show max lo hi ≤ v by omega) hv.2
    obtain ⟨-, -, hf, hb⟩ := Area.within_eq_some hp
    refine ⟨p, ⟨a, ha, ?_⟩, hpv, hb, hf⟩
    rw [hp]
    simp

/-- **An address inside the window** is covered when `g` keeps its part. -/
theorem exists_mem_carve_inside {f : F} (hlohi : lo < hi) (ha : a ∈ as.areas) (hv : a.Has v)
    (hlo : lo ≤ v) (hhi : v < hi) (hg : g a.flags = some f) :
    ∃ p ∈ (as.carve lo hi g).areas, p.Has v ∧ p.backend = a.backend ∧ p.flags = f := by
  unfold carve
  simp only [if_pos hlohi, mem_flatMap]
  unfold Area.pieces
  obtain ⟨p, hp, hpv⟩ := Area.exists_within hv hlo hhi
  obtain ⟨-, -, hf, hb⟩ := Area.within_eq_some hp
  refine ⟨{ p with flags := f }, ⟨a, ha, ?_⟩, hpv, hb, rfl⟩
  have hmid : a.reflag lo hi g = some { p with flags := f } := by
    unfold Area.reflag
    rw [hp, Option.bind_some, hf, hg]
    rfl
  rw [hmid]
  simp

end AreaSet

end StarryOS.Lib
