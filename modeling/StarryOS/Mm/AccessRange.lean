/-
  StarryOS.Mm.AccessRange — `can_access_range` (`kernel/src/mm/aspace/mod.rs`).

  The check shrinks the range from the left while it walks the areas in address
  order; its answer is exact (`can_access_range_iff`).
-/
import StarryOS.Mm.Paging

namespace StarryOS.Mm

open Lib

section Access

variable {B : Type} (access : MappingFlags)

/-- The loop of `can_access_range`, over what is left of the range. -/
def canAccess : List (MemoryArea B) → Nat → Nat → Bool
  | [], _, _ => false
  | a :: areas, start, stop =>
    if a.stop ≤ start then canAccess areas start stop
    else if start < a.start then false
    else if !a.flags.contains access then false
    else if stop ≤ a.stop then true
    else canAccess areas a.stop stop

/-- `AddrSpace::can_access_range`; `try_from_start_size` refuses a range that wraps. -/
def canAccessRange (areas : MemorySet B) (start size : UInt64) : Bool :=
  if start.toNat + size.toNat < 2 ^ 64 then
    canAccess access areas.areas start.toNat (start.toNat + size.toNat)
  else false

/-- The byte lies in an area with the flags. -/
def Accessible (areas : List (MemoryArea B)) (v : Nat) : Prop :=
  ∃ a ∈ areas, a.Has v ∧ a.flags.contains access = true

variable {access} {areas : List (MemoryArea B)}

/-- Below the first area there is nothing. -/
theorem not_accessible {v : Nat} (h : ∀ a ∈ areas, v < a.start) : ¬ Accessible access areas v := by
  rintro ⟨a, ha, hv, -⟩
  exact absurd (h a ha) (Nat.not_lt.mpr hv.1)

theorem canAccess_iff (hsorted : areas.Pairwise (fun a b => a.stop ≤ b.start)) {stop : Nat} :
    ∀ {start : Nat}, start < stop → (canAccess access areas start stop = true
      ↔ ∀ v, start ≤ v → v < stop → Accessible access areas v) := by
  induction areas with
  | nil =>
    intro start hlt
    refine iff_of_false Bool.false_ne_true (fun h => ?_)
    exact not_accessible (by simp) (h start le_rfl hlt)
  | cons a areas ih =>
    obtain ⟨hfirst, hrest⟩ := List.pairwise_cons.mp hsorted
    -- beyond the area, only the rest counts
    have hbeyond : ∀ v, a.stop ≤ v →
      (Accessible access (a :: areas) v ↔ Accessible access areas v) := by
      intro v hv
      simp only [Accessible, List.mem_cons, exists_eq_or_imp, Area.Has]
      exact or_iff_right (by omega)
    intro start hlt
    unfold canAccess
    by_cases hbefore : a.stop ≤ start
    · rw [if_pos hbefore, ih hrest hlt]
      refine forall_congr' fun v => forall_congr' fun hv => ?_
      rw [hbeyond v (by omega)]
    rw [if_neg hbefore]
    -- the first byte lies in no later area
    have hlater : ¬ Accessible access areas start :=
      not_accessible (fun b hb => Nat.lt_of_lt_of_le (by omega) (hfirst b hb))
    by_cases hgap : start < a.start
    · rw [if_pos hgap]
      refine iff_of_false Bool.false_ne_true (fun h => ?_)
      obtain ⟨b, hb, hv, hbf⟩ := h start le_rfl hlt
      rcases List.mem_cons.mp hb with rfl | hb
      · exact absurd hgap (Nat.not_lt.mpr hv.1)
      · exact hlater ⟨b, hb, hv, hbf⟩
    rw [if_neg hgap]
    by_cases hflags : a.flags.contains access = true
    · have hinside : ∀ v, start ≤ v → v < a.stop → Accessible access (a :: areas) v :=
        fun v hv hva => ⟨a, .head _, ⟨by omega, hva⟩, hflags⟩
      simp only [hflags, Bool.not_true, Bool.false_eq_true, if_false]
      split
      · exact ⟨fun _ v hv hstop => hinside v hv (by omega), fun _ => rfl⟩
      rw [ih hrest (by omega)]
      constructor
      · intro h v hv hstop
        by_cases hva : v < a.stop
        · exact hinside v hv hva
        · exact (hbeyond v (by omega)).mpr (h v (by omega) hstop)
      · exact fun h v hv hstop => (hbeyond v hv).mp (h v (by omega) hstop)
    · simp only [Bool.not_eq_true] at hflags
      simp only [hflags, Bool.not_false, if_true]
      refine iff_of_false Bool.false_ne_true (fun h => ?_)
      obtain ⟨b, hb, hv, hbf⟩ := h start le_rfl hlt
      rcases List.mem_cons.mp hb with rfl | hb
      · rw [hflags] at hbf
        cases hbf
      · exact hlater ⟨b, hb, hv, hbf⟩

/-- **THE ACCESS CHECK IS EXACT.** -/
theorem can_access_range_iff (access : MappingFlags) (areas : MemorySet B)
    (start size : UInt64) (hsize : 0 < size.toNat) : canAccessRange access areas start size = true
      ↔ start.toNat + size.toNat < 2 ^ 64
        ∧ ∀ v, start.toNat ≤ v → v < start.toNat + size.toNat →
          Accessible access areas.areas v := by
  unfold canAccessRange
  split
  next hwrap =>
    rw [canAccess_iff areas.sorted (by omega)]
    exact (and_iff_right hwrap).symm
  next hwrap => exact iff_of_false Bool.false_ne_true (fun h => hwrap h.1)

end Access

/-- A page that can be read from user mode, and next to it one that can be written as well. -/
def adjacentPages : MemorySet Unit :=
  ⟨[⟨0, 4096, Nat.zero_lt_succ _, ⟨true, false, false, true⟩, ()⟩,
    ⟨4096, 8192, by decide, ⟨true, true, false, true⟩, ()⟩], by decide⟩

/-- Two bytes of either page: the loop goes on from the first area into the second. -/
theorem bytes_of_adjacent_pages :
    canAccessRange ⟨true, false, false, false⟩ adjacentPages 4094 4 = true
      ∧ canAccessRange ⟨true, true, false, false⟩ adjacentPages 4094 4 = false
      ∧ ∀ v, 4094 ≤ v → v < 4094 + 4 →
        Accessible ⟨true, false, false, false⟩ adjacentPages.areas v := by
  have h : canAccessRange ⟨true, false, false, false⟩ adjacentPages 4094 4 = true := by decide
  exact ⟨h, by decide, ((can_access_range_iff _ _ 4094 4 (by decide)).mp h).2⟩

end StarryOS.Mm
