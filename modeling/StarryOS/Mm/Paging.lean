/-
  StarryOS.Mm.Paging — PAGES, MAPPING FLAGS AND PAGE-TABLE ENTRIES
  (`axhal::paging`, `memory_addr`), as far as the memory-mapping backends look at
  them.

  A page table is a finite map from pages to entries.  All page tables of the
  system are ONE `Table` keyed by the number of the address space and the start
  address of the page: the backends only ever name an entry by both.
-/
import StarryOS.Errno
import StarryOS.Lib.AreaSet
import StarryOS.Lib.Table

namespace StarryOS.Mm

open Lib

/-- `MappingFlags`, the access bits. -/
structure MappingFlags where
  read : Bool
  write : Bool
  execute : Bool
  user : Bool
  deriving Repr, DecidableEq

/-- `MemoryArea`. -/
abbrev MemoryArea := Area MappingFlags

/-- `MemorySet`. -/
abbrev MemorySet := AreaSet MappingFlags

namespace MappingFlags

/-- `self.contains(other)`. -/
def contains (f other : MappingFlags) : Bool :=
  (!other.read || f.read) && (!other.write || f.write) && (!other.execute || f.execute)
    && (!other.user || f.user)

/-- `self - MappingFlags::WRITE`. -/
def withoutWrite (f : MappingFlags) : MappingFlags := { f with write := false }

/-- User pages that can be read. -/
def ro : MappingFlags := ⟨true, false, false, true⟩

/-- User pages that can be read and written. -/
def rw : MappingFlags := ⟨true, true, false, true⟩

end MappingFlags

/-- `PageSize`. -/
inductive PageSize where
  | size4K
  | size2M
  | size1G
  deriving Repr, DecidableEq

/-- `page_size as usize`. -/
def PageSize.bytes : PageSize → Nat
  | .size4K => 4096
  | .size2M => 2097152
  | .size1G => 1073741824

theorem PageSize.bytes_pos (p : PageSize) : 0 < p.bytes := by
  cases p <;> decide

/-- `addr.align_down(page_size)`. -/
def alignDown (v : Nat) (p : PageSize) : Nat := v / p.bytes * p.bytes

/-- A present page-table entry. -/
structure Pte where
  paddr : Nat
  flags : MappingFlags
  size : PageSize
  deriving Repr, DecidableEq

/-- The page tables of all address spaces. -/
abbrev PageTables := Table (Nat × Nat) Pte

/-- A page meets the range. -/
def meets (lo hi v : Nat) (pte : Pte) : Bool := v < hi && lo < v + pte.size.bytes

/-- `protect_region` on one entry. -/
def protectPte (s lo hi : Nat) (newFlags : MappingFlags) (key : Nat × Nat) (pte : Pte) : Pte :=
  if key.1 = s ∧ meets lo hi key.2 pte then { pte with flags := newFlags } else pte

theorem protectPte_paddr (s lo hi : Nat) (newFlags : MappingFlags) (key : Nat × Nat) (pte : Pte) :
    (protectPte s lo hi newFlags key pte).paddr = pte.paddr := by
  unfold protectPte
  split <;> rfl

theorem protectPte_size (s lo hi : Nat) (newFlags : MappingFlags) (key : Nat × Nat) (pte : Pte) :
    (protectPte s lo hi newFlags key pte).size = pte.size := by
  unfold protectPte
  split <;> rfl

/-- `pages_in`: the pages of a range whose ends are page boundaries. -/
def pagesIn (lo hi : Nat) (p : PageSize) : Option (List Nat) :=
  if lo % p.bytes = 0 ∧ hi % p.bytes = 0 then
    some ((List.range ((hi - lo) / p.bytes)).map (fun i => lo + i * p.bytes))
  else
    none

variable {lo hi v : Nat} {p : PageSize} {vs : List Nat}

theorem pagesIn_eq_some_iff :
    (∃ vs, pagesIn lo hi p = some vs) ↔ lo % p.bytes = 0 ∧ hi % p.bytes = 0 := by
  unfold pagesIn
  constructor
  · rintro ⟨vs, h⟩
    split at h
    next hc => exact hc
    · cases h
  · intro hc
    rw [if_pos hc]
    exact ⟨_, rfl⟩

section

variable (h : pagesIn lo hi p = some vs)
include h

/-- **The pages of a range** are its multiples of the page size. -/
theorem mem_pagesIn : v ∈ vs ↔ lo ≤ v ∧ v < hi ∧ v % p.bytes = 0 := by
  have hpos := p.bytes_pos
  unfold pagesIn at h
  split at h
  next hc =>
    cases h
    rw [List.mem_map]
    obtain ⟨a, ha⟩ := Nat.dvd_of_mod_eq_zero hc.1
    obtain ⟨b, hb⟩ := Nat.dvd_of_mod_eq_zero hc.2
    have hcount : (hi - lo) / p.bytes = b - a := by
      rw [ha, hb, ← Nat.mul_sub, Nat.mul_div_cancel_left _ hpos]
    constructor
    · rintro ⟨i, hi', rfl⟩
      rw [List.mem_range] at hi'
      have hlt : p.bytes * (a + i) < p.bytes * b := Nat.mul_lt_mul_of_pos_left (by omega) hpos
      rw [Nat.mul_add, ← ha, ← hb, Nat.mul_comm p.bytes i] at hlt
      refine ⟨Nat.le_add_right _ _, hlt, ?_⟩
      rw [Nat.add_mul_mod_self_right]
      exact hc.1
    · rintro ⟨hlo, hhi, hmod⟩
      obtain ⟨c, hcv⟩ := Nat.dvd_of_mod_eq_zero hmod
      have hac : a ≤ c := Nat.le_of_mul_le_mul_left (by rw [← ha, ← hcv]; exact hlo) hpos
      have hcb : c < b := Nat.lt_of_mul_lt_mul_left (by rw [← hb, ← hcv]; exact hhi)
      refine ⟨c - a, ?_, ?_⟩
      · rw [List.mem_range]
        omega
      · rw [ha, hcv, Nat.mul_comm (c - a), ← Nat.mul_add]
        congr 1
        omega
  · cases h

theorem pagesIn_sorted : vs.Pairwise (fun v w => v < w) := by
  have hpos := p.bytes_pos
  unfold pagesIn at h
  split at h
  · cases h
    rw [List.pairwise_map]
    refine List.pairwise_lt_range.imp ?_
    intro i j hij
    exact Nat.add_lt_add_left (Nat.mul_lt_mul_of_pos_right hij hpos) lo
  · cases h

theorem length_pagesIn : vs.length = (hi - lo) / p.bytes := by
  unfold pagesIn at h
  grind

end

theorem pagesIn_single (h : v % p.bytes = 0) : pagesIn v (v + p.bytes) p = some [v] := by
  unfold pagesIn
  rw [if_pos ⟨h, by rw [Nat.add_mod_right]; exact h⟩, Nat.add_sub_cancel_left,
    Nat.div_self p.bytes_pos]
  simp

/-- Pages that start at multiples of their size either agree or lie apart. -/
theorem le_of_aligned {w n : Nat} (hv : v % n = 0) (hw : w % n = 0) (h : w < v + n) : w ≤ v := by
  obtain ⟨a, rfl⟩ := Nat.dvd_of_mod_eq_zero hv
  obtain ⟨b, rfl⟩ := Nat.dvd_of_mod_eq_zero hw
  exact Nat.mul_le_mul_left n (Nat.lt_succ_iff.mp (Nat.lt_of_mul_lt_mul_left h))

theorem alignDown_mod (v : Nat) (p : PageSize) : alignDown v p % p.bytes = 0 :=
  Nat.mul_mod_left _ _

theorem alignDown_spec (v : Nat) (p : PageSize) :
    alignDown v p ≤ v ∧ v < alignDown v p + p.bytes := by
  unfold alignDown
  refine ⟨Nat.div_mul_le_self v p.bytes, ?_⟩
  rw [← Nat.succ_mul]
  exact (Nat.div_lt_iff_lt_mul p.bytes_pos).mp (Nat.lt_succ_self _)

end StarryOS.Mm
