/-
  StarryOS.Mm.SegmentPages — THE PAGES OF A LOADABLE SEGMENT (`alloc_new_at` in
  `aspace/backend/cow.rs`, `map_elf` in `loader.rs`).

  A page is filled when it is first touched.  The offsets in the file are added in
  64 bits: `segment_pages_right_iff` says for which segments that does not show.
-/
import Mathlib.Logic.Function.Basic
import Mathlib.Algebra.Order.Ring.Nat

namespace StarryOS.Mm

open Function

/-- A `PT_LOAD` header, `vaddr` with the base added, as `map_elf` accepts it; the rounded end of
the segment is an address. -/
structure Segment where
  vaddr : UInt64
  offset : UInt64
  fileSize : UInt64
  memSize : UInt64
  congruent : vaddr.toNat % 4096 = offset.toNat % 4096
  fits : fileSize.toNat ≤ memSize.toNat
  inSpace : vaddr.toNat + memSize.toNat + 4095 < 2 ^ 64

namespace Segment

variable (seg : Segment) (file : List UInt8)

/-- The pages that `map_elf` maps, `seg_align_size` bytes from the page of `vaddr`. -/
def HasPage (v : Nat) : Prop :=
  v % 4096 = 0 ∧ seg.vaddr.toNat / 4096 * 4096 ≤ v
    ∧ v < seg.vaddr.toNat / 4096 * 4096
      + (seg.memSize.toNat + seg.vaddr.toNat % 4096 + 4095) / 4096 * 4096

/-- `ph.offset + ph.file_size`. -/
def fileEnd : Nat := (seg.offset.toNat + seg.fileSize.toNat) % 2 ^ 64

/-- `*file_start + vaddr.saturating_sub(self.start)`. -/
def fileStart (v : Nat) : Nat := (seg.offset.toNat + (v - seg.vaddr.toNat)) % 2 ^ 64

/-- The bytes of the frame that `alloc_new_at` maps at `v`: zeroed, then read over; `read_at`
stops at the end of the file. -/
def allocNewAt (v i : Nat) : UInt8 :=
  let start := seg.vaddr.toNat - v
  let maxRead := min (seg.fileEnd - seg.fileStart v) (4096 - start)
  if start ≤ i ∧ i < start + maxRead then (file[seg.fileStart v + (i - start)]?).getD 0 else 0

/-- The page at `v` is touched; a first touch may fail. -/
def touch (pages : Nat → Option (Nat → UInt8)) (t : Nat × Bool) : Nat → Option (Nat → UInt8) :=
  if pages t.1 = none ∧ t.2 = true then
    update pages t.1 (some (seg.allocNewAt file t.1))
  else pages

/-- What the segment says of address `a`. -/
def expected (a : Nat) : UInt8 :=
  if seg.vaddr.toNat ≤ a ∧ a < seg.vaddr.toNat + seg.fileSize.toNat then
    (file[seg.offset.toNat + (a - seg.vaddr.toNat)]?).getD 0
  else 0

/-- In whatever order the pages are touched, they have the right bytes. -/
def PagesRight : Prop :=
  ∀ file : List UInt8, file.length < 2 ^ 64 → ∀ (touches : List (Nat × Bool)) (v i : Nat),
    seg.HasPage v → i < 4096 →
      ∀ page, touches.foldl (seg.touch file) (fun _ => none) v = some page →
    page i = seg.expected file (v + i)

/-- Once there, a page is what the first touch made it. -/
theorem touches_fill (touches : List (Nat × Bool)) :
    ∀ pages, (∀ v page, pages v = some page → page = seg.allocNewAt file v) →
      ∀ v page, touches.foldl (seg.touch file) pages v = some page →
        page = seg.allocNewAt file v := by
  induction touches with
  | nil => exact fun _ h => h
  | cons t touches ih =>
    intro pages h
    refine ih _ (fun v page hv => ?_)
    unfold touch at hv
    split at hv
    · by_cases hvt : v = t.1
      · rw [hvt, update_self] at hv
        rw [hvt, ← Option.some.inj hv]
      · rw [update_of_ne hvt] at hv
        exact h v page hv
    · exact h v page hv

/-- So the order does not matter. -/
theorem pagesRight_iff_allocNewAt : seg.PagesRight ↔ ∀ file : List UInt8, file.length < 2 ^ 64 →
    ∀ v i, seg.HasPage v → i < 4096 → seg.allocNewAt file v i = seg.expected file (v + i) := by
  constructor
  · intro h file hfile v i hv hi
    exact h file hfile [(v, true)] v i hv hi _ (by simp [touch])
  · intro h file hfile touches v i hv hi page hpage
    rw [seg.touches_fill file touches _ (fun _ _ hn => by cases hn) v page hpage]
    exact h file hfile v i hv hi

variable {seg}

/-- Every page begins before the end of the segment. -/
theorem HasPage.lt {v : Nat} (h : seg.HasPage v) : v < seg.vaddr.toNat + seg.memSize.toNat := by
  obtain ⟨hmod, -, hlt⟩ := h
  omega

/-- No sum leaves the 64 bits: the page is right. -/
theorem allocNewAt_right (hmem : seg.offset.toNat + seg.memSize.toNat ≤ 2 ^ 64)
    (hfile : seg.offset.toNat + seg.fileSize.toNat < 2 ^ 64) {v i : Nat} (hv : seg.HasPage v)
    (hi : i < 4096) : seg.allocNewAt file v i = seg.expected file (v + i) := by
  have hend : seg.fileEnd = seg.offset.toNat + seg.fileSize.toNat := Nat.mod_eq_of_lt hfile
  have hlt := hv.lt
  have hstart : seg.fileStart v = seg.offset.toNat + (v - seg.vaddr.toNat) :=
    Nat.mod_eq_of_lt (by omega)
  simp only [allocNewAt, expected, hend, hstart]
  split
  · rw [if_pos (by omega)]
    congr 2
    omega
  · rw [if_neg (by omega)]

/-- If the end of the data is `2 ^ 64`, nothing is read. -/
theorem allocNewAt_of_fileEnd (hend : seg.offset.toNat + seg.fileSize.toNat = 2 ^ 64)
    (v i : Nat) : seg.allocNewAt file v i = 0 := by
  have hzero : seg.fileEnd = 0 := by
    unfold fileEnd
    rw [hend, Nat.mod_self]
  exact if_neg (by omega)

/-- The page whose place in the file is `2 ^ 64` gets the first bytes of the file. -/
theorem allocNewAt_wraps (hmem : 2 ^ 64 < seg.offset.toNat + seg.memSize.toNat)
    (hfile : seg.offset.toNat + seg.fileSize.toNat ≠ 2 ^ 64) :
    seg.HasPage (seg.vaddr.toNat + (2 ^ 64 - seg.offset.toNat))
      ∧ seg.allocNewAt [1] (seg.vaddr.toNat + (2 ^ 64 - seg.offset.toNat)) 0 = 1 := by
  have hoff := seg.offset.toNat_lt
  have hcongruent := seg.congruent
  have hfits := seg.fits
  have hspace := seg.inSpace
  refine ⟨⟨by omega, by omega, by omega⟩, ?_⟩
  have hstart : seg.fileStart (seg.vaddr.toNat + (2 ^ 64 - seg.offset.toNat)) = 0 := by
    unfold fileStart
    rw [Nat.add_sub_cancel_left, Nat.add_sub_cancel' hoff.le, Nat.mod_self]
  have hend : 0 < seg.fileEnd := by
    unfold fileEnd
    omega
  simp only [allocNewAt, hstart]
  rw [if_pos (by omega), show seg.vaddr.toNat - (seg.vaddr.toNat + (2 ^ 64 - seg.offset.toNat)) = 0
    by omega]
  rfl

/-- **WHEN THE PAGES ARE RIGHT.**  The place in the file of no page of the segment, and of no end
of its data, leaves the 64 bits; a single byte at the last place is read as the zero that it is. -/
theorem segment_pages_right_iff (seg : Segment) : seg.PagesRight ↔
    (seg.offset.toNat + seg.memSize.toNat ≤ 2 ^ 64 ∧ seg.offset.toNat + seg.fileSize.toNat < 2 ^ 64)
      ∨ (seg.offset.toNat + 1 = 2 ^ 64 ∧ seg.fileSize.toNat = 1) := by
  rw [pagesRight_iff_allocNewAt]
  constructor
  · intro h
    by_contra hno
    have hoff := seg.offset.toNat_lt
    have hfits := seg.fits
    by_cases hend : seg.offset.toNat + seg.fileSize.toNat = 2 ^ 64
    · -- the byte at `vaddr` is in the file and is not read
      have hright := h (List.replicate (seg.offset.toNat + 1) 1)
        (by rw [List.length_replicate]; omega) (seg.vaddr.toNat / 4096 * 4096)
        (seg.vaddr.toNat % 4096) ⟨by omega, by omega, by omega⟩ (by omega)
      rw [allocNewAt_of_fileEnd _ hend, expected, if_pos (by omega),
        List.getElem?_replicate_of_lt (by omega)] at hright
      cases hright
    · -- the page after the last place is not in the file and is read
      obtain ⟨hpage, hone⟩ := allocNewAt_wraps (by omega) hend
      have hright := h [1] (by decide) _ 0 hpage (by omega)
      rw [hone, expected, List.getElem?_eq_none (by rw [List.length_singleton]; omega)] at hright
      split at hright <;> cases hright
  · rintro (⟨hmem, hfile⟩ | ⟨hlast, hone⟩) file hlen v i hv hi
    · exact allocNewAt_right file hmem hfile hv hi
    rw [allocNewAt_of_fileEnd file (by omega), expected]
    split
    · rw [List.getElem?_eq_none (by omega)]
      rfl
    · rfl

/-- Two pages of data of which the first ends at the last place of a file of one byte. -/
def atTheEnd : Segment where
  vaddr := 0x1000
  offset := 0xfffffffffffff000
  fileSize := 0x2000
  memSize := 0x2000
  congruent := rfl
  fits := le_rfl
  inSpace := Nat.lt_of_sub_ne_zero (Nat.succ_ne_zero _)

/-- The second page has the first byte of the file, which belongs to no address. -/
theorem second_page_wraps : atTheEnd.HasPage 0x2000 ∧ atTheEnd.allocNewAt [1] 0x2000 0 = 1
    ∧ atTheEnd.expected [1] 0x2000 = 0 := by
  refine ⟨⟨by decide, by decide, by decide⟩, by decide, by decide⟩

end Segment

end StarryOS.Mm
