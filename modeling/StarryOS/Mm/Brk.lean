/-
  StarryOS.Mm.Brk — THE HEAP TOP AND THE MAPPED HEAP
  (`kernel/src/syscall/mm/brk.rs`).

  The loader maps `USER_HEAP_SIZE` bytes.  `brk` maps or unmaps only what lies
  beyond them, so the mapped end is the larger of the initial end and the rounded
  top, whatever the calls were (`heap_in_step`).
-/
import StarryOS.Lib.Transition

namespace StarryOS.Mm

open Lib

def heapBase : Nat := 0x40000000

def heapSize : Nat := 0x10000

def heapSizeMax : Nat := 0x20000000

/-- `align_up_4k`. -/
def alignUp4k (n : Nat) : Nat := (n + 4095) / 4096 * 4096

/-- The heap top, and the addresses of the heap that are mapped. -/
structure Heap where
  top : Nat
  mapped : Nat → Bool

namespace Heap

/-- What `load_user_app` leaves; the top lies in the mapped part. -/
def fresh (k : Fin (heapSize + 1)) : Heap where
  top := heapBase + k
  mapped v := heapBase ≤ v && v < heapBase + heapSize

variable (h : Heap) (addr : Nat) (ok : Bool)

def initialEnd : Nat := heapBase + heapSize

/-- `[expand_start, expand_start + expand_size)`. -/
def expands (v : Nat) : Bool := max initialEnd (alignUp4k h.top) ≤ v && v < alignUp4k addr

/-- `[shrink_start, shrink_start + shrink_size)`. -/
def shrinks (v : Nat) : Bool := max initialEnd (alignUp4k addr) ≤ v && v < alignUp4k h.top

/-- `sys_brk`: what is returned, and the heap; `ok` is the answer of `map` or `unmap`. -/
def sysBrk : Nat × Heap :=
  if addr = 0 then (h.top, h)
  else if addr < heapBase ∨ heapBase + heapSizeMax < addr then (h.top, h)
  else if alignUp4k h.top < alignUp4k addr then
    if 0 < alignUp4k addr - max initialEnd (alignUp4k h.top) ∧ ok = false then (h.top, h)
    else (addr, ⟨addr, fun v => h.mapped v || h.expands addr v⟩)
  else if alignUp4k addr < alignUp4k h.top then
    if 0 < alignUp4k h.top - max initialEnd (alignUp4k addr) ∧ ok = false then (h.top, h)
    else (addr, ⟨addr, fun v => h.mapped v && !h.shrinks addr v⟩)
  else (addr, { h with top := addr })

def step (call : Nat × Bool) : Option Heap := some (h.sysBrk call.1 call.2).2

/-- **What `brk` keeps.** -/
structure InStep : Prop where
  low : heapBase ≤ h.top
  high : h.top ≤ heapBase + heapSizeMax
  mapped : ∀ v, h.mapped v = true ↔ heapBase ≤ v ∧ v < max initialEnd (alignUp4k h.top)

variable {h addr ok}

theorem InStep.sysBrk (hin : h.InStep) : (h.sysBrk addr ok).2.InStep := by
  obtain ⟨hlow, hhigh, hmapped⟩ := hin
  have hbase : heapBase ≤ initialEnd := Nat.le_add_right _ _
  unfold Heap.sysBrk
  split
  · exact ⟨hlow, hhigh, hmapped⟩
  split
  · exact ⟨hlow, hhigh, hmapped⟩
  next hlimits =>
    simp only [not_or, Nat.not_lt] at hlimits
    split
    · split
      · exact ⟨hlow, hhigh, hmapped⟩
      · refine ⟨hlimits.1, hlimits.2, fun v => ?_⟩
        simp only [Bool.or_eq_true, hmapped, expands, Bool.and_eq_true, decide_eq_true_eq]
        omega
    split
    · split
      · exact ⟨hlow, hhigh, hmapped⟩
      · refine ⟨hlimits.1, hlimits.2, fun v => ?_⟩
        simp only [Bool.and_eq_true, hmapped, shrinks, Bool.not_eq_true', Bool.and_eq_false_iff,
          decide_eq_false_iff_not]
        omega
    · refine ⟨hlimits.1, hlimits.2, fun v => ?_⟩
      rw [hmapped, show alignUp4k addr = alignUp4k h.top by omega]

/-- A call that returns something else than its argument has done nothing. -/
theorem sysBrk_unchanged (hne : (h.sysBrk addr ok).1 ≠ addr) : (h.sysBrk addr ok).2 = h := by
  unfold Heap.sysBrk at hne ⊢
  grind

/-- **THE HEAP STAYS IN STEP** after any calls of `brk`; a call that returns another value than
its argument changes nothing, and what it would map is not mapped. -/
theorem heap_in_step (k : Fin (heapSize + 1)) (hreach : Reach step Always (fresh k) h) :
    h.InStep ∧ ∀ addr ok, ((h.sysBrk addr ok).1 ≠ addr → (h.sysBrk addr ok).2 = h)
      ∧ ∀ v, h.expands addr v = true → h.mapped v = false := by
  have hfresh : (fresh k).InStep := by
    have hk := k.isLt
    refine ⟨Nat.le_add_right _ _, ?_, fun v => ?_⟩
    · simp only [fresh, heapBase, heapSize, heapSizeMax] at hk ⊢
      omega
    · simp only [fresh, Bool.and_eq_true, decide_eq_true_eq]
      simp only [initialEnd, alignUp4k, heapBase, heapSize] at hk ⊢
      omega
  have hin := hreach.invariant InStep hfresh (by
    rintro h call _ hin _ ⟨⟩
    exact hin.sysBrk)
  refine ⟨hin, fun addr ok => ⟨sysBrk_unchanged, fun v hv => ?_⟩⟩
  rw [← Bool.not_eq_true, hin.mapped]
  simp only [expands, Bool.and_eq_true, decide_eq_true_eq] at hv
  omega

/-- A growth by a page, and back to the middle of the initial part. -/
theorem heap_grows_and_shrinks : ∃ h, Reach step Always (fresh 0) h ∧ h.top = heapBase + 100
    ∧ h.InStep :=
  have hr : Reach step Always (fresh 0) _ :=
    .of_runs [(heapBase + heapSize + 1, true), (heapBase + 100, true)] (runsOk_always _ _ _) rfl
  ⟨_, hr, by decide, (heap_in_step 0 hr).1⟩

end Heap

end StarryOS.Mm
