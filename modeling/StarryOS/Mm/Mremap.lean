/-
  StarryOS.Mm.Mremap — `mremap` through `mmap` (`kernel/src/syscall/mm/mmap.rs`).

  `sys_mremap` asks `sys_mmap` for a PRIVATE mapping with the descriptor −1 and
  without ANONYMOUS, which the argument checks of `sys_mmap` refuse.  What comes
  after the checks is a parameter: `sys_mremap_fails` holds whatever it does.
-/
import StarryOS.Errno
import StarryOS.Lib.Program

namespace StarryOS.Mm

open Lib

namespace MmapFlags

def mapShared : BitVec 32 := 0x1

def mapPrivate : BitVec 32 := 0x2

def mapSharedValidate : BitVec 32 := 0x3

def mapAnonymous : BitVec 32 := 0x20

/-- `MmapFlags::TYPE`. -/
def typeMask : BitVec 32 := 0xf

/-- All the bits of `MmapFlags`: SHARED to DENYWRITE, and TYPE. -/
def all : BitVec 32 := 0x7816c83f

end MmapFlags

/-- What `sys_mmap` has found out when its checks have passed. -/
structure MmapRequest where
  addr : UInt64
  length : UInt64
  prot : UInt64
  mapFlags : BitVec 32
  fd : Int
  offset : Nat

/-- The address space `σ`, as the calls use it. -/
structure MmapEnv (σ : Type) where
  /-- The bits of `find_area(addr)?.flags()`. -/
  findArea : σ → UInt64 → Option UInt64
  /-- `sys_mmap` behind its checks: the place, the backend and the mapping. -/
  place : MmapRequest → EStateM AxError σ UInt64
  vmLoad : UInt64 → UInt64 → EStateM AxError σ (List UInt8)
  vmWriteSlice : UInt64 → List UInt8 → EStateM AxError σ Unit
  unmap : UInt64 → UInt64 → EStateM AxError σ Unit

variable {σ : Type} (env : MmapEnv σ)

/-- `sys_mmap`. -/
def sysMmap (addr length prot : UInt64) (flags : BitVec 32) (fd offset : Int) :
    EStateM AxError σ UInt64 := do
  if length = 0 then throw .invalidInput
  -- unknown flags are dropped, unless the type asks for their validation
  if flags &&& MmapFlags.all ≠ flags
      ∧ flags &&& MmapFlags.typeMask = MmapFlags.mapSharedValidate then
    throw .operationNotSupported
  let mapFlags := flags &&& MmapFlags.all
  let mapType := mapFlags &&& MmapFlags.typeMask
  if ¬(mapType = MmapFlags.mapPrivate ∨ mapType = MmapFlags.mapShared
      ∨ mapType = MmapFlags.mapSharedValidate) then
    throw .invalidInput
  if decide (mapFlags &&& MmapFlags.mapAnonymous = MmapFlags.mapAnonymous) ≠ decide (fd ≤ 0) then
    throw .invalidInput
  if fd ≤ 0 ∧ offset ≠ 0 then throw .invalidInput
  if offset < 0 then throw .invalidInput
  if offset % 4096 ≠ 0 then throw .invalidInput
  env.place ⟨addr, length, prot, mapFlags, fd, offset.toNat⟩

/-- `align_up_4k`. -/
def alignUp (n : UInt64) : UInt64 := (n + 4095) &&& ~~~4095

/-- `sys_munmap`. -/
def sysMunmap (addr length : UInt64) : EStateM AxError σ Unit := env.unmap addr (alignUp length)

/-- `sys_mremap` once the area is found: a new mapping, the copy, and the end of the old one. -/
def moveArea (addr oldSize newSize flags : UInt64) : EStateM AxError σ UInt64 := do
  let newAddr ← sysMmap env addr newSize flags MmapFlags.mapPrivate (-1) 0
  let data ← env.vmLoad addr (min newSize oldSize)
  env.vmWriteSlice newAddr data
  sysMunmap env addr oldSize
  return newAddr

/-- `sys_mremap`; it does not use its `flags`. -/
def sysMremap (addr oldSize newSize : UInt64) : EStateM AxError σ UInt64 := do
  if addr % 4096 ≠ 0 then throw .invalidInput
  let oldSize := alignUp oldSize
  let newSize := alignUp newSize
  match env.findArea (← get) addr with
  | none => throw .noMemory
  | some flags => moveArea env addr oldSize newSize flags

/-- A PRIVATE mapping with no descriptor and without ANONYMOUS is refused, before anything is
done. -/
theorem sysMmap_private_without_file (addr length prot : UInt64) (st : σ) :
    sysMmap env addr length prot MmapFlags.mapPrivate (-1) 0 st = .error .invalidInput st := by
  by_cases hlength : length = 0
  · rw [hlength]
    rfl
  · unfold sysMmap
    rw [if_neg hlength]
    rfl

theorem moveArea_fails (addr oldSize newSize flags : UInt64) (st : σ) :
    moveArea env addr oldSize newSize flags st = .error .invalidInput st := by
  show EStateM.bind _ _ st = _
  unfold EStateM.bind
  rw [sysMmap_private_without_file]

/-- **`mremap` NEVER SUCCEEDS**: every call returns an error and changes nothing, whatever the
address space holds and whatever `mmap` could do behind its checks. -/
theorem sys_mremap_fails (addr oldSize newSize : UInt64) (st : σ) :
    sysMremap env addr oldSize newSize st
      = .error (if addr % 4096 = 0 ∧ env.findArea st addr = none then .noMemory
          else .invalidInput) st := by
  unfold sysMremap
  by_cases haligned : addr % 4096 = 0
  · rw [if_neg (not_not_intro haligned)]
    show (match env.findArea st addr with
      | none => throw AxError.noMemory
      | some flags => moveArea env addr (alignUp oldSize) (alignUp newSize) flags) st = _
    cases env.findArea st addr with
    | none =>
      rw [if_pos ⟨haligned, rfl⟩]
      rfl
    | some flags =>
      rw [if_neg (fun h => Option.some_ne_none flags h.2)]
      exact moveArea_fails env _ _ _ flags st
  · rw [if_pos haligned, if_neg (fun h => haligned h.1)]
    rfl

/-- Every mapping, copy and unmapping succeeds; the state is the set of the mapped addresses. -/
def MmapEnv.willing : MmapEnv (UInt64 → Bool) where
  findArea mapped addr := if mapped addr then some 0b1011 else none
  place request mapped := .ok request.addr mapped
  vmLoad _ n mapped := .ok (List.replicate n.toNat 0) mapped
  vmWriteSlice _ _ mapped := .ok () mapped
  unmap _ _ mapped := .ok () mapped

/-- A readable and writable page, with memory for its growth. -/
theorem mremap_of_a_page_fails : sysMremap .willing 0x1000 4096 8192 (fun a => a / 4096 = 1)
      = .error .invalidInput (fun a => a / 4096 = 1) := by
  rfl

end StarryOS.Mm
