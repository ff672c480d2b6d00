/-
  StarryOS.Mm.AddrSpace — ADDRESS SPACES OVER ANY MAPPING BACKEND
  (`kernel/src/mm/aspace/mod.rs`).

  An address space is a set of areas, each with a backend that decides what its
  pages map.  `AddrSpace` itself never looks inside a backend: it validates,
  walks areas, and calls the backend through the trait `BackendOps`.
  `BackendOps σ B` is the trait, `σ` is the state that the backends share (page
  tables, frame counts, files), and the functions below are written once for
  every instance.

  Programs end with a value, with an error code that the caller sees, or with
  `halt`: a failed assertion of the kernel, or an answer of the environment
  that it cannot give.  What was done before an error stays done.

  `AreaSet` is that of the `memory_set` crate: `map` refuses overlaps and
  inserts an area after its backend accepted it; `unmap` and `protect` go
  through the areas that meet the range in address order, call the backend for
  the part inside, split the area there, and stop at the first backend that
  refuses.
-/
import StarryOS.Lib.Program
import StarryOS.Mm.Paging

namespace StarryOS.Mm

open Lib

/-! ## §1. The state and the backend trait. -/

/-- How a program can fail. -/
inductive Stop where
  | err (e : AxError)
  | halt
  deriving Repr, DecidableEq

/-- One address space: its address range and its areas. -/
structure AddrSpace (B : Type) where
  vaStart : Nat
  vaStop : Nat
  areas : MemorySet B

/-- All address spaces, and the state that the backends share. -/
structure MmState (σ B : Type) where
  spaces : List (AddrSpace B)
  mem : σ

abbrev MmM (σ B : Type) := EStateM Stop (MmState σ B)

/-- The trait `BackendOps`, with the page-table operations that `AddrSpace`
performs on a backend's behalf.  `s` and `t` are numbers of address spaces. -/
structure BackendOps (σ B : Type) where
  pageSize : B → PageSize
  map (b : B) (s lo hi : Nat) (flags : MappingFlags) : MmM σ B Unit
  unmap (b : B) (s lo hi : Nat) : MmM σ B Unit
  onProtect (b : B) (newFlags : MappingFlags) : MmM σ B Unit
  /-- `cursor.protect_region`. -/
  protectRegion (s lo hi : Nat) (newFlags : MappingFlags) : MmM σ B Unit
  /-- The number of pages that now satisfy the access, and the callback. -/
  populate (b : B) (s lo hi : Nat) (flags access : MappingFlags) :
    MmM σ B (Nat × Option (MmM σ B Unit))
  cloneMap (b : B) (s t lo hi : Nat) (flags : MappingFlags) : MmM σ B B
  /-- The page table itself is freed with whatever is left in it. -/
  dropPageTable (s : Nat) : MmM σ B Unit

section Functions

variable {σ B : Type} (ops : BackendOps σ B)

/-- The state with the areas of space `s` changed by `f`. -/
def MmState.withAreas (st : MmState σ B) (s : Nat)
    (f : MemorySet B → MemorySet B) : MmState σ B :=
  { st with spaces := st.spaces.modify s (fun sp => { sp with areas := f sp.areas }) }

/-- The state with the shared state changed by `f`. -/
def MmState.withMem (st : MmState σ B) (f : σ → σ) : MmState σ B := { st with mem := f st.mem }

def modifyMem (f : σ → σ) : MmM σ B Unit := modify (fun st => st.withMem f)

/-- The pages of a range, or `InvalidInput`. -/
def pagesOf (lo hi : Nat) (size : PageSize) : MmM σ B (List Nat) :=
  match pagesIn lo hi size with
  | some vs => return vs
  | none => throw (.err .invalidInput)

def getSpace (s : Nat) : MmM σ B (AddrSpace B) := do
  match (← get).spaces[s]? with
  | some sp => return sp
  | none => throw .halt

/-- A backend that returns `false` fails the area operation with `BadState`. -/
def orBadState {α : Type} (m : MmM σ B α) : MmM σ B α :=
  tryCatch m (fun e => match e with
    | .err _ => throw (.err .badState)
    | .halt => throw .halt)

/-- `contains_range`. -/
def AddrSpace.containsRange (sp : AddrSpace B) (start size : Nat) : Bool :=
  sp.vaStart ≤ start && start < sp.vaStop && size ≤ sp.vaStop - start

/-- `validate_region`. -/
def validateRegion (sp : AddrSpace B) (start size : Nat) : MmM σ B Unit := do
  if ¬ sp.containsRange start size then
    throw (.err .noMemory)
  else if start % 4096 ≠ 0 ∨ size % 4096 ≠ 0 then
    throw (.err .invalidInput)
  else
    return ()

/-! ## §2. `map` and `populate_area`. -/

/-- `MemorySet::map` without replacing overlaps. -/
def mapArea (s : Nat) (a : MemoryArea B) : MmM σ B Unit := do
  let sp ← getSpace s
  if sp.areas.overlaps a.start a.stop then
    throw (.err .alreadyExists)
  else do
    orBadState (ops.map a.backend s a.start a.stop a.flags)
    modify (fun st => st.withAreas s (fun as => as.insert a))

/-- The loop of `populate_area` from `start` on.  Every round leaves an area
behind, so the number of areas bounds the rounds. -/
def populateLoop (s stop : Nat) (access : MappingFlags) : Nat → Nat → MmM σ B Nat
  | 0, start => return start
  | rounds + 1, start => do
    let sp ← getSpace s
    match sp.areas.find start with
    | none => return start
    | some a => do
      -- the callback is dropped
      let _ ← ops.populate a.backend s start (min a.stop stop) a.flags access
      if stop ≤ a.stop then
        return a.stop
      else
        populateLoop s stop access rounds a.stop

/-- `AddrSpace::populate_area`. -/
def populateArea (s start size : Nat) (access : MappingFlags) : MmM σ B Unit := do
  let sp ← getSpace s
  validateRegion sp start size
  let reached ← populateLoop ops s (start + size) access sp.areas.areas.length start
  if reached < start + size then
    throw (.err .noMemory)
  else
    return ()

/-- `AddrSpace::map`. -/
def map (s start size : Nat) (flags : MappingFlags) (populate : Bool) (backend : B) :
    MmM σ B Unit := do
  let sp ← getSpace s
  validateRegion sp start size
  if h : start < start + size then do
    mapArea ops s ⟨start, start + size, h, flags, backend⟩
    if populate then
      populateArea ops s start size flags
    else
      return ()
  else
    throw (.err .invalidInput)

/-! ## §3. `unmap` and `protect`. -/

/-- The walk of `MemorySet::unmap` and `protect` over the areas that are left:
`call` is the backend's part, then the part inside the range is carved. -/
def carveLoop (s lo hi : Nat) (call : MemoryArea B → MmM σ B Unit)
    (g : MappingFlags → Option MappingFlags) : List (MemoryArea B) → MmM σ B Unit
  | [] => return ()
  | a :: rest =>
    match a.within lo hi with
    | none => carveLoop s lo hi call g rest
    | some cut => do
      orBadState (call cut)
      modify (fun st => st.withAreas s (fun as => as.carve cut.start cut.stop g))
      carveLoop s lo hi call g rest

/-- `AddrSpace::unmap`. -/
def unmap (s start size : Nat) : MmM σ B Unit := do
  let sp ← getSpace s
  validateRegion sp start size
  carveLoop s start (start + size) (fun cut => ops.unmap cut.backend s cut.start cut.stop)
    (fun _ => none) sp.areas.areas

/-- `Backend::protect` on one part of an area. -/
def backendProtect (s : Nat) (newFlags : MappingFlags) (cut : MemoryArea B) :
    MmM σ B Unit := do
  ops.onProtect cut.backend newFlags
  ops.protectRegion s cut.start cut.stop newFlags

/-- `AddrSpace::protect`. -/
def protect (s start size : Nat) (newFlags : MappingFlags) : MmM σ B Unit := do
  let sp ← getSpace s
  validateRegion sp start size
  carveLoop s start (start + size) (backendProtect ops s newFlags) (fun _ => some newFlags)
    sp.areas.areas

/-! ## §4. Teardown. -/

/-- Unmaps areas one after the other; `clear` unwraps the result. -/
def clearLoop (s : Nat) : List (MemoryArea B) → MmM σ B Unit
  | [] => return ()
  | a :: rest => do
    tryCatch (ops.unmap a.backend s a.start a.stop) (fun _ => throw .halt)
    clearLoop s rest

/-- `AddrSpace::clear`. -/
def clear (s : Nat) : MmM σ B Unit := do
  let sp ← getSpace s
  clearLoop ops s sp.areas.areas
  modify (fun st => st.withAreas s (fun _ => .empty))

/-- `AddrSpace::drop`, after which the page table is freed. -/
def dropSpace (s : Nat) : MmM σ B Unit := do
  clear ops s
  ops.dropPageTable s

/-! ## §5. Page faults. -/

/-- The populate step of `handle_page_fault`: errors make the fault a real one,
a callback runs after success only. -/
def faultIn (s : Nat) (a : MemoryArea B) (v : Nat) (access : MappingFlags) :
    MmM σ B Bool := do
  let start := alignDown v (ops.pageSize a.backend)
  tryCatch
    (do
      let (n, callback) ← ops.populate a.backend s start
        (start + (ops.pageSize a.backend).bytes) a.flags access
      match callback with
      | some cb => do
        cb
        return n != 0
      | none => return n != 0)
    (fun e => match e with
      | .err _ => return false
      | .halt => throw .halt)

/-- `AddrSpace::handle_page_fault`. -/
def handlePageFault (s v : Nat) (access : MappingFlags) : MmM σ B Bool := do
  let sp ← getSpace s
  if sp.vaStart ≤ v ∧ v < sp.vaStop then
    match sp.areas.find v with
    | some a => if a.flags.contains access then faultIn ops s a v access else return false
    | none => return false
  else
    return false

/-! ## §6. `try_clone`. -/

/-- The loop of `try_clone` over the areas of the parent. -/
def cloneLoop (s t : Nat) : List (MemoryArea B) → MmM σ B Unit
  | [] => return ()
  | a :: rest => do
    let backend ← ops.cloneMap a.backend s t a.start a.stop a.flags
    mapArea ops t { a with backend := backend }
    cloneLoop s t rest

/-- `AddrSpace::try_clone`: the child is the next address space.  On an error
the half-built child is dropped. -/
def tryClone (s : Nat) : MmM σ B Unit := do
  let sp ← getSpace s
  let t := (← get).spaces.length
  modify (fun st => { st with
    spaces := st.spaces ++ [{ vaStart := sp.vaStart, vaStop := sp.vaStop, areas := .empty }] })
  tryCatch (cloneLoop ops s t sp.areas.areas) (fun e => match e with
    | .err code => do
      dropSpace ops t
      throw (.err code)
    | .halt => throw .halt)

/-! ## §7. System calls as steps. -/

/-- One operation on the address spaces. -/
inductive MmOp (B : Type) where
  /-- `AddrSpace::new_empty`. -/
  | newSpace (base size : Nat)
  | map (s start size : Nat) (flags : MappingFlags) (populate : Bool) (backend : B)
  | populateArea (s start size : Nat) (access : MappingFlags)
  | fault (s v : Nat) (access : MappingFlags)
  | protect (s start size : Nat) (newFlags : MappingFlags)
  | unmap (s start size : Nat)
  | fork (s : Nat)
  | exit (s : Nat)

/-- The program of an operation; results do not matter to the state. -/
def execOp : MmOp B → MmM σ B Unit
  | .newSpace base size => modify (fun st => { st with
      spaces := st.spaces ++ [{ vaStart := base, vaStop := base + size, areas := .empty }] })
  | .map s start size flags populate backend => map ops s start size flags populate backend
  | .populateArea s start size access => populateArea ops s start size access
  | .fault s v access => do
    let _ ← handlePageFault ops s v access
    return ()
  | .protect s start size newFlags => protect ops s start size newFlags
  | .unmap s start size => unmap ops s start size
  | .fork s => tryClone ops s
  | .exit s => dropSpace ops s

/-- An operation that halts is not a step; one that fails leaves what it did. -/
def runStep (m : MmM σ B Unit) (st : MmState σ B) : Option (MmState σ B) :=
  match m st with
  | .ok _ st' => some st'
  | .error (.err _) st' => some st'
  | .error .halt _ => none

end Functions

end StarryOS.Mm
