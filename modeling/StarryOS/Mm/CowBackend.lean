/-
  StarryOS.Mm.CowBackend — COPY-ON-WRITE AREAS
  (`kernel/src/mm/aspace/backend/cow.rs`).

  Frames of private mappings are shared between address spaces after a fork.
  The global `FRAME_TABLE` counts, in a `u8`, how many page-table entries map
  each of them; a write fault on a page with count 1 upgrades the entry, with a
  higher count it copies the frame.

  The counts and the entries are changed by SEPARATE statements, and some of
  the statements in between can fail: the frame allocator, the read of the
  mapped file, the page table's own allocation.  Their answers come from an
  `Env`, one per call.

  Areas of the other backends share the page tables but not the frames.  Their
  entries are kept in `others`; they come and go by steps of their own
  (`otherMap`, `otherUnmap`), on frames that `FRAME_TABLE` does not know.
-/
import StarryOS.Mm.AddrSpace

namespace StarryOS.Mm.Cow

open Lib

/-! ## §1. State and environment. -/

/-- `CowBackend`.  Of the mapped file only its range matters: where it starts
and where it ends. -/
structure CowBackend where
  start : Nat
  size : PageSize
  file : Option (Nat × Option Nat)
  deriving Repr, DecidableEq

/-- A copy-on-write area, or an area of one of the other backends. -/
inductive Backend where
  | cow (b : CowBackend)
  | other (size : PageSize)
  deriving Repr, DecidableEq

/-- `Backend::new_alloc`. -/
def Backend.newAlloc (start : Nat) (size : PageSize) : Backend := .cow ⟨start, size, none⟩

/-- `Backend::new_cow`. -/
def Backend.newCow (start : Nat) (size : PageSize) (fileStart : Nat) (fileEnd : Option Nat) :
    Backend := .cow ⟨start, size, some (fileStart, fileEnd)⟩

/-- Answers from outside: the frame allocator, reads of mapped files, the page
table's own allocations, and whether a call on another backend succeeds. -/
structure Env where
  alloc : Nat → Option Nat
  readOk : Nat → Bool
  mapOk : Nat → Bool
  otherOk : Nat → Bool

/-- Page-table entries, `FRAME_TABLE`, and how many answers were used. -/
structure CowMem where
  ptes : PageTables
  others : PageTables
  frames : Table Nat Nat
  allocs : Nat
  reads : Nat
  maps : Nat
  otherCalls : Nat

abbrev CowState := MmState CowMem Backend

abbrev CowM := MmM CowMem Backend

/-- Nobody uses the frame: it is not counted, and no other backend maps it. -/
def CowMem.unused (m : CowMem) (f : Nat) : Bool :=
  (m.frames.lookup f).isNone && m.others.entries.all (fun e => e.2.paddr != f)

section Functions

variable (env : Env)

/-! ## §2. The page table. -/

/-- `pt.map`. -/
def ptMap (s v paddr : Nat) (size : PageSize) (flags : MappingFlags) : CowM Unit := do
  let m := (← get).mem
  modifyMem (fun m => { m with maps := m.maps + 1 })
  if env.mapOk m.maps then
    match m.ptes.lookup (s, v) with
    | some _ => throw (.err .alreadyExists)
    | none => modifyMem (fun m => { m with ptes := m.ptes.insert (s, v) ⟨paddr, flags, size⟩ })
  else
    throw (.err .noMemory)

/-- `pt.protect`. -/
def ptProtect (s v : Nat) (flags : MappingFlags) : CowM Unit := do
  match (← get).mem.ptes.lookup (s, v) with
  | some pte => modifyMem (fun m => { m with
      ptes := m.ptes.insert (s, v) { pte with flags := flags } })
  | none => throw (.err .notFound)

/-- `pt.remap`. -/
def ptRemap (s v paddr : Nat) (flags : MappingFlags) : CowM Unit := do
  match (← get).mem.ptes.lookup (s, v) with
  | some pte => modifyMem (fun m => { m with
      ptes := m.ptes.insert (s, v) ⟨paddr, flags, pte.size⟩ })
  | none => throw (.err .notFound)

/-! ## §3. `FRAME_TABLE`. -/

/-- `alloc_frame`.  An allocator does not hand out a frame in use. -/
def allocFrame : CowM Nat := do
  let m := (← get).mem
  modifyMem (fun m => { m with allocs := m.allocs + 1 })
  match env.alloc m.allocs with
  | none => throw (.err .noMemory)
  | some f => if m.unused f then return f else throw .halt

/-- The count of a frame. -/
def setCount (f n : Nat) : CowM Unit :=
  modifyMem (fun m => { m with frames := m.frames.insert f n })

/-- `FrameRefCnt::drop_frame` on a frame with count `c`. -/
def dropFrame (f c : Nat) : CowM Unit :=
  if c = 0 then
    throw .halt
  else if c - 1 = 0 then
    modifyMem (fun m => { m with frames := m.frames.erase f })
  else
    setCount f (c - 1)

/-- `CowBackend::alloc_new_frame`: `init_frame` sets the count to 1. -/
def allocNewFrame : CowM Nat := do
  let f ← allocFrame env
  setCount f 1
  return f

/-! ## §4. Faults. -/

/-- `file.read_at(..)?`. -/
def readFile : CowM Unit := do
  let m := (← get).mem
  modifyMem (fun m => { m with reads := m.reads + 1 })
  if env.readOk m.reads then return () else throw (.err .io)

/-- `CowBackend::alloc_new_at`.  The frame is counted before the file is read
and before the page is mapped. -/
def allocNewAt (b : CowBackend) (s v : Nat) (flags : MappingFlags) : CowM Unit := do
  let f ← allocNewFrame env
  match b.file with
  | some _ =>
    -- the gap before an unaligned start is less than a page
    if b.start - v < b.size.bytes then do
      readFile env
      ptMap env s v f b.size flags
    else
      throw .halt
  | none => ptMap env s v f b.size flags

/-- `CowBackend::handle_cow_fault` on a page that maps `paddr`. -/
def handleCowFault (s v paddr : Nat) (flags : MappingFlags) : CowM Unit := do
  match (← get).mem.frames.lookup paddr with
  | none => throw (.err .badAddress)
  | some 0 => throw .halt
  | some 1 => ptProtect s v flags
  | some c => do
    let f ← allocNewFrame env
    ptRemap s v f flags
    dropFrame paddr c

/-- One page of `CowBackend::populate`. -/
def populatePage (b : CowBackend) (s v : Nat) (flags access : MappingFlags) : CowM Nat := do
  match (← get).mem.ptes.lookup (s, v) with
  | some pte =>
    if pte.size ≠ b.size then
      throw .halt
    else if access.write && !pte.flags.write then do
      handleCowFault env s v pte.paddr flags
      return 1
    else
      return (if pte.flags.contains access then 1 else 0)
  | none => do
    allocNewAt env b s v flags
    return 1

/-- The loop of `populate`. -/
def populatePages (b : CowBackend) (s : Nat) (flags access : MappingFlags) :
    List Nat → Nat → CowM Nat
  | [], pages => return pages
  | v :: rest, pages => do
    let n ← populatePage env b s v flags access
    populatePages b s flags access rest (pages + n)

/-! ## §5. Unmapping and forking. -/

/-- One page of `CowBackend::unmap`. -/
def unmapPage (b : CowBackend) (s v : Nat) : CowM Unit := do
  match (← get).mem.ptes.lookup (s, v) with
  | none => return ()
  | some pte => do
    modifyMem (fun m => { m with ptes := m.ptes.erase (s, v) })
    if pte.size ≠ b.size then
      throw .halt
    else
      match (← get).mem.frames.lookup pte.paddr with
      | none => throw (.err .badAddress)
      | some c => dropFrame pte.paddr c

/-- The loop of `unmap`. -/
def unmapPages (b : CowBackend) (s : Nat) : List Nat → CowM Unit
  | [] => return ()
  | v :: rest => do
    unmapPage b s v
    unmapPages b s rest

/-- One page of `CowBackend::clone_map`.  The count is a `u8`; it is raised
before the limit is checked and before either page table changes. -/
def cloneMapPage (b : CowBackend) (s t v : Nat) (cowFlags : MappingFlags) : CowM Unit := do
  match (← get).mem.ptes.lookup (s, v) with
  | none => return ()
  | some pte =>
    if pte.size ≠ b.size then
      throw .halt
    else do
      match (← get).mem.frames.lookup pte.paddr with
      | none => throw (.err .badAddress)
      | some 0 => throw .halt
      | some c => do
        setCount pte.paddr ((c + 1) % 256)
        if (c + 1) % 256 = 255 then
          throw (.err .badAddress)
        else do
          ptProtect s v cowFlags
          ptMap env t v pte.paddr b.size cowFlags

/-- The loop of `clone_map`. -/
def cloneMapPages (b : CowBackend) (s t : Nat) (cowFlags : MappingFlags) : List Nat → CowM Unit
  | [] => return ()
  | v :: rest => do
    cloneMapPage env b s t v cowFlags
    cloneMapPages b s t cowFlags rest

/-! ## §6. The trait. -/

/-- The next answer of another backend. -/
def otherCall : CowM Unit := do
  let m := (← get).mem
  modifyMem (fun m => { m with otherCalls := m.otherCalls + 1 })
  if env.otherOk m.otherCalls then return () else throw (.err .badState)

/-- `BackendOps` of copy-on-write areas, next to areas of other backends. -/
def ops : BackendOps CowMem Backend where
  pageSize b := match b with
    | .cow b => b.size
    | .other size => size
  map b _ _ _ _ := match b with
    | .cow _ => return ()
    | .other _ => otherCall env
  unmap b s lo hi := match b with
    | .cow b => do unmapPages b s (← pagesOf lo hi b.size)
    | .other _ => otherCall env
  onProtect b _ := match b with
    | .cow _ => return ()
    | .other _ => otherCall env
  protectRegion s lo hi newFlags := modifyMem (fun m => { m with
    ptes := m.ptes.mapVals (protectPte s lo hi newFlags)
    others := m.others.mapVals (protectPte s lo hi newFlags) })
  populate b s lo hi flags access := match b with
    | .cow b => do
      let vs ← pagesOf lo hi b.size
      let n ← populatePages env b s flags access vs 0
      return (n, none)
    | .other _ => do
      otherCall env
      return (0, none)
  cloneMap b s t lo hi flags := match b with
    | .cow b => do
      let vs ← pagesOf lo hi b.size
      cloneMapPages env b s t flags.withoutWrite vs
      return .cow b
    | .other size => return .other size
  dropPageTable s := modifyMem (fun m => { m with
    ptes := m.ptes.filterKeys (fun key => key.1 != s)
    others := m.others.filterKeys (fun key => key.1 != s) })

/-! ## §7. The system. -/

/-- A system call, or a page of another backend that comes or goes. -/
inductive CowOp where
  | mm (op : MmOp Backend)
  | otherMap (s v : Nat) (pte : Pte)
  | otherUnmap (s v : Nat)

/-- Another backend maps pages of its own areas to frames of its own. -/
def otherMayMap (st : CowState) (s v : Nat) (pte : Pte) : Bool :=
  (st.mem.frames.lookup pte.paddr).isNone &&
    match st.spaces[s]?.bind (fun sp => sp.areas.find v) with
    | some a => match a.backend with
        | .other _ => true
        | .cow _ => false
    | none => false

/-- The step function of the system. -/
def cowStep (st : CowState) : CowOp → Option CowState
  | .mm op => runStep (execOp (ops env) op) st
  | .otherMap s v pte =>
    if otherMayMap st s v pte then
      some (st.withMem (fun m => { m with others := m.others.insert (s, v) pte }))
    else none
  | .otherUnmap s v => some (st.withMem (fun m => { m with others := m.others.erase (s, v) }))

end Functions

/-- No address space yet, no frame in use. -/
def boot : CowState where
  spaces := []
  mem := ⟨.empty, .empty, .empty, 0, 0, 0, 0⟩

end StarryOS.Mm.Cow
