/-
  StarryOS.Mm.FileBackend — SHARED FILE MAPPINGS
  (`kernel/src/mm/aspace/backend/file.rs`).

  A shared mapping of a file maps the pages of the file's CACHE.  A fault looks
  the page up, which may evict another one; whoever maps the evicted page has
  to unmap it before its frame is freed.  There are two ways to learn of an
  eviction:

    • every mapping registers a LISTENER with the file.  It locks the address
      space with `try_lock` and gives up when somebody holds the lock;
    • a fault holds the lock of its own space.  It collects what it evicted and
      unmaps it afterwards in a CALLBACK, for the faulting mapping only.

  A cached file logs its evictions (`FileState.evictions`); `onFile` runs one of
  its programs with an empty log and then tells the listeners what the log says.

  Threads are not modelled one by one: `locked` is the set of address spaces
  whose lock somebody holds across a call, changed by steps of its own.
-/
import StarryOS.Fs.CachedFile
import StarryOS.Mm.AddrSpace

namespace StarryOS.Mm.FileMap

open Lib Fs

/-! ## §1. State and environment. -/

/-- `FileFlags`, as far as `check_flags` looks. -/
structure FileFlags where
  read : Bool
  write : Bool
  deriving Repr, DecidableEq

/-- `FileBackendInner`; `aspace` is the space that its listener watches.  The
`Arc<()>` of `futexHandle` is named by a number. -/
structure FileBackendInner where
  start : Nat
  file : Nat
  flags : FileFlags
  offsetPage : Nat
  futexHandle : Nat
  aspace : Nat
  deriving Repr, DecidableEq

/-- `Backend`.  A file mapping is named by its place in the list of
`FileBackendInner`s: `Arc::ptr_eq` compares places. -/
inductive Backend where
  | file (i : Nat)
  | shared (start pages : Nat) (size : PageSize)
  | other (size : PageSize)
  deriving Repr, DecidableEq

/-- Answers from outside: for each file its node and page allocator, the page
tables' own allocations, and whether a call on another backend succeeds. -/
structure Env where
  file : Nat → Fs.Env
  mapOk : Nat → Bool
  otherOk : Nat → Bool

/-- Page-table entries of file mappings, the files, every `FileBackendInner`
ever made, the locks held, and how many answers were used. -/
structure FileMem where
  ptes : PageTables
  files : List FileState
  inners : List FileBackendInner
  locked : List Nat
  maps : Nat
  otherCalls : Nat

/-- A new shared part. -/
def FileMem.push (m : FileMem) (inner : FileBackendInner) : FileMem :=
  { m with inners := m.inners ++ [inner] }

abbrev FileSt := MmState FileMem Backend

abbrev FileM := MmM FileMem Backend

/-! ## §2. Evict listeners. -/

/-- `FileBackendInner::on_evict` for page `pn`, in space `s`. -/
def onEvict (i s : Nat) (st : FileSt) (pn : Nat) : FileSt :=
  match st.mem.inners[i]? with
  | none => st
  | some inner =>
    -- `checked_sub`: the page lies before the mapping
    if pn < inner.offsetPage then st
    else
      let vaddr := inner.start + (pn - inner.offsetPage) * 4096
      match st.spaces[s]?.bind (fun sp => sp.areas.find vaddr) with
      | none => st
      | some a =>
        if a.backend = .file i then
          st.withMem (fun m => { m with ptes := m.ptes.erase (s, vaddr) })
        else st

/-- One listener of file `f`: it gives up if its space is locked. -/
def callListener (f : Nat) (held : List Nat) (pn : Nat) (st : FileSt) (i : Nat) : FileSt :=
  match st.mem.inners[i]? with
  | none => st
  | some inner =>
    if inner.file = f ∧ inner.aspace ∉ held ∧ inner.aspace ∉ st.mem.locked then
      onEvict i inner.aspace st pn
    else st

/-- All listeners of file `f` hear that page `pn` is evicted. -/
def tellListeners (f : Nat) (held : List Nat) (st : FileSt) (pn : Nat) : FileSt :=
  (List.range st.mem.inners.length).foldl (callListener f held pn) st

/-- The state after a program of file `f` that left `fs` behind: the listeners
hear what its log says.  `held` are the spaces that the caller has locked. -/
def afterFile (f : Nat) (held : List Nat) (st : FileSt) (fs : FileState) : FileSt :=
  fs.evictions.foldl (tellListeners f held)
    (st.withMem (fun m => { m with files := m.files.set f fs }))

/-- Runs a program of file `f`. -/
def onFile {α : Type} (f : Nat) (held : List Nat) (m : FsM α) : FileM α := fun st =>
  match st.mem.files[f]? with
  | none => .error .halt st
  | some fs =>
    match m { fs with evictions := [] } with
    | .ok a fs' => .ok a (afterFile f held st fs')
    | .error e fs' => .error (.err e) (afterFile f held st fs')

section Functions

variable (env : Env)

/-! ## §3. Mapping and protection. -/

def getInner (i : Nat) : FileM FileBackendInner := do
  match (← get).mem.inners[i]? with
  | some inner => return inner
  | none => throw .halt

/-- `FileBackend::check_flags`. -/
def checkFlags (inner : FileBackendInner) (flags : MappingFlags) : FileM Unit :=
  if (flags.read → inner.flags.read) ∧ (flags.write → inner.flags.write) then
    return ()
  else
    throw (.err .permissionDenied)

/-- The next answer of another backend. -/
def otherCall : FileM Unit := do
  let m := (← get).mem
  modifyMem (fun m => { m with otherCalls := m.otherCalls + 1 })
  if env.otherOk m.otherCalls then return () else throw (.err .badState)

/-- `pt.map`. -/
def ptMap (s v paddr : Nat) (flags : MappingFlags) : FileM Unit := do
  let m := (← get).mem
  modifyMem (fun m => { m with maps := m.maps + 1 })
  if env.mapOk m.maps then
    match m.ptes.lookup (s, v) with
    | some _ => throw (.err .alreadyExists)
    | none => modifyMem (fun m => { m with ptes := m.ptes.insert (s, v) ⟨paddr, flags, .size4K⟩ })
  else
    throw (.err .noMemory)

/-- `pt.unmap` of one page; a page that is not mapped is no error. -/
def ptUnmap (s v : Nat) : FileM Unit :=
  modifyMem (fun m => { m with ptes := m.ptes.erase (s, v) })

/-- The loop of `FileBackend::unmap`. -/
def unmapPages (s : Nat) : List Nat → FileM Unit
  | [] => return ()
  | v :: rest => do
    ptUnmap s v
    unmapPages s rest

/-! ## §4. Population. -/

/-- The number of the page at `addr`: `start_page + i` of the loop, in `u32`. -/
def pageNo (inner : FileBackendInner) (addr : Nat) : Nat :=
  u32 (u32 ((addr - inner.start) / 4096) + inner.offsetPage)

/-- `with_page(pn, ..)` of a write fault: a page of a disk-backed file has to be
cached and becomes dirty. -/
def markWritten (f pn : Nat) : FileM Unit := do
  match (← get).mem.files[f]? with
  | none => throw .halt
  | some fs =>
    if (env.file f).inMemory then
      modifyMem (fun m => { m with files := m.files.set f { fs with
        pageCache := fs.pageCache.getMut pn id } })
    else
      match fs.pageCache.peek pn with
      | none => throw .halt
      | some _ => modifyMem (fun m => { m with files := m.files.set f { fs with
          pageCache := fs.pageCache.getMut pn (fun page => { page with dirty := true }) } })

/-- One page of `FileBackend::populate`: how many pages it satisfied, and the
page it evicted. -/
def populatePage (inner : FileBackendInner) (s addr : Nat) (flags access : MappingFlags) :
    FileM (Nat × List Nat) := do
  match (← get).mem.ptes.lookup (s, addr) with
  | some pte =>
    if access.write && !pte.flags.write then do
      markWritten env inner.file (pageNo inner addr)
      modifyMem (fun m => { m with
        ptes := m.ptes.insert (s, addr) { pte with flags := flags } })
      return (1, [])
    else
      return (if pte.flags.contains access then 1 else 0, [])
  | none => do
    -- pages of a disk-backed file are mapped read-only first
    let mapFlags := if (env.file inner.file).inMemory then flags else flags.withoutWrite
    let r ← onFile inner.file [s]
      (pageOrInsert (env.file inner.file) (pageNo inner addr))
    ptMap env s addr r.1.addr mapFlags
    return (1, r.2.toList.map Prod.fst)

/-- The loop of `FileBackend::populate`. -/
def populatePages (inner : FileBackendInner) (s : Nat) (flags access : MappingFlags) :
    List Nat → Nat → List Nat → FileM (Nat × List Nat)
  | [], pages, toBeEvicted => return (pages, toBeEvicted)
  | addr :: rest, pages, toBeEvicted => do
    let r ← populatePage env inner s addr flags access
    populatePages inner s flags access rest (pages + r.1) (toBeEvicted ++ r.2)

/-- The callback of `populate`, run on the faulting space itself. -/
def evictCallback (i s : Nat) (toBeEvicted : List Nat) : FileM Unit :=
  modify (fun st => toBeEvicted.foldl (onEvict i s) st)

/-! ## §5. The trait. -/

/-- `FileBackend::clone_map` to space `t`. -/
def cloneFile (i t : Nat) : FileM Backend := do
  let inner ← getInner i
  let k := (← get).mem.inners.length
  modifyMem (·.push { inner with aspace := t })
  return .file k

/-- `BackendOps` of file mappings, next to areas of other backends. -/
def ops : BackendOps FileMem Backend where
  pageSize b := match b with
    | .file _ => .size4K
    | .shared _ _ size => size
    | .other size => size
  map b _ _ _ flags := match b with
    | .file i => do checkFlags (← getInner i) flags
    | _ => otherCall env
  unmap b s lo hi := match b with
    | .file _ => do unmapPages s (← pagesOf lo hi .size4K)
    | _ => otherCall env
  onProtect b newFlags := match b with
    | .file i => do checkFlags (← getInner i) newFlags
    | _ => return ()
  protectRegion s lo hi newFlags := modifyMem (fun m => { m with
    ptes := m.ptes.mapVals (protectPte s lo hi newFlags) })
  populate b s lo hi flags access := match b with
    | .file i => do
      let inner ← getInner i
      let r ← populatePages env inner s flags access (← pagesOf lo hi .size4K) 0 []
      return (r.1, if r.2 = [] then none else some (evictCallback i s r.2))
    | _ => do
      otherCall env
      return (0, none)
  cloneMap b _ t _ _ _ := match b with
    | .file i => cloneFile i t
    | .shared start pages size => return .shared start pages size
    | .other size => do
      otherCall env
      return .other size
  dropPageTable s := modifyMem (fun m => { m with
    ptes := m.ptes.filterKeys (fun key => key.1 != s) })

/-- `Backend::new_file` in space `s`. -/
def newFile (s start file : Nat) (flags : FileFlags) (offset : Nat) : FileM Backend := do
  let m := (← get).mem
  match m.files[file]? with
  | none => throw .halt
  | some _ => do
    let i := m.inners.length
    modifyMem (·.push {
      start := start
      file := file
      flags := flags
      offsetPage := u32 (offset / 4096)
      futexHandle := i
      aspace := s })
    return .file i

/-- `mmap` of a file with `MAP_SHARED`. -/
def mmapFile (s start size : Nat) (flags : MappingFlags) (populate : Bool) (file : Nat)
    (fileFlags : FileFlags) (offset : Nat) : FileM Unit := do
  let backend ← newFile s start file fileFlags offset
  map (ops env) s start size flags populate backend

/-! ## §6. The system. -/

/-- A system call on an address space, a shared file mapping, a call on a file,
or a thread that takes or releases the lock of a space. -/
inductive FileMapOp where
  | mm (op : MmOp Backend)
  | mmapFile (s start size : Nat) (flags : MappingFlags) (populate : Bool) (file : Nat)
      (fileFlags : FileFlags) (offset : Nat)
  /-- `CachedFile::get_or_create` on a node with these bytes. -/
  | openFile (node : Bytes)
  | call (f : Nat) (op : FileOp)
  | lock (s : Nat)
  | unlock (s : Nat)

/-- The space whose lock a system call takes. -/
def spaceOf : MmOp Backend → Option Nat
  | .newSpace _ _ => none
  | .map s _ _ _ _ _ => some s
  | .populateArea s _ _ _ => some s
  | .fault s _ _ => some s
  | .protect s _ _ _ => some s
  | .unmap s _ _ => some s
  | .fork s => some s
  | .exit s => some s

/-- The lock is free, a file backend is only made by `new_file`, and shared
pages are mapped where their backend starts (`new_shared(start, ..)`). -/
def mayRun (st : FileSt) (op : MmOp Backend) : Bool :=
  (spaceOf op).all (fun s => decide (s ∉ st.mem.locked)) && match op with
    | .map _ _ _ _ _ (.file _) => false
    | .map _ start _ _ _ (.shared first _ _) => first == start
    | _ => true

/-- The capacity of a file's page cache. -/
def cacheCap (inMemory : Bool) : Nat := if inMemory then 2 ^ 64 - 1 else 64

theorem cacheCap_pos (inMemory : Bool) : 0 < cacheCap inMemory := by
  cases inMemory <;> decide

/-- The step function of the system. -/
def fileStep (st : FileSt) : FileMapOp → Option FileSt
  | .mm op => if mayRun st op then runStep (execOp (ops env) op) st else none
  | .mmapFile s start size flags populate file fileFlags offset =>
    if s ∈ st.mem.locked then none
    else runStep (mmapFile env s start size flags populate file fileFlags offset) st
  | .openFile node =>
    let inMemory := (env.file st.mem.files.length).inMemory
    some (st.withMem (fun m => { m with
      files := m.files ++ [opened (cacheCap inMemory) (cacheCap_pos inMemory) node] }))
  | .call f op => runStep (do
      let _ ← onFile f [] (exec (env.file f) op)
      return ()) st
  | .lock s =>
    if s ∈ st.mem.locked then none
    else some (st.withMem (fun m => { m with locked := s :: m.locked }))
  | .unlock s => some (st.withMem (fun m => { m with locked := m.locked.filter (· ≠ s) }))

end Functions

/-- No address space and no file yet. -/
def boot : FileSt where
  spaces := []
  mem := ⟨.empty, [], [], [], 0, 0⟩

/-- Files whose I/O never fails, on disk or in memory. -/
def reliable (inMemory : Bool) : Env where
  file _ := { inMemory := inMemory, alloc := fun k => some (k, fun _ => 0), io := fun _ => .ok }
  mapOk _ := true
  otherOk _ := true

end StarryOS.Mm.FileMap
