/-
  StarryOS.Fs.CachedFile — THE PAGE CACHE OF ONE FILE
  (`modules/axfs-ng/src/highlevel/file.rs`).

  A `CachedFile` keeps up to 64 pages of a file in an LRU cache in front of the
  backing file node.  LENGTH lives in the node, DATA lives in the pages: a
  write first grows the node, then stores into cached pages; a page reaches the
  node again when it is evicted, and then only up to the node's current length.

  What the code does not decide is read from an `Env`: the answers of the
  backing node, one per call, and the answers of the page allocator, whose pages
  come with ARBITRARY contents.

  Evict listeners touch page tables and never the file, so `evictCache` records
  the page number it hands to them in `evictions`; the memory-mapping layer
  replays that log.
-/
import StarryOS.Errno
import StarryOS.Lib.ByteString
import StarryOS.Lib.LruCache
import StarryOS.Lib.Program

namespace StarryOS.Fs

open Lib

/-! ## §1. Pages, the backing node, the environment. -/

/-- `PAGE_SIZE`. -/
def pageSize : Nat := 4096

/-- `x as u32`. -/
def u32 (x : Nat) : Nat := x % 2 ^ 32

/-- The value of a `u64` expression. -/
def u64 (x : Nat) : Nat := x % 2 ^ 64

/-- `PageCache`: a physical page, its dirty bit and its bytes (indices below
`pageSize`). -/
structure PageCache where
  addr : Nat
  dirty : Bool
  data : Nat → UInt8

/-- How one call of the backing node ends.  `short n` transfers at most `n`
bytes and reports success. -/
inductive IoOutcome where
  | ok
  | err
  | short (n : Nat)

/-- What the code does not decide itself. -/
structure Env where
  /-- The file lives on tmpfs: pages are the only copy of the data. -/
  inMemory : Bool
  /-- The answer of the `k`-th page allocation: an address and the stale
  contents of the page, or no memory. -/
  alloc : Nat → Option (Nat × (Nat → UInt8))
  /-- The answer of the `k`-th call of the backing node. -/
  io : Nat → IoOutcome

/-- One file: the bytes of its node and its `CachedFileShared`. -/
structure FileState where
  node : Bytes
  pageCache : LruCache Nat PageCache
  evictions : List Nat
  dirtyDrops : List Nat
  allocs : Nat
  ios : Nat

abbrev FsM := EStateM AxError FileState

section Operations

variable (env : Env)

/-- The next answer of the backing node. -/
def nodeCall : FsM IoOutcome :=
  modifyGet (fun st => (env.io st.ios, { st with ios := st.ios + 1 }))

/-- `FileNode::len`. -/
def nodeLen : FsM Nat := do
  match ← nodeCall env with
  | .err => throw .io
  | _ => return (← get).node.length

/-- `FileNode::set_len`: cuts, or extends with zeros. -/
def nodeSetLen (len : Nat) : FsM Unit := do
  match ← nodeCall env with
  | .err => throw .io
  | _ => modify (fun st => { st with node := resize 0 len st.node })

/-- `FileNode::read_at` of `n` bytes; stops at the end of the file. -/
def nodeReadAt (n off : Nat) : FsM Bytes := do
  match ← nodeCall env with
  | .err => throw .io
  | .ok => return slice (← get).node off n
  | .short k => return slice (← get).node off (min n k)

/-- `FileNode::write_at`. -/
def nodeWriteAt (buf : Bytes) (off : Nat) : FsM Nat := do
  match ← nodeCall env with
  | .err => throw .io
  | .ok => do
    modify (fun st => { st with node := overwrite 0 st.node off buf })
    return buf.length
  | .short k => do
    modify (fun st => { st with node := overwrite 0 st.node off (buf.take k) })
    return (buf.take k).length

/-- `FileNode::sync`. -/
def nodeSync : FsM Unit := do
  match ← nodeCall env with
  | .err => throw .io
  | _ => return ()

/-- `PageCache::new`: a fresh page, not cleared. -/
def PageCache.new : FsM PageCache := do
  let st ← get
  set { st with allocs := st.allocs + 1 }
  match env.alloc st.allocs with
  | none => throw .noMemory
  | some (addr, stale) => return { addr := addr, dirty := false, data := stale }

/-- `PageCache::drop` of page `pn`: a dirty page is lost with a warning. -/
def FileState.dropPage (st : FileState) (pn : Nat) (page : PageCache) : FileState :=
  if page.dirty then { st with dirtyDrops := st.dirtyDrops ++ [pn] } else st

/-! ## §2. Eviction and lookup. -/

/-- `CachedFile::evict_cache`: tell the listeners, then write a dirty page back
up to the current length of the node. -/
def evictCache (pn : Nat) (page : PageCache) : FsM PageCache := do
  modify (fun st => { st with evictions := st.evictions ++ [pn] })
  if page.dirty then do
    let pageStart := pn * pageSize
    let fileLen ← nodeLen env
    let len := min (fileLen - pageStart) pageSize
    if 0 < len then do
      let _ ← nodeWriteAt env (blockOf page.data 0 len) pageStart
      return { page with dirty := false }
    else
      return { page with dirty := false }
  else
    return page

/-- `evict_cache(..)?` on a page that the caller owns: on an error the page is
dropped as it is. -/
def evictPopped (pn : Nat) (page : PageCache) : FsM PageCache := fun st =>
  match evictCache env pn page st with
  | .ok page' st' => .ok page' st'
  | .error e st' => .error e (st'.dropPage pn page)

/-- The first half of `page_or_insert`: a full cache gives up its least
recently used page. -/
def evictIfFull : FsM (Option (Nat × PageCache)) := do
  let st ← get
  if st.pageCache.len = st.pageCache.cap then
    match st.pageCache.popLru with
    | some ((pn, page), rest) => do
      set { st with pageCache := rest }
      let page ← evictPopped env pn page
      return some (pn, page)
    | none => return none
  else
    return none

/-- The contents of a page that is not in the cache: zeros for an in-memory
file, otherwise what `read_at` stores over the stale bytes. -/
def fillPage (pn : Nat) (page : PageCache) : FsM PageCache := do
  if env.inMemory then
    return { page with data := fun _ => 0 }
  else do
    let bytes ← nodeReadAt env pageSize (pn * pageSize)
    return { page with data := storeBlock 0 page.data 0 bytes }

/-- `CachedFile::page_or_insert`: the page `pn`, now most recently used, and
the page evicted for it. -/
def pageOrInsert (pn : Nat) : FsM (PageCache × Option (Nat × PageCache)) := do
  let st ← get
  match st.pageCache.peek pn with
  | some page => do
    set { st with pageCache := st.pageCache.getMut pn id }
    return (page, none)
  | none => do
    let evicted ← evictIfFull env
    let page ← PageCache.new env
    let page ← fillPage env pn page
    modify (fun st => { st with pageCache := st.pageCache.put pn page })
    return (page, evicted)

/-- The page `pn` that `page_or_insert` handed out, written back into its slot. -/
def storePage (pn : Nat) (page : PageCache) : FsM Unit :=
  modify (fun st => { st with pageCache := st.pageCache.getMut pn (fun _ => page) })

/-! ## §3. `with_pages`, `read_at`, `write_at`, `append`. -/

/-- The loop of `with_pages` over the page numbers that are left. -/
def withPagesLoop {T : Type} (stop : Nat)
    (pageEach : T → PageCache → Nat → Nat → T × PageCache) : List Nat → Nat → T → FsM T
  | [], _, acc => return acc
  | pn :: rest, pageOffset, acc => do
    let (page, _) ← pageOrInsert env pn
    let r := pageEach acc page pageOffset (min (stop - pn * pageSize) pageSize)
    storePage pn r.2
    withPagesLoop stop pageEach rest 0 r.1

/-- `CachedFile::with_pages` over the byte range `start..stop`. -/
def withPages {T : Type} (start stop : Nat) (pageInitial : FsM T)
    (pageEach : T → PageCache → Nat → Nat → T × PageCache) : FsM T := do
  let initial ← pageInitial
  let startPage := u32 (start / pageSize)
  let endPage := u32 ((stop + (pageSize - 1)) / pageSize)
  withPagesLoop env stop pageEach (List.range' startPage (endPage - startPage))
    (start % pageSize) initial

/-- The closure of `read_at`: append the bytes of the page to the destination. -/
def readEach (read : Bytes) (page : PageCache) (a b : Nat) : Bytes × PageCache :=
  (read ++ blockOf page.data a b, page)

/-- `CachedFile::read_at` into a destination with room for `n` bytes. -/
def readAt (n off : Nat) : FsM Bytes := do
  let len ← nodeLen env
  let stop := min (u64 (off + n)) len
  if stop ≤ off then
    return []
  else
    withPages env off stop (return []) readEach

/-- The closure of `write_at_locked`: take the next bytes of the source, store
them into the page and mark it dirty unless the file is in memory. -/
def writeEach (acc : Nat × Bytes) (page : PageCache) (a b : Nat) :
    (Nat × Bytes) × PageCache :=
  ((acc.1 + (b - a), acc.2.drop (b - a)),
    { page with
      data := storeBlock 0 page.data a (acc.2.take (b - a))
      dirty := page.dirty || !env.inMemory })

/-- The node is grown before the first page is touched. -/
def growNode (stop : Nat) (buf : Bytes) : FsM (Nat × Bytes) := do
  let len ← nodeLen env
  if len < stop then do
    nodeSetLen env stop
    return (0, buf)
  else
    return (0, buf)

/-- `CachedFile::write_at_locked`; `write_at` is this under the append lock. -/
def writeAtLocked (buf : Bytes) (off : Nat) : FsM Nat := do
  let stop := u64 (off + buf.length)
  let r ← withPages env off stop (growNode env stop buf) (writeEach env)
  return r.1

/-- `CachedFile::append`: the bytes written and the new end. -/
def append (buf : Bytes) : FsM (Nat × Nat) := do
  let len ← nodeLen env
  let written ← writeAtLocked env buf len
  return (written, len + written)

/-! ## §4. `set_len` and `sync`. -/

/-- The truncation loop of `set_len`: the pages are discarded, not written
back; listeners are told unless the file is in memory. -/
def discardPages : List Nat → FsM Unit
  | [] => return ()
  | pn :: rest => do
    let st ← get
    match st.pageCache.pop pn with
    | some (page, cache) => do
      set { st with pageCache := cache }
      if env.inMemory then do
        modify (fun st => st.dropPage pn page)
        discardPages rest
      else do
        let _ ← evictPopped env pn { page with dirty := false }
        discardPages rest
    | none => discardPages rest

/-- The growth path of `set_len`: zero the tail of the old last page if it is
cached. -/
def zeroTail (oldLen len : Nat) : FsM Unit :=
  let oldLastPage := u32 (oldLen / pageSize)
  let pageStart := oldLastPage * pageSize
  let a := oldLen - pageStart
  let b := min (len - pageStart) pageSize
  modify (fun st => { st with
    pageCache := st.pageCache.getMut oldLastPage (fun page =>
      { page with data := storeBlock 0 page.data a (List.replicate (b - a) 0) }) })

/-- `CachedFile::set_len`. -/
def setLen (len : Nat) : FsM Unit := do
  let oldLen ← nodeLen env
  nodeSetLen env len
  if oldLen < len then
    zeroTail oldLen len
  else if u32 (len / pageSize) < u32 (oldLen / pageSize) then do
    let st ← get
    discardPages env (st.pageCache.keys.filter (fun pn => u32 (len / pageSize) < pn))
  else
    return ()

/-- The loop of `sync`: pop and evict until the cache is empty.  Each round
removes one page, so the number of pages bounds the rounds. -/
def syncLoop : Nat → FsM Unit
  | 0 => return ()
  | rounds + 1 => do
    let st ← get
    match st.pageCache.popLru with
    | some ((pn, page), rest) => do
      set { st with pageCache := rest }
      let _ ← evictPopped env pn page
      syncLoop rounds
    | none => return ()

/-- `CachedFile::sync`.  The node's own `sync` takes `data_only`; it does not
change the bytes. -/
def sync (_dataOnly : Bool) : FsM Unit := do
  if env.inMemory then
    return ()
  else do
    let st ← get
    syncLoop env st.pageCache.len
    nodeSync env

/-! ## §5. Runs of operations. -/

/-- One call on a cached file. -/
inductive FileOp where
  | readAt (n off : Nat)
  | writeAt (buf : Bytes) (off : Nat)
  | append (buf : Bytes)
  | setLen (len : Nat)
  | sync (dataOnly : Bool)

/-- What a call returns. -/
inductive OpResult where
  | read (bytes : Bytes)
  | wrote (n : Nat)
  | appended (n stop : Nat)
  | done
  deriving Repr, DecidableEq

/-- One call, with its result. -/
def exec : FileOp → FsM OpResult
  | .readAt n off => do return .read (← readAt env n off)
  | .writeAt buf off => do return .wrote (← writeAtLocked env buf off)
  | .append buf => do
    let r ← append env buf
    return .appended r.1 r.2
  | .setLen len => do
    setLen env len
    return .done
  | .sync dataOnly => do
    sync env dataOnly
    return .done

/-- The state a call leaves behind. -/
def execState (st : FileState) (op : FileOp) : FileState := stateAfter (exec env op) st

/-- The result of a call. -/
def execResult (st : FileState) (op : FileOp) : AxResult OpResult :=
  match exec env op st with
  | .ok r _ => .ok r
  | .error e _ => .error e

/-- The results of a sequence of calls. -/
def runOps : FileState → List FileOp → List (AxResult OpResult)
  | _, [] => []
  | st, op :: ops => execResult env st op :: runOps (execState env st op) ops

end Operations

/-- A node with bytes `node`, opened with an empty cache of `cap` pages. -/
def opened (cap : Nat) (hcap : 0 < cap) (node : Bytes) : FileState where
  node := node
  pageCache := .empty cap hcap
  evictions := []
  dirtyDrops := []
  allocs := 0
  ios := 0

end StarryOS.Fs
