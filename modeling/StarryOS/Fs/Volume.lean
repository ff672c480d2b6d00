/-
  StarryOS.Fs.Volume — INODES, DIRECTORY ENTRIES AND THEIR PAGE CACHES.

  A volume has one table of inodes; length and, on disk, data live there and
  are addressed BY NUMBER.  The page cache of an open file does not live with
  the inode: `CachedFile::get_or_create` keeps it in the `user_data` of the
  directory-entry object through which the file was opened.  Two names are two
  such objects.

  On disk the entry holds a weak reference, so the cache dies with its last
  handle, after the flush of `Drop`; on tmpfs it holds a strong one.  A lookup
  returns the object of the name and changes nothing, so it is not a step.

  How two concurrent drops can miss the flush is the subject of `HandleDrop`;
  here a drop is one step.
-/
import StarryOS.Fs.ByteKept

namespace StarryOS.Fs

open Lib

/-! ## §1. The state. -/

/-- A directory-entry object. -/
structure Entry where
  /-- The inode number its node addresses. -/
  ino : Nat
  /-- The name is still in its directory. -/
  linked : Bool
  /-- Which `create` the object goes back to.  The code does not have this. -/
  file : Nat
  /-- The live `CachedFileShared` of its `user_data`. -/
  shared : Option (LruCache Nat PageCache)
  /-- The number of `CachedFile` handles. -/
  handles : Nat

/-- The inodes and the directory entries. -/
structure Volume where
  inodes : Nat → Bytes
  entries : List Entry
  allocs : Nat
  ios : Nat

/-- `CachedFileShared::new` and `CachedFileShared::new_unbounded`. -/
def newShared (inMemory : Bool) : LruCache Nat PageCache :=
  if inMemory then .empty (2 ^ 64 - 1) (by decide) else .empty 64 (by decide)

/-- The file that an entry with this inode number and cache works on. -/
def Volume.file (v : Volume) (ino : Nat) (cache : LruCache Nat PageCache) : FileState where
  node := v.inodes ino
  pageCache := cache
  evictions := []
  dirtyDrops := []
  allocs := v.allocs
  ios := v.ios

/-- The volume after a program of entry `k` has left the file in state `st`. -/
def Volume.store (v : Volume) (k : Nat) (e : Entry) (st : FileState) : Volume where
  inodes := Function.update v.inodes e.ino st.node
  entries := v.entries.set k e
  allocs := st.allocs
  ios := st.ios

/-! ## §2. The steps of one entry. -/

/-- `CachedFile::get_or_create`. -/
def getOrCreate (env : Env) (v : Volume) (k : Nat) : Option Volume := do
  let e ← v.entries[k]?
  return { v with entries := v.entries.set k { e with
    shared := some (e.shared.getD (newShared env.inMemory))
    handles := e.handles + 1 } }

/-- The file behind the handles of entry `k`, if there is one. -/
def openFile (v : Volume) (k : Nat) : Option (Entry × FileState) := do
  let e ← v.entries[k]?
  let cache ← e.shared
  if 0 < e.handles then return (e, v.file e.ino cache) else none

/-- A call through a handle of entry `k`. -/
def callEntry (env : Env) (v : Volume) (k : Nat) (op : FileOp) : Option Volume := do
  let (e, st) ← openFile v k
  let st' := execState env st op
  return v.store k { e with shared := some st'.pageCache } st'

/-- `Drop` of a handle of entry `k`: the last one flushes.  A weak reference
then dies with the cache, a strong one keeps it. -/
def dropHandle (env : Env) (v : Volume) (k : Nat) : Option Volume := do
  let (e, st) ← openFile v k
  if 1 < e.handles then
    return { v with entries := v.entries.set k { e with handles := e.handles - 1 } }
  else
    let st' := stateAfter (sync env false) st
    return v.store k { e with
      shared := if env.inMemory then some st'.pageCache else none
      handles := 0 } st'

/-! ## §3. What the steps do. -/

section Steps

variable {env : Env} {v v' : Volume} {k : Nat} {e : Entry} {st : FileState}

theorem openFile_cases (h : openFile v k = some (e, st)) : v.entries[k]? = some e ∧ 0 < e.handles
      ∧ ∃ cache, e.shared = some cache ∧ st = v.file e.ino cache := by
  simp only [openFile, Option.bind_eq_bind, Option.bind_eq_some_iff] at h
  grind

theorem getOrCreate_cases (h : getOrCreate env v k = some v') :
    ∃ e, v.entries[k]? = some e ∧ v' = { v with entries := v.entries.set k { e with
      shared := some (e.shared.getD (newShared env.inMemory))
      handles := e.handles + 1 } } := by
  grind [getOrCreate]

theorem callEntry_cases {op : FileOp} (h : callEntry env v k op = some v') :
    ∃ e st, openFile v k = some (e, st) ∧ v' = v.store k { e with
      shared := some (execState env st op).pageCache } (execState env st op) := by
  grind [callEntry, Option.bind_eq_some_iff]

/-- Either another handle is left, or the cache was flushed. -/
theorem dropHandle_cases (h : dropHandle env v k = some v') :
    ∃ e st, openFile v k = some (e, st)
      ∧ ((1 < e.handles
          ∧ v' = { v with entries := v.entries.set k { e with handles := e.handles - 1 } })
        ∨ (e.handles = 1 ∧ v' = v.store k { e with
            shared := if env.inMemory then some (stateAfter (sync env false) st).pageCache else none
            handles := 0 } (stateAfter (sync env false) st))) := by
  simp only [dropHandle, Option.bind_eq_bind, Option.bind_eq_some_iff] at h
  obtain ⟨⟨e, st⟩, ho, hif⟩ := h
  refine ⟨e, st, ho, ?_⟩
  have hpos := (openFile_cases ho).2.1
  grind

/-- **A step through an entry writes only the inode that it addresses.** -/
theorem store_inodes_ne {ino : Nat} (h : ino ≠ e.ino) :
    (v.store k e st).inodes ino = v.inodes ino :=
  Function.update_of_ne h _ _

end Steps

/-- An environment without faults, on disk or in memory, whose fresh pages hold
`0xEE`. -/
def faultless (inMemory : Bool) : Env where
  inMemory := inMemory
  alloc k := some (k, fun _ => 0xEE)
  io _ := .ok

end StarryOS.Fs
