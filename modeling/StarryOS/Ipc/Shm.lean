/-
  StarryOS.Ipc.Shm — SYSTEM V SHARED MEMORY (`kernel/src/syscall/ipc/shm.rs`).

  Two kinds of objects, each with a lock of its own: `SHM_MANAGER`, which finds
  segments by key, by identifier and by address, and one `ShmInner` for every
  segment.  The calls take them in this order (a semicolon lets go of what
  stands before it):

      shmget    manager
                manager, inner                    when the key is known
      shmat     manager; inner, space, manager
      shmdt     manager; manager; inner, space, manager
      shmctl    manager; inner                    IPC_RMID
                manager; inner, space             IPC_SET, IPC_STAT
      exit      manager, inner; inner; ...        one for every attached segment

  A step of a thread takes one lock and goes on to the next one it needs.  A
  failed assertion stops the kernel, and so does an overflow in a debug build.

  The address space belongs to the environment: it answers which area is free,
  whether a mapping succeeds and what the user's memory holds.  A free area
  overlaps no range that is attached in this space.  `next_ipc_id` is shared
  with `msgget`, which draws identifiers of its own.
-/
import StarryOS.Ipc.Basic
import StarryOS.Lib.BiMap
import StarryOS.Lib.LockOrder
import StarryOS.Lib.Threads
import StarryOS.Lib.Transition

namespace StarryOS.Ipc.Shm

open Lib Mm

/-! ## §1. A segment. -/

variable (o : ShmInner)

/-- `shmid_ds`. -/
structure ShmidDs where
  shmPerm : IpcPerm
  shmSegsz : Nat
  shmAtime : Nat
  shmDtime : Nat
  shmCtime : Nat
  shmCpid : Nat
  shmLpid : Nat
  shmNattch : BitVec 16
  deriving Repr, DecidableEq

/-- `ShmidDs::new`. -/
def ShmidDs.new (key : BitVec 32) (size mode pid : Nat) : ShmidDs :=
  ⟨⟨key, 0, 0, 0, 0, mode⟩, size, 0, 0, 0, pid, pid, 0⟩

/-- `MappingFlags::bits`. -/
def flagBits (f : MappingFlags) : Nat :=
  f.read.toNat + 2 * f.write.toNat + 4 * f.execute.toNat + 8 * f.user.toNat

/-- A segment. -/
structure ShmInner where
  shmid : Int
  pageNum : Nat
  /-- Processes, and where each has the segment: first address and end. -/
  vaRange : OrdMap Nat (Nat × Nat)
  /-- The bytes of the shared pages, once there are any. -/
  physPages : Option Nat
  rmid : Bool
  mappingFlags : MappingFlags
  shmidDs : ShmidDs

instance : Inhabited ShmInner :=
  ⟨⟨0, 0, .empty, none, false, ⟨false, false, false, false⟩, .new 0 0 0 0⟩⟩

/-- `align_up_4k(size) / PAGE_SIZE_4K`. -/
def pagesOf (size : Nat) : Nat := (size + 4095) % 2 ^ 64 / 4096

/-- `ShmInner::new`. -/
def ShmInner.new (key : BitVec 32) (shmid : Int) (size : Nat) (mappingFlags : MappingFlags)
    (pid : Nat) : ShmInner where
  shmid := shmid
  pageNum := pagesOf size
  vaRange := .empty
  physPages := none
  rmid := false
  mappingFlags := mappingFlags
  shmidDs := .new key size (flagBits mappingFlags) pid

/-- `try_update`. -/
def ShmInner.tryUpdate (size : Nat) (mappingFlags : MappingFlags) (pid : Nat) :
    AxResult ShmInner :=
  if size ≠ o.shmidDs.shmSegsz ∨ flagBits mappingFlags ≠ o.shmidDs.shmPerm.mode then
    .error .invalidInput
  else .ok { o with shmidDs := { o.shmidDs with shmLpid := pid } }

/-- `attach_count`. -/
def ShmInner.attachCount : Nat := o.vaRange.entries.length

/-- `get_addr_range`. -/
def ShmInner.getAddrRange (pid : Nat) : Option (Nat × Nat) := o.vaRange.lookup pid

/-- `attach_process`; `none` is a panic. -/
def ShmInner.attachProcess (checks : Bool) (pid : Nat) (range : Nat × Nat)
    (now : Nat) : Option ShmInner :=
  if (o.getAddrRange pid).isSome then none
  else if checks && o.shmidDs.shmNattch = BitVec.allOnes 16 then none
  else some { o with
    vaRange := o.vaRange.alter pid (fun _ => some range)
    shmidDs := { o.shmidDs with
      shmNattch := o.shmidDs.shmNattch + 1, shmLpid := pid, shmAtime := now } }

/-- `detach_process`; `none` is a panic. -/
def ShmInner.detachProcess (checks : Bool) (pid now : Nat) : Option ShmInner :=
  if (o.getAddrRange pid).isNone then none
  else if checks && o.shmidDs.shmNattch = 0 then none
  else some { o with
    vaRange := o.vaRange.alter pid (fun _ => none)
    shmidDs := { o.shmidDs with
      shmNattch := o.shmidDs.shmNattch - 1, shmLpid := pid, shmDtime := now } }

/-! ## §2. The manager. -/

/-- `SHM_MANAGER`, all segments there ever were, and `IPC_ID`. -/
structure Tables where
  keyShmid : BiMap Int Int
  /-- A segment is a number: its place in `inners`. -/
  shmidInner : OrdMap Int Nat
  pidShmidVaddr : OrdMap Nat (BiMap Int Nat)
  inners : List ShmInner
  nextIpcId : BitVec 32

namespace Tables

def initial : Tables := ⟨.empty, .empty, .empty, [], 0⟩

variable (tb : Tables)

/-- The segment behind a counted reference. -/
def inner (i : Nat) : ShmInner := tb.inners.getD i default

def setInner (i : Nat) (o : ShmInner) : Tables :=
  { tb with inners := tb.inners.set i o }

/-- `get_shmid_by_key`. -/
def getShmidByKey (key : Int) : Option Int := tb.keyShmid.getByKey key

/-- `get_inner_by_shmid`. -/
def getInnerByShmid (shmid : Int) : Option Nat := tb.shmidInner.lookup shmid

/-- `get_shmid_by_vaddr`. -/
def getShmidByVaddr (pid vaddr : Nat) : Option Int :=
  (tb.pidShmidVaddr.lookup pid).bind (fun m => m.getByValue vaddr)

/-- `get_shmids_by_pid`. -/
def getShmidsByPid (pid : Nat) : Option (List Int) :=
  (tb.pidShmidVaddr.lookup pid).map (fun m => m.forward.entries.map Prod.fst)

/-- `insert_shmid_vaddr`. -/
def insertShmidVaddr (pid : Nat) (shmid : Int) (vaddr : Nat) : Tables :=
  { tb with
    pidShmidVaddr := tb.pidShmidVaddr.alter pid
      (fun m => some ((m.getD .empty).insert shmid vaddr)) }

/-- `remove_shmaddr`. -/
def removeShmaddr (pid shmaddr : Nat) : Tables :=
  { tb with
    pidShmidVaddr := tb.pidShmidVaddr.alter pid (fun m => m.bind (fun m =>
      let m' := m.removeByValue shmaddr
      if m'.forward.entries.isEmpty then none else some m')) }

/-- `remove_pid`. -/
def removePid (pid : Nat) : Tables :=
  { tb with pidShmidVaddr := tb.pidShmidVaddr.alter pid (fun _ => none) }

/-- `remove_shmid`. -/
def removeShmid (shmid : Int) : Tables :=
  { tb with
    keyShmid := tb.keyShmid.removeByValue shmid
    shmidInner := tb.shmidInner.alter shmid (fun _ => none) }

/-- A segment that was marked goes with the last process. -/
def removeIfUnused (shmid : Int) (o : ShmInner) : Tables :=
  if o.rmid && o.attachCount = 0 then tb.removeShmid shmid else tb

end Tables

/-! ## §3. The calls, lock by lock. -/

/-- What `shmget` is asked for. -/
structure GetArgs where
  key : BitVec 32
  size : Nat
  shmflg : BitVec 64

def GetArgs.mappingFlags (a : GetArgs) : MappingFlags where
  read := a.shmflg &&& 0o400 ≠ 0
  write := a.shmflg &&& 0o200 ≠ 0
  execute := a.shmflg &&& 0o100 ≠ 0
  user := true

/-- The pointer that `shmctl` was given. -/
inductive UserBuf where
  | null
  | unaligned
  | aligned
  deriving DecidableEq

/-- The arguments of `shmctl`. -/
structure CtlArgs where
  shmid : BitVec 32
  cmd : BitVec 32
  buf : UserBuf

/-- Where a thread is.  The comment says what it holds. -/
inductive Point where
  /-- Outside; the last call returned this. -/
  | returned (result : AxResult Int)
  | shmget (a : GetArgs)
  /-- The key is known: holds the manager. -/
  | shmgetInner (a : GetArgs) (i : Nat)
  | shmat (shmid : BitVec 32)
  | shmatInner (i : Nat)
  /-- Holds the segment. -/
  | shmatSpace (i : Nat)
  /-- Holds the segment and the address space, in which an area was found. -/
  | shmatManager (i start : Nat)
  | shmdt (shmaddr : Nat)
  | shmdtShmid (shmaddr : Nat) (shmid : Int)
  | shmdtInner (shmaddr : Nat) (shmid : Int) (i : Nat)
  /-- Holds the segment. -/
  | shmdtSpace (shmaddr : Nat) (shmid : Int) (i : Nat)
  /-- Holds the segment and the address space, in which the range is unmapped. -/
  | shmdtManager (shmaddr : Nat) (shmid : Int) (i : Nat)
  | shmctl (a : CtlArgs)
  | shmctlInner (a : CtlArgs) (i : Nat)
  /-- Holds the segment. -/
  | shmctlSpace (a : CtlArgs) (i : Nat)
  | exit
  /-- In the loop of `clear_proc_shm`: holds the manager. -/
  | exitInner (shmid : Int) (i : Nat) (rest : List Int)

instance : Inhabited Point := ⟨.returned (.ok 0)⟩

/-- The locks. -/
inductive Lock where
  | manager
  | inner (i : Nat)
  | space (s : Nat)
  deriving DecidableEq

/-- The locks that a thread with address space `s` holds. -/
def Point.held (s : Nat) : Point → List Lock
  | .shmgetInner _ _ | .exitInner _ _ _ => [.manager]
  | .shmatSpace i | .shmdtSpace _ _ i | .shmctlSpace _ i => [.inner i]
  | .shmatManager i _ | .shmdtManager _ _ i => [.inner i, .space s]
  | _ => []

/-- The lock that it asks for. -/
def Point.request (s : Nat) : Point → Option Lock
  | .returned _ => none
  | .shmget _ | .shmat _ | .shmdt _ | .shmdtShmid _ _ | .shmctl _ | .exit
  | .shmatManager _ _ | .shmdtManager _ _ _ => some .manager
  | .shmgetInner _ i | .shmatInner i | .shmdtInner _ _ i | .shmctlInner _ i
  | .exitInner _ i _ => some (.inner i)
  | .shmatSpace _ | .shmdtSpace _ _ _ | .shmctlSpace _ _ => some (.space s)

/-- What the environment answers. -/
structure Answers where
  /-- `find_free_area`. -/
  freeArea : Option Nat
  /-- `SharedPages::new`. -/
  pages : AxResult Unit
  map : AxResult Unit
  unmap : AxResult Unit
  /-- `buf.get_as_mut()`, and what stands there. -/
  buf : AxResult ShmidDs
  now : Nat

/-- `sys_shmget`, with the manager locked. -/
def shmget (tb : Tables) (pid : Nat) (a : GetArgs) : Tables × Point :=
  match if a.key ≠ IPC_PRIVATE then tb.getShmidByKey a.key.toInt else none with
  | some shmid =>
    match tb.getInnerByShmid shmid with
    | none => (tb, .returned (.error .invalidInput))
    | some i => (tb, .shmgetInner a i)
  | none =>
    let shmid := tb.nextIpcId.toInt
    ({ tb with
        keyShmid := tb.keyShmid.insert a.key.toInt shmid
        shmidInner := tb.shmidInner.alter shmid (fun _ => some tb.inners.length)
        inners := tb.inners ++ [.new a.key shmid a.size a.mappingFlags pid]
        nextIpcId := tb.nextIpcId + 1 },
      .returned (.ok shmid))

/-- `sys_shmat` from the lock of the manager on; `none` is a panic. -/
def shmatAttach (checks : Bool) (tb : Tables) (pid i start : Nat) (ans : Answers) :
    Option (Tables × Point) :=
  let o := tb.inner i
  let length := o.pageNum * 4096
  let tb := tb.insertShmidVaddr pid o.shmid start
  let pages : AxResult Unit := if o.physPages.isSome then .ok () else ans.pages
  match pages, ans.map with
  | .error e, _ => some (tb, .returned (.error e))
  | .ok _, .error e => some (tb, .returned (.error e))
  | .ok _, .ok _ =>
    let o := { o with physPages := some (o.physPages.getD length) }
    (o.attachProcess checks pid (start, start + length) ans.now).map (fun o =>
      (tb.setInner i o, .returned (.ok start)))

/-- `sys_shmdt` from the last lock of the manager on; `none` is a panic. -/
def shmdtDetach (checks : Bool) (tb : Tables) (pid shmaddr : Nat) (shmid : Int) (i now : Nat) :
    Option (Tables × Point) :=
  ((tb.inner i).detachProcess checks pid now).map (fun o =>
    (((tb.removeShmaddr pid shmaddr).setInner i o).removeIfUnused shmid o, .returned (.ok 0)))

/-- `sys_shmctl`, with the segment locked, up to the user's memory. -/
def shmctlCommand (tb : Tables) (a : CtlArgs) (i now : Nat) : Tables × Point :=
  let o := tb.inner i
  let changed (o : ShmInner) : Tables × Point :=
    (tb.setInner i { o with shmidDs := { o.shmidDs with shmCtime := now } }, .returned (.ok 0))
  if a.cmd = IPC_SET then
    match a.buf with
    | .unaligned => (tb, .returned (.error .badAddress))
    | _ => (tb, .shmctlSpace a i)
  else if a.cmd = IPC_STAT then
    match a.buf with
    | .null => changed o
    | .unaligned => (tb, .returned (.error .badAddress))
    | .aligned => (tb, .shmctlSpace a i)
  else if a.cmd = IPC_RMID then changed { o with rmid := true }
  else (tb, .returned (.error .invalidInput))

/-- `sys_shmctl`, once the address space says what the buffer is. -/
def shmctlBuffer (tb : Tables) (a : CtlArgs) (i : Nat) (ans : Answers) : Tables × Point :=
  let o := tb.inner i
  match ans.buf with
  | .error e => (tb, .returned (.error e))
  | .ok user =>
    let ds := if a.cmd = IPC_SET then user else o.shmidDs
    (tb.setInner i { o with shmidDs := { ds with shmCtime := ans.now } }, .returned (.ok 0))

/-- The loop of `clear_proc_shm`, up to the next segment that has to be locked. -/
def exitLoop (tb : Tables) (pid : Nat) : List Int → Tables × Point
  | [] => (tb.removePid pid, .returned (.ok 0))
  | shmid :: rest =>
    match tb.getInnerByShmid shmid with
    | none => exitLoop tb pid rest
    | some i => (tb, .exitInner shmid i rest)

/-- **A thread of process `pid` has the lock it asked for**; `none` is a panic. -/
def advance (checks : Bool) (tb : Tables) (pid : Nat) (ans : Answers) :
    Point → Option (Tables × Point)
  | .returned r => some (tb, .returned r)
  | .shmget a => some (shmget tb pid a)
  | .shmgetInner a i =>
    match (tb.inner i).tryUpdate a.size a.mappingFlags pid with
    | .error e => some (tb, .returned (.error e))
    | .ok o => some (tb.setInner i o, .returned (.ok o.shmid))
  | .shmat shmid => (tb.getInnerByShmid shmid.toInt).map (fun i => (tb, .shmatInner i))
  | .shmatInner i => some (tb, .shmatSpace i)
  | .shmatSpace i =>
    if ((tb.inner i).getAddrRange pid).isSome then none
    else
      match ans.freeArea with
      | none => some (tb, .returned (.error .noMemory))
      | some start => some (tb, .shmatManager i start)
  | .shmatManager i start => shmatAttach checks tb pid i start ans
  | .shmdt shmaddr =>
    match tb.getShmidByVaddr pid shmaddr with
    | none => some (tb, .returned (.error .invalidInput))
    | some shmid => some (tb, .shmdtShmid shmaddr shmid)
  | .shmdtShmid shmaddr shmid =>
    match tb.getInnerByShmid shmid with
    | none => some (tb, .returned (.error .invalidInput))
    | some i => some (tb, .shmdtInner shmaddr shmid i)
  | .shmdtInner shmaddr shmid i =>
    match (tb.inner i).getAddrRange pid with
    | none => some (tb, .returned (.error .invalidInput))
    | some _ => some (tb, .shmdtSpace shmaddr shmid i)
  | .shmdtSpace shmaddr shmid i =>
    match ans.unmap with
    | .error e => some (tb, .returned (.error e))
    | .ok _ => some (tb, .shmdtManager shmaddr shmid i)
  | .shmdtManager shmaddr shmid i => shmdtDetach checks tb pid shmaddr shmid i ans.now
  | .shmctl a =>
    match tb.getInnerByShmid a.shmid.toInt with
    | none => some (tb, .returned (.error .invalidInput))
    | some i => some (tb, .shmctlInner a i)
  | .shmctlInner a i => some (shmctlCommand tb a i ans.now)
  | .shmctlSpace a i => some (shmctlBuffer tb a i ans)
  | .exit =>
    match tb.getShmidsByPid pid with
    | none => some (tb.removePid pid, .returned (.ok 0))
    | some shmids => some (exitLoop tb pid shmids)
  | .exitInner shmid i rest =>
    ((tb.inner i).detachProcess checks pid ans.now).map (fun o =>
      exitLoop ((tb.setInner i o).removeIfUnused shmid o) pid rest)

/-! ## §4. Any number of threads. -/

structure Config where
  /-- A debug build panics on overflow. -/
  overflowChecks : Bool
  /-- The process of a thread. -/
  process : Nat → Nat
  /-- The address space of a process; some may share one. -/
  space : Nat → Nat

/-- The tables and the threads. -/
structure World where
  tables : Tables
  threads : Threads Point
  /-- The processes whose last thread has begun to exit. -/
  exited : List Nat
  /-- A panic stops the kernel. -/
  halted : Bool

def World.initial : World := ⟨.initial, .initial, [], false⟩

/-- The system calls. -/
inductive Call where
  | shmget (a : GetArgs)
  | shmat (shmid : BitVec 32)
  | shmdt (shmaddr : Nat)
  | shmctl (a : CtlArgs)
  /-- The last thread of a process exits. -/
  | exit

/-- What is checked before the first lock; `none` is a panic. -/
def Call.start (checks : Bool) : Call → Option Point
  | .shmget a =>
    if checks && 2 ^ 64 ≤ a.size + 4095 then none
    else if pagesOf a.size = 0 then some (.returned (.error .invalidInput))
    else some (.shmget a)
  | .shmat shmid => some (.shmat shmid)
  | .shmdt shmaddr => some (.shmdt shmaddr)
  | .shmctl a => some (.shmctl a)
  | .exit => some .exit

def Call.isExit : Call → Bool
  | .exit => true
  | _ => false

/-- Not in a call. -/
def Point.outside : Point → Bool
  | .returned _ => true
  | _ => false

variable (cfg : Config)

/-- Somebody else of the process is still in a call. -/
def World.hasCompany (w : World) (t : Nat) : Bool :=
  (w.threads.those (fun p => !p.outside)).any (fun u => cfg.process u = cfg.process t)

/-- Nobody holds the lock. -/
def World.isFree (w : World) (l : Lock) : Bool :=
  !w.threads.points.entries.any (fun e => l ∈ e.2.held (cfg.space (cfg.process e.1)))

/-- The area overlaps no attached range of the space. -/
def Tables.isFreeArea (tb : Tables) (pid start length : Nat) : Bool :=
  tb.inners.all (fun o => o.vaRange.entries.all (fun e =>
    cfg.space e.1 ≠ cfg.space pid || decide (start + length ≤ e.2.1) || decide (e.2.2 ≤ start)))

/-- `find_free_area` finds a free area. -/
def Answers.admissible (tb : Tables) (pid : Nat) (ans : Answers) : Point → Bool
  | .shmatSpace i =>
    ans.freeArea.all (fun start => tb.isFreeArea cfg pid start ((tb.inner i).pageNum * 4096))
  | _ => true

/-- What a thread may do. -/
inductive Step where
  | call (t : Nat) (c : Call)
  /-- Thread `t` gets the lock it asks for. -/
  | run (t : Nat) (ans : Answers)
  /-- `msgget` draws an identifier. -/
  | drawId

def step (w : World) (i : Step) : Option World :=
  if w.halted then none
  else
    match i with
    | .drawId => some { w with tables := { w.tables with nextIpcId := w.tables.nextIpcId + 1 } }
    | .call t c =>
      if !(w.threads.pc t).outside || w.exited.contains (cfg.process t)
          || (c.isExit && w.hasCompany cfg t) then none
      else
        match c.start cfg.overflowChecks with
        | none => some { w with halted := true }
        | some p => some { w with
            threads := w.threads.goto t p
            exited := if c.isExit then cfg.process t :: w.exited else w.exited }
    | .run t ans =>
      match (w.threads.pc t).request (cfg.space (cfg.process t)) with
      | none => none
      | some l =>
        if w.isFree cfg l
            && ans.admissible cfg w.tables (cfg.process t) (w.threads.pc t) then
          match advance cfg.overflowChecks w.tables (cfg.process t) ans (w.threads.pc t) with
          | none => some { w with halted := true }
          | some (tb, p) => some { w with tables := tb, threads := w.threads.goto t p }
        else none

/-- What every thread holds and asks for. -/
def World.locking (w : World) : Locking Nat Lock where
  held t := (w.threads.pc t).held (cfg.space (cfg.process t))
  request t := (w.threads.pc t).request (cfg.space (cfg.process t))

end StarryOS.Ipc.Shm
