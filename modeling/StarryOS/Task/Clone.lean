/-
  StarryOS.Task.Clone — `clone` (`CloneArgs::do_clone`,
  `kernel/src/syscall/task/clone.rs`).

  A clone makes two entries that others can see: `Process::fork` adds the child to
  its parent's children, and `add_thread` adds the thread to its process.  Both
  come BEFORE steps that can still fail:

      validate, exit signal, parent        may fail, nothing was entered
      fork(tid)                            a new process, a new child
      try_clone                            may fail
      add_thread(tid)                      a new thread
      pidfd: descriptor, user memory       may fail

  and no exit takes the entries back (`Task.FailedClone`).

  Of the crate `starry_process` the model has the tree and the thread sets.
  What processes share through `Arc` is named by numbers.
-/
import Mathlib.Logic.Function.Basic
import StarryOS.Errno
import StarryOS.Lib.Program

namespace StarryOS.Task.Clone

open Lib Function

/-! ## §1. Arguments. -/

/-- `CloneFlags`, as far as `do_clone` acts on them. -/
inductive CloneFlag where
  | vm
  | fs
  | files
  | sighand
  | pidfd
  | vfork
  | parent
  | thread
  | settls
  | parentSettid
  | childCleartid
  | childSettid
  | clearSighand
  | detached
  deriving Repr, DecidableEq

/-- A set of flags. -/
abbrev CloneFlags := CloneFlag → Bool

structure CloneArgs where
  flags : CloneFlags
  exitSignal : Nat
  stack : Nat
  tls : Nat
  parentTid : Nat
  childTid : Nat
  pidfd : Nat

/-- `CloneArgs::validate`. -/
def CloneArgs.validate (a : CloneArgs) : AxResult Unit :=
  if 0 < a.exitSignal ∧ (a.flags .thread || a.flags .parent) then .error .invalidInput
  else if a.flags .thread && !(a.flags .vm && a.flags .sighand) then .error .invalidInput
  else if a.flags .sighand && !a.flags .vm then .error .invalidInput
  else if a.flags .vfork && a.flags .thread then .error .invalidInput
  else if a.flags .pidfd && a.flags .detached then .error .invalidInput
  else .ok ()

/-- The flags after the `CLONE_VFORK` slow path. -/
def CloneArgs.childFlags (a : CloneArgs) : CloneFlags :=
  if a.flags .vfork then update a.flags .vm false else a.flags

/-- `Signo::from_repr`. -/
def signoFromRepr (n : Nat) : Option Nat := if 1 ≤ n ∧ n ≤ 64 then some n else none

/-- The exit signal, from the lowest byte of its number. -/
def CloneArgs.exitSigno (a : CloneArgs) : AxResult (Option Nat) :=
  if 0 < a.exitSignal then
    match signoFromRepr (a.exitSignal % 256) with
    | some signo => .ok (some signo)
    | none => .error .invalidInput
  else .ok none

/-! ## §2. Processes. -/

/-- `starry_process::Process`. -/
structure Process where
  parent : Option Nat
  children : List Nat
  threads : List Nat
  deriving Repr, DecidableEq

/-- Files, and the two pidfds. -/
inductive FileLike where
  | file (n : Nat)
  | pidfdProcess (pid : Nat)
  | pidfdThread (tid : Nat)
  deriving Repr, DecidableEq

structure FileDescriptor where
  inner : FileLike
  cloexec : Bool
  deriving Repr, DecidableEq

/-- `FlattenObjects`: `AX_FILE_LIMIT` slots. -/
abbrev FdTable := List (Option FileDescriptor)

abbrev SignalActions := List (Nat × Nat)

/-- Root and working directory. -/
structure FsContext where
  rootDir : Nat
  currentDir : Nat
  deriving Repr, DecidableEq

/-- `ProcessData`, as far as `do_clone` reads and sets it.  Address space, signal
actions, descriptors and file system context are numbers of shared objects. -/
structure ProcessData where
  exePath : List Char
  cmdline : List (List Char)
  aspace : Nat
  actions : Nat
  exitSignal : Option Nat
  umask : Nat
  heapTop : Nat
  fdTable : Nat
  fsContext : Nat
  /-- The current `RLIMIT_NOFILE`. -/
  nofile : Nat
  deriving Repr, DecidableEq

structure UserContext where
  ip : Nat
  sp : Nat
  tls : Nat
  retval : Nat
  deriving Repr, DecidableEq

/-- A task of the table, with its `Thread`. -/
structure UserTask where
  pid : Nat
  name : List Char
  pageTable : Nat
  uctx : UserContext
  setChildTid : Nat
  clearChildTid : Nat
  deriving Repr, DecidableEq

/-- What a clone reads and changes. -/
structure System where
  /-- The process tree. -/
  processes : Nat → Option Process
  /-- The data of processes that have been spawned. -/
  data : Nat → ProcessData
  tasks : Nat → Option UserTask
  fdTables : List FdTable
  actionTables : List SignalActions
  fsContexts : List FsContext
  /-- Words that the kernel has stored in user memory, the last one first. -/
  stored : List (Nat × Nat)
  /-- The counter of `TaskId::new`, an `AtomicU64`. -/
  nextTaskId : Nat

/-- Answers from outside. -/
structure CloneEnv where
  /-- `AddrSpace::try_clone`: the number of the new space. -/
  tryClone : AxResult Nat
  /-- `vm_write` to this address succeeds. -/
  writable : Nat → Bool

abbrev CloneM := EStateM AxError System

/-- The calling task. -/
structure Caller where
  pid : Nat
  name : List Char
  uctx : UserContext

variable (sys : System)

def System.fdTableOf (pid : Nat) : FdTable :=
  (sys.fdTables[(sys.data pid).fdTable]?).getD []

def System.parentOf (pid : Nat) : Option Nat := (sys.processes pid).bind (·.parent)

def System.withProcess (pid : Nat) (f : Process → Process) : System :=
  { sys with processes := update sys.processes pid ((sys.processes pid).map f) }

/-- `Process::fork`: the child is registered with its parent. -/
def System.fork (parent tid : Nat) : System :=
  let sys' := sys.withProcess parent (fun p => { p with children := tid :: p.children })
  { sys' with processes := update sys'.processes tid (some ⟨some parent, [], []⟩) }

/-- `Process::add_thread`. -/
def System.addThread (pid tid : Nat) : System :=
  sys.withProcess pid (fun p =>
    { p with threads := if tid ∈ p.threads then p.threads else tid :: p.threads })

/-! ## §3. Descriptors. -/

/-- The slot that `add` takes: the first free one, below the limit. -/
def System.freeSlot (pid : Nat) : Option Nat :=
  if (sys.data pid).nofile ≤ (sys.fdTableOf pid).countP Option.isSome then none
  else (sys.fdTableOf pid).findIdx? Option.isNone

def System.setSlot (pid fd : Nat) (x : Option FileDescriptor) : System :=
  { sys with fdTables := sys.fdTables.set (sys.data pid).fdTable ((sys.fdTableOf pid).set fd x) }

/-- `add_file_like` into the table of the caller. -/
def addFileLike (pid : Nat) (f : FileLike) (cloexec : Bool) : CloneM Nat := do
  match (← get).freeSlot pid with
  | none => throw .tooManyOpenFiles
  | some fd => do
    modify (fun sys => sys.setSlot pid fd (some ⟨f, cloexec⟩))
    return fd

/-- `close_file_like`, its result ignored. -/
def closeFileLike (pid fd : Nat) : CloneM Unit := modify (fun sys => sys.setSlot pid fd none)

/-! ## §4. `do_clone`. -/

/-- What the child shares with the caller, or owns. -/
inductive Resource (α : Type) where
  | shared (id : Nat)
  | own (value : α)

/-- Where the object is when the child is spawned. -/
def Resource.place {α : Type} (heap : List α) : Resource α → Nat × List α
  | .shared id => (id, heap)
  | .own value => (heap.length, heap ++ [value])

/-- The data of a child that is not spawned yet. -/
structure NewProcess where
  data : ProcessData
  actions : Resource SignalActions
  fds : Resource FdTable
  fs : Resource FsContext

def ofExcept {α : Type} : AxResult α → CloneM α
  | .ok a => return a
  | .error e => throw e

/-- The identifier that the next task gets: `as Pid` keeps the lower half of its
64-bit number. -/
def System.nextTid (sys : System) : Nat := sys.nextTaskId % 2 ^ 32

/-- `new_user_task`: the identifier of the new task. -/
def newUserTask : CloneM Nat := modifyGet (fun sys =>
  (sys.nextTid, { sys with nextTaskId := (sys.nextTaskId + 1) % 2 ^ 64 }))

section Functions

variable (env : CloneEnv) (me : Caller)

variable (a : CloneArgs)

/-- `CLONE_PARENT_SETTID`: a failed store is ignored. -/
def storeParentTid (tid : Nat) : CloneM Unit :=
  modify (fun sys =>
    if a.childFlags .parentSettid && a.parentTid ≠ 0 && env.writable a.parentTid then
      { sys with stored := (a.parentTid, tid) :: sys.stored }
    else sys)

/-- The process that becomes the parent of the child. -/
def chooseParent : CloneM Nat := do
  if a.childFlags .parent then
    match (← get).parentOf me.pid with
    | some pid => return pid
    | none => throw .invalidInput
  else return me.pid

/-- The address space of the child.  `copy_from_kernel` returns `Ok` always. -/
def childSpace : CloneM Nat := do
  if a.childFlags .vm then return ((← get).data me.pid).aspace
  else ofExcept env.tryClone

/-- The data of the child. -/
def childData (sys : System) (a : CloneArgs) (exitSignal : Option Nat) (aspace : Nat) :
    NewProcess where
  -- the limits of the child are the default ones
  data := { sys.data me.pid with aspace := aspace, exitSignal := exitSignal, nofile := 1024 }
  actions :=
    if a.childFlags .sighand then .shared (sys.data me.pid).actions
    else if a.childFlags .clearSighand then .own []
    else .own ((sys.actionTables[(sys.data me.pid).actions]?).getD [])
  fds :=
    if a.childFlags .files then .shared (sys.data me.pid).fdTable
    else .own (sys.fdTableOf me.pid)
  fs :=
    if a.childFlags .fs then .shared (sys.data me.pid).fsContext
    else .own ((sys.fsContexts[(sys.data me.pid).fsContext]?).getD ⟨0, 0⟩)

/-- A process of its own. -/
def newProcess (exitSignal : Option Nat) (tid : Nat) : CloneM NewProcess := do
  let parent ← chooseParent me a
  -- the child is in the tree before anything of it exists
  modify (fun sys => sys.fork parent tid)
  let aspace ← childSpace env me a
  return childData me (← get) a exitSignal aspace

/-- `CLONE_PIDFD`. -/
def storePidfd (f : FileLike) : CloneM Unit := do
  if a.childFlags .pidfd && a.pidfd ≠ 0 then do
    let fd ← addFileLike me.pid f true
    if env.writable a.pidfd then
      modify (fun sys => { sys with stored := (a.pidfd, fd) :: sys.stored })
    else do
      -- the only thing that a failed clone takes back
      closeFileLike me.pid fd
      throw .badAddress
  else return ()

/-- `*uctx` with the stack, the TLS and the return value of the child. -/
def childContext : UserContext :=
  { me.uctx with
    sp := if a.stack ≠ 0 then a.stack else me.uctx.sp
    tls := if a.childFlags .settls then a.tls else me.uctx.tls
    retval := 0 }

/-- The data of a spawned child is there for all. -/
def System.install (sys : System) (pid : Nat) (new : NewProcess) : System :=
  let (actions, actionTables) := new.actions.place sys.actionTables
  let (fdTable, fdTables) := new.fds.place sys.fdTables
  let (fsContext, fsContexts) := new.fs.place sys.fsContexts
  { sys with
    data := update sys.data pid
      { new.data with actions := actions, fdTable := fdTable, fsContext := fsContext }
    actionTables := actionTables, fdTables := fdTables, fsContexts := fsContexts }

/-- `spawn_task` and `add_task_to_table`. -/
def spawn (tid pid : Nat) (new : Option NewProcess) : CloneM Unit :=
  modify (fun sys =>
    let sys := match new with
      | some new => sys.install pid new
      | none => sys
    { sys with tasks := update sys.tasks tid (some {
        pid := pid
        name := me.name
        pageTable := (sys.data pid).aspace
        uctx := childContext me a
        setChildTid := if a.childFlags .childSettid then a.childTid else 0
        clearChildTid := if a.childFlags .childCleartid then a.childTid else 0 }) })

/-- `do_clone` for a thread of the caller's process. -/
def cloneThread (tid : Nat) : CloneM Nat := do
  modify (fun sys => sys.addThread me.pid tid)
  storePidfd env me a (.pidfdThread tid)
  spawn me a tid me.pid none
  return tid

/-- `do_clone` for a process of its own. -/
def cloneProcess (exitSignal : Option Nat) (tid : Nat) : CloneM Nat := do
  let new ← newProcess env me a exitSignal tid
  modify (fun sys => sys.addThread tid tid)
  storePidfd env me a (.pidfdProcess tid)
  spawn me a tid tid (some new)
  return tid

/-- `do_clone`. -/
def doClone : CloneM Nat := do
  ofExcept a.validate
  let exitSignal ← ofExcept a.exitSigno
  let tid ← newUserTask
  storeParentTid env a tid
  if a.childFlags .thread then cloneThread env me a tid
  else cloneProcess env me a exitSignal tid

end Functions

end StarryOS.Task.Clone
