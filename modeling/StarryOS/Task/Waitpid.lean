/-
  StarryOS.Task.Waitpid — WAITING FOR CHILDREN (`sys_waitpid` of
  `kernel/src/syscall/task/wait.rs`, the end of `do_exit` of
  `kernel/src/task/ops.rs`).

  A call takes ONE list of the children it selects and polls that list until it
  finds a zombie:

      poll      is_zombie, child by child; free; copy the status out
      or        register with `child_exit_event`; park
      exit      process.exit(); child_exit_event.wake()

  Every line is cut where another thread can come in between, and so is the scan
  of the list.  Any number of threads of one parent wait here for any number of
  children, which are forked, change their groups and exit at any time.  Where
  the parent is init it also adopts the children of a process that exits, which
  may be zombies by then, and nobody wakes it for those.

  A child is its pid, and pids are not used twice.  `exit` makes a zombie,
  `free` takes it out of the children, and `wake` wakes who has registered.
-/
import StarryOS.Errno
import StarryOS.Lib.Threads
import StarryOS.Lib.Transition

namespace StarryOS.Task.Waitpid

open Lib

/-! ## §1. Children and calls. -/

/-- How far a child has come in its exit. -/
inductive Phase where
  | running
  /-- `process.exit()` is done, `child_exit_event.wake()` is not. -/
  | zombie
  | announced
  deriving Repr, DecidableEq

/-- A child of the process. -/
structure Child where
  pgid : Nat
  phase : Phase
  deriving Repr, DecidableEq

/-- Which children. -/
inductive WaitPid where
  | any
  | pid (pid : Nat)
  | pgid (pgid : Nat)
  deriving Repr, DecidableEq

/-- `WaitPid::apply`, to a child and its group. -/
def WaitPid.apply : WaitPid → Nat → Nat → Bool
  | .any, _, _ => true
  | .pid p, child, _ => child = p
  | .pgid g, _, group => group = g

/-- Which children the argument selects, for a caller in group `pgid`. -/
def waitPidOf (pgid : Nat) (pid : Int) : WaitPid :=
  if pid = -1 then .any
  else if pid = 0 then .pgid pgid
  else if 0 < pid then .pid pid.toNat
  else .pgid (-pid).toNat

/-- A call, once it has listed its children. -/
structure Call where
  pid : WaitPid
  children : List Nat
  nohang : Bool
  nowait : Bool
  /-- The pointer for the status is not null. -/
  exitCode : Bool
  deriving Repr, DecidableEq

/-- Where a thread of the parent is.  `woke` is that of its `block_on`. -/
inductive Point where
  | returned (r : AxResult Nat)
  /-- At the head of the loop of `block_on`. -/
  | polling (call : Call)
  /-- `check_children` has not yet looked at `rest`. -/
  | scanning (call : Call) (rest : List Nat) (woke : Bool)
  /-- A zombie; `free` is next. -/
  | found (call : Call) (child : Nat)
  /-- Before the status is copied out; `took` is whether the child was still listed. -/
  | copying (call : Call) (child : Nat) (took : Bool)
  | registering (call : Call) (woke : Bool)
  /-- `block_on` has seen `Pending`. -/
  | parking (call : Call) (woke : Bool)
  | parked (call : Call)

instance : Inhabited Point := ⟨.returned (.ok 0)⟩

def Point.call? : Point → Option Call
  | .returned _ => none
  | .polling call | .scanning call _ _ | .found call _ | .copying call _ _
  | .registering call _ | .parking call _ | .parked call => some call

/-- The process and its children. -/
structure World where
  /-- The group of the parent. -/
  pgid : Nat
  /-- All processes that were ever its children. -/
  procs : Table Nat Child
  children : List Nat
  /-- The threads registered with `child_exit_event`. -/
  childExitEvent : List Nat
  threads : Threads Point
  /-- The pids that calls without `WNOWAIT` have returned; nobody reads this. -/
  reaped : List Nat
  /-- The children taken by calls that then returned an error; nobody reads this. -/
  consumed : List Nat

def World.start (pgid : Nat) : World := ⟨pgid, .empty, [], [], .initial, [], []⟩

/-! ## §2. Steps. -/

/-- What may happen. -/
inductive Event where
  | call (t : Nat) (pid : Int) (nohang nowait exitCode : Bool)
  | next (t : Nat)
  /-- `poll_interrupt` says that the thread was interrupted. -/
  | interrupted (t : Nat)
  /-- The status is written, or the write faults. -/
  | write (t : Nat) (fault : Bool)
  /-- The thread is woken by somebody else. -/
  | unpark (t : Nat)
  | fork (child pgid : Nat)
  /-- The parent is init, and the former parent of the child exits. -/
  | adopt (pid : Nat) (child : Child)
  | setpgid (child pgid : Nat)
  | exit (child : Nat)
  | wake (child : Nat)
  deriving Repr, DecidableEq

def World.goto (w : World) (t : Nat) (p : Point) : World :=
  { w with threads := w.threads.goto t p }

variable (w : World)

/-- The call returns; a waker it has left behind is from now on one of the others. -/
def World.ret (t : Nat) (r : AxResult Nat) : World :=
  { w with
    threads := w.threads.goto t (.returned r)
    childExitEvent := w.childExitEvent.filter (· ≠ t) }

/-- `is_zombie`. -/
def World.isZombie (child : Nat) : Bool :=
  match w.procs.lookup child with
  | some c => c.phase != .running
  | none => false

def World.selects (pid : WaitPid) (child : Nat) : Bool :=
  match w.procs.lookup child with
  | some c => pid.apply child c.pgid
  | none => false

/-- The waker of a call that has registered. -/
def Point.wake : Point → Point
  | .scanning call rest _ => .scanning call rest true
  | .registering call _ => .registering call true
  | .parking call _ => .parking call true
  | .parked call => .polling call
  | p => p

/-- `sys_waitpid` up to the wait. -/
def World.waitpid (t : Nat) (pid : Int) (nohang nowait exitCode : Bool) : World :=
  let pid := waitPidOf w.pgid pid
  let children := w.children.filter (w.selects pid)
  if children.isEmpty then w.ret t (.error .noChild)
  else w.goto t (.polling ⟨pid, children, nohang, nowait, exitCode⟩)

/-- The next line of a thread. -/
def World.advance (t : Nat) : Option World :=
  match w.threads.pc t with
  | .polling call => some (w.goto t (.scanning call call.children false))
  | .scanning call [] woke =>
    if call.nohang then some (w.ret t (.ok 0)) else some (w.goto t (.registering call woke))
  -- a child stays a zombie after `free`
  | .scanning call (child :: rest) woke =>
    if w.isZombie child then some (w.goto t (.found call child))
    else some (w.goto t (.scanning call rest woke))
  -- `free` of a child that is no longer listed does nothing
  | .found call child =>
    if call.nowait then some (w.goto t (.copying call child false))
    else some { w.goto t (.copying call child (w.children.contains child)) with
      children := w.children.erase child }
  | .registering call woke =>
    some { w.goto t (.parking call woke) with childExitEvent := t :: w.childExitEvent }
  -- under the lock of `woke`; nobody looks at the children again
  | .parking call woke => some (w.goto t (if woke then .polling call else .parked call))
  | _ => none

/-- A process that was not a child before. -/
def World.addChild (pid : Nat) (child : Child) : Option World :=
  match w.procs.lookup pid with
  | none => some { w with procs := w.procs.insert pid child, children := pid :: w.children }
  | some _ => none

def step : Event → Option World
  | .call t pid nohang nowait exitCode =>
    match w.threads.pc t with
    | .returned _ => some (w.waitpid t pid nohang nowait exitCode)
    | _ => none
  | .next t => w.advance t
  | .interrupted t =>
    match w.threads.pc t with
    | .polling _ => some (w.ret t (.error .interrupted))
    | _ => none
  | .write t fault =>
    match w.threads.pc t with
    | .copying call child took =>
      if call.exitCode && fault then
        some { w.ret t (.error .badAddress) with
          consumed := if took then child :: w.consumed else w.consumed }
      else some { w.ret t (.ok child) with
        reaped := if call.nowait then w.reaped else child :: w.reaped }
    | _ => none
  | .unpark t =>
    match w.threads.pc t with
    | .parked call => some (w.goto t (.polling call))
    | _ => none
  | .fork child pgid => w.addChild child ⟨pgid, .running⟩
  | .adopt pid child => w.addChild pid child
  | .setpgid child pgid =>
    match w.procs.lookup child with
    | some c => some { w with procs := w.procs.insert child { c with pgid := pgid } }
    | none => none
  | .exit child =>
    match w.procs.lookup child with
    | some ⟨pgid, .running⟩ => some { w with procs := w.procs.insert child ⟨pgid, .zombie⟩ }
    | _ => none
  | .wake child =>
    match w.procs.lookup child with
    | some ⟨pgid, .zombie⟩ => some { w with
        procs := w.procs.insert child ⟨pgid, .announced⟩
        threads := w.threads.updateAll Point.wake w.childExitEvent
        childExitEvent := [] }
    | _ => none

/-! ## §3. What may go wrong. -/

/-- The thread waits for a child that has announced its exit and that nobody has taken. -/
def World.Misses (t : Nat) : Prop :=
  ∃ call child pgid, w.threads.pc t = .parked call ∧ child ∈ w.children ∧
    w.procs.lookup child = some ⟨pgid, .announced⟩ ∧ call.pid.apply child pgid = true

/-- The call has this child on its list. -/
def Point.lists (child : Nat) (p : Point) : Bool :=
  match p.call? with
  | some call => call.children.contains child
  | none => false

/-- The call would select this child but has listed its children before. -/
def Point.overlooks (child pgid : Nat) (p : Point) : Bool :=
  match p.call? with
  | some call => call.pid.apply child pgid && !call.children.contains child
  | none => false

/-- The call has looked at this child and is on the way to park. -/
def Point.passed (child : Nat) : Point → Bool
  | .scanning call rest woke => call.children.contains child && !rest.contains child && !woke
  | .registering call woke => call.children.contains child && !woke
  | _ => false

/-- The steps with which nothing goes wrong:
* calls do not have `WNOWAIT`,
* when a child is freed, no other call has it on its list,
* the status can be written,
* no call overlooks a child that is forked, adopted or moved to a group,
* when an exit is announced, every call that has looked at the child before has registered. -/
def careful : Event → Bool
  | .call _ _ _ nowait _ => !nowait
  | .next t =>
    match w.threads.pc t with
    | .found _ child => (w.threads.those (Point.lists child)).all (· = t)
    | _ => true
  | .write t fault =>
    match w.threads.pc t with
    | .copying call _ _ => !(call.exitCode && fault)
    | _ => true
  | .fork child pgid | .adopt child ⟨pgid, _⟩ | .setpgid child pgid =>
    !w.threads.any (Point.overlooks child pgid)
  | .wake child => (w.threads.those (Point.passed child)).all w.childExitEvent.contains
  | _ => true

end StarryOS.Task.Waitpid
