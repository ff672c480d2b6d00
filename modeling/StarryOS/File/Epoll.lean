/-
  StarryOS.File.Epoll — THE EPOLL INSTANCE, step by step.

  An `Epoll` keeps the registered interests in a map and the interests that
  became ready in a queue of WEAK pointers; every interest has a flag that says
  whether it is queued.  Map, queue and flag have no common lock, so each call
  is cut where another thread can come in between:

      add / modify / delete   one section under the lock of `interests`
      check_and_register      the file is asked, the waker registered, the file
                              asked again, and the waker perhaps called
      wake_by_ref             upgrade; compare-exchange of the flag; push_back
      poll_events             pop_front; upgrade; consume; push_back or clear
                              the flag; register again

  Interests are allocated and never reused: `objects` is the list of all of
  them, and a pointer is an index.
-/
import StarryOS.Lib.Threads
import StarryOS.Errno

namespace StarryOS.File

open Lib

/-! ## §1. Interests. -/

/-- The interest mask and the user data. -/
structure EpollEvent where
  events : UInt32
  userData : UInt64
  deriving DecidableEq

/-- `EPOLLET`, `EPOLLONESHOT`. -/
structure EpollFlags where
  edgeTrigger : Bool
  oneshot : Bool

/-- Interest trigger mode. -/
inductive TriggerMode where
  | level
  | edge
  | oneShot (fired : Bool)

namespace TriggerMode

def fromFlags (flags : EpollFlags) : TriggerMode :=
  if flags.oneshot then .oneShot false
  else if flags.edgeTrigger then .edge
  else .level

/-- Whether to notify, and the new mode. -/
def shouldNotify : TriggerMode → Bool × TriggerMode
  | .level => (true, .level)
  | .edge => (true, .edge)
  | .oneShot fired => if fired then (false, .oneShot fired) else (true, .oneShot true)

def isEnabled : TriggerMode → Bool
  | .oneShot fired => !fired
  | _ => true

end TriggerMode

/-- Keys compare the descriptor and the pointer to the file. -/
structure EntryKey where
  fd : Int
  file : Nat
  deriving DecidableEq

structure EpollInterest where
  key : EntryKey
  event : EpollEvent
  mode : TriggerMode
  inReadyQueue : Bool

/-- What `consume` says of an interest. -/
inductive ConsumeResult where
  /-- Success, stays in the ready list. -/
  | eventAndKeep (event : EpollEvent)
  /-- Success, leaves the ready list. -/
  | eventAndRemove (event : EpollEvent)
  | noEvent

namespace EpollInterest

def new (key : EntryKey) (event : EpollEvent) (flags : EpollFlags) : EpollInterest where
  key := key
  event := event
  mode := .fromFlags flags
  inReadyQueue := false

/-- `consume`, when the file's `poll` answers `currentEvents`. -/
def consume (interest : EpollInterest) (currentEvents : UInt32) :
    ConsumeResult × EpollInterest :=
  let matched := currentEvents &&& interest.event.events
  if matched = 0 then (.noEvent, interest)
  else
    let notify := interest.mode.shouldNotify
    let interest := { interest with mode := notify.2 }
    if !notify.1 then (.noEvent, interest)
    else
      let event := ⟨matched, interest.event.userData⟩
      match notify.2 with
      | .level => (.eventAndKeep event, interest)
      | .edge => (.eventAndRemove event, interest)
      | .oneShot _ => (.eventAndRemove event, interest)

theorem consume_inReadyQueue (interest : EpollInterest) (currentEvents : UInt32) :
    (interest.consume currentEvents).2.inReadyQueue = interest.inReadyQueue := by
  unfold consume
  simp only
  split
  · rfl
  · split
    · rfl
    · split <;> rfl

end EpollInterest

/-! ## §2. Threads and the shared state. -/

/-- Where a thread is.  `out` holds the events that `poll_events` has written,
`len` is the length of its output slice. -/
inductive EpollPoint where
  /-- Outside of epoll; the last call returned this. -/
  | returned (result : AxResult Nat) (out : List EpollEvent)
  /-- `check_and_register_waker`, before the file is asked. -/
  | check (id : Nat)
  /-- The file was not ready; `register` is next. -/
  | arm (id : Nat)
  /-- The waker is registered; the file is asked once more. -/
  | recheck (id : Nat)
  /-- `wake_by_ref`, both pointers upgraded. -/
  | waking (id : Nat)
  /-- `try_mark_in_queue` succeeded; `push_back` is next. -/
  | marked (id : Nat)
  /-- `poll_events`, at the head of its loop. -/
  | popping (out : List EpollEvent) (len : Nat)
  /-- A weak pointer was popped. -/
  | popped (id : Nat) (out : List EpollEvent) (len : Nat)
  /-- It was upgraded. -/
  | held (id : Nat) (out : List EpollEvent) (len : Nat)
  /-- The file is closed and the key removed; `mark_not_in_queue` is next. -/
  | closing (id : Nat) (out : List EpollEvent) (len : Nat)
  /-- `EventAndKeep`; `push_back` is next. -/
  | keep (id : Nat) (out : List EpollEvent) (len : Nat)
  /-- `EventAndRemove` or `NoEvent`; `mark_not_in_queue` is next. -/
  | remove (id : Nat) (out : List EpollEvent) (len : Nat)
  /-- `register_waker_only` is next. -/
  | rearm (id : Nat) (out : List EpollEvent) (len : Nat)

instance : Inhabited EpollPoint := ⟨.returned (.ok 0) []⟩

namespace EpollPoint

/-- The interest that a thread has taken out of the queue, or is about to put
into it. -/
def carries : EpollPoint → Option Nat
  | .marked id => some id
  | .popped id _ _ => some id
  | .held id _ _ => some id
  | .closing id _ _ => some id
  | .keep id _ _ => some id
  | .remove id _ _ => some id
  | _ => none

/-- The interest to which a thread holds a strong reference. -/
def holds : EpollPoint → Option Nat
  | .check id => some id
  | .arm id => some id
  | .recheck id => some id
  | .waking id => some id
  | .marked id => some id
  | .held id _ _ => some id
  | .closing id _ _ => some id
  | .keep id _ _ => some id
  | .remove id _ _ => some id
  | .rearm id _ _ => some id
  | _ => none

/-- The thread is not inside a call. -/
def atRest : EpollPoint → Bool
  | .returned _ _ => true
  | _ => false

end EpollPoint

/-- `EpollInner`, the interests it points to, and the threads. -/
structure EpollInner where
  interests : Table EntryKey Nat
  readyQueue : List Nat
  objects : List EpollInterest
  /-- The interests whose waker is registered with their file. -/
  wakers : List Nat
  threads : Threads EpollPoint

namespace EpollInner

variable (st : EpollInner)

/-- `Weak::upgrade` succeeds: the map or a thread has a strong reference. -/
def upgrades (id : Nat) : Bool :=
  st.interests.entries.any (fun e => e.2 = id)
    || st.threads.any (fun p => p.holds = some id)

/-- The flag of an interest. -/
def flag (id : Nat) : Option Bool :=
  st.objects[id]?.map (fun interest => interest.inReadyQueue)

def goto (st : EpollInner) (t : Nat) (p : EpollPoint) : EpollInner :=
  { st with threads := st.threads.goto t p }

/-- The call of thread `t` returns. -/
def ret (t : Nat) (result : AxResult Nat) (out : List EpollEvent) :
    EpollInner :=
  st.goto t (.returned result out)

def setFlag (id : Nat) (b : Bool) : EpollInner :=
  { st with objects := st.objects.modify id (fun interest => { interest with inReadyQueue := b }) }

/-! ## §3. The sections of the calls. -/

/-- A new interest is stored under its key; checking it is next. -/
def place (t : Nat) (key : EntryKey) (interest : EpollInterest) : EpollInner :=
  { st with
    objects := st.objects ++ [interest]
    interests := st.interests.insert key st.objects.length
    threads := st.threads.goto t (.check st.objects.length) }

/-- `Epoll::add`, up to the end of its lock section.  `file` is what
`get_file_like` finds under the descriptor. -/
def add (t : Nat) (fd : Int) (file : Option Nat) (event : EpollEvent)
    (flags : EpollFlags) : EpollInner :=
  match file with
  | none => st.ret t (.error .badFileDescriptor) []
  | some file =>
    let key : EntryKey := ⟨fd, file⟩
    match st.interests.lookup key with
    | some _ => st.ret t (.error .alreadyExists) []
    | none => st.place t key (.new key event flags)

/-- `Epoll::modify`, up to the end of its lock section. -/
def modify (t : Nat) (fd : Int) (file : Option Nat) (event : EpollEvent)
    (flags : EpollFlags) : EpollInner :=
  match file with
  | none => st.ret t (.error .badFileDescriptor) []
  | some file =>
    let key : EntryKey := ⟨fd, file⟩
    match st.interests.lookup key with
    | none => st.ret t (.error .notFound) []
    | some old =>
      let interest : EpollInterest := .new key event flags
      -- update the new interest if the old one is already in the ready queue
      let interest := if st.flag old = some true then { interest with inReadyQueue := true }
        else interest
      st.place t key interest

/-- `Epoll::delete`. -/
def delete (t : Nat) (fd : Int) (file : Option Nat) : EpollInner :=
  match file with
  | none => st.ret t (.error .badFileDescriptor) []
  | some file =>
    match st.interests.lookup ⟨fd, file⟩ with
    | none => st.ret t (.error .notFound) []
    | some _ =>
      { st with
        interests := st.interests.erase ⟨fd, file⟩
        threads := st.threads.goto t (.returned (.ok 0) []) }

/-- The waker of an interest fires. -/
def wake (t id : Nat) : EpollInner :=
  if st.upgrades id then st.goto t (.waking id) else st.ret t (.ok 0) []

/-- `file.register` with the waker of an interest.  A file that calls the waker at once is a
`wake` by another thread here. -/
def register (id : Nat) : EpollInner := { st with wakers := id :: st.wakers }

/-- `poll_events` leaves its loop. -/
def finish (t : Nat) (out : List EpollEvent) : EpollInner :=
  st.ret t (if out.length = 0 then .error .wouldBlock else .ok out.length) out

/-- The next step of a thread inside a call.  `file` is the answer of the file
where one is asked: that it is closed, or the events that are ready. -/
def advance (t : Nat) (file : Option UInt32) : EpollPoint → Option EpollInner
  | .returned _ _ => none
  | .check id => do
    let interest ← st.objects[id]?
    match file with
    | none => return st.ret t (.ok 0) []
    | some current =>
      if !interest.mode.isEnabled then return st.ret t (.ok 0) []
      else if current &&& interest.event.events ≠ 0 then return st.goto t (.waking id)
      else return st.goto t (.arm id)
  | .arm id => some ((st.register id).goto t (.recheck id))
  | .recheck id => do
    let interest ← st.objects[id]?
    let current ← file
    if current &&& interest.event.events ≠ 0 then return st.goto t (.waking id)
    else return st.ret t (.ok 0) []
  | .waking id =>
    -- the compare-exchange of `try_mark_in_queue`
    if st.flag id = some false then some ((st.setFlag id true).goto t (.marked id))
    else some (st.ret t (.ok 0) [])
  | .marked id => some ({ st with readyQueue := st.readyQueue ++ [id] }.ret t (.ok 0) [])
  | .popping out len =>
    match st.readyQueue with
    | [] => some (st.finish t out)
    | id :: rest => some ({ st with readyQueue := rest }.goto t (.popped id out len))
  | .popped id out len =>
    if len ≤ out.length then
      some ({ st with readyQueue := id :: st.readyQueue }.finish t out)
    else if st.upgrades id then some (st.goto t (.held id out len))
    -- interest already removed
    else some (st.goto t (.popping out len))
  | .held id out len => do
    let interest ← st.objects[id]?
    match file with
    | none =>
      -- file already closed: remove the key
      return { st with interests := st.interests.erase interest.key }.goto t
        (.closing id out len)
    | some current =>
      let st := { st with objects := st.objects.set id (interest.consume current).2 }
      match (interest.consume current).1 with
      | .eventAndKeep event => return st.goto t (.keep id (out ++ [event]) len)
      | .eventAndRemove event => return st.goto t (.remove id (out ++ [event]) len)
      | .noEvent => return st.goto t (.remove id out len)
  | .closing id out len => some ((st.setFlag id false).goto t (.popping out len))
  | .keep id out len =>
    some ({ st with readyQueue := st.readyQueue ++ [id] }.goto t (.popping out len))
  | .remove id out len => some ((st.setFlag id false).goto t (.rearm id out len))
  | .rearm id out len => do
    let interest ← st.objects[id]?
    -- `register_waker_only`
    if file.isSome && interest.mode.isEnabled then
      return (st.register id).goto t (.popping out len)
    else return st.goto t (.popping out len)

end EpollInner

/-! ## §4. The system. -/

/-- A thread begins a call, or takes the next step of the call it is in. -/
inductive EpollOp where
  | add (t : Nat) (fd : Int) (file : Option Nat) (event : EpollEvent) (flags : EpollFlags)
  | modify (t : Nat) (fd : Int) (file : Option Nat) (event : EpollEvent) (flags : EpollFlags)
  | delete (t : Nat) (fd : Int) (file : Option Nat)
  | wake (t id : Nat)
  | pollEvents (t len : Nat)
  | advance (t : Nat) (file : Option UInt32)

/-- The thread that moves. -/
def EpollOp.thread : EpollOp → Nat
  | .add t _ _ _ _ => t
  | .modify t _ _ _ _ => t
  | .delete t _ _ => t
  | .wake t _ => t
  | .pollEvents t _ => t
  | .advance t _ => t

/-- The step function of the system. -/
def epollStep (st : EpollInner) (op : EpollOp) : Option EpollInner :=
  match op with
  | .advance t file => st.advance t file (st.threads.pc t)
  | _ =>
    if !(st.threads.pc op.thread).atRest then none
    else match op with
      | .add t fd file event flags => some (st.add t fd file event flags)
      | .modify t fd file event flags => some (st.modify t fd file event flags)
      | .delete t fd file => some (st.delete t fd file)
      -- a waker fires as often as it likes once it is registered
      | .wake t id => if id ∈ st.wakers then some (st.wake t id) else none
      | .pollEvents t len => some (st.goto t (.popping [] len))
      | .advance _ _ => none

/-- `Epoll::new`. -/
def newEpoll : EpollInner where
  interests := .empty
  readyQueue := []
  objects := []
  wakers := []
  threads := .initial

end StarryOS.File
