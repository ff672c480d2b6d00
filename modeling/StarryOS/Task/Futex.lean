/-
  StarryOS.Task.Futex — FUTEXES: wait queues, the table, and `sys_futex` step by
  step.

  A `FutexTable` maps keys to entries, an entry has a queue of waiters.  A call
  gets a GUARD (a counted reference to the entry) under the lock of the table,
  works on the queue under the lock of the queue, and drops the guard, which
  may remove the key from the table again:

      wait      get_or_insert; poll (push the waker); …; poll again; drop
      wake      get; wake; drop
      requeue   get; get_or_insert; wake; drain; extend; drop both
      drop      strong_count; is_empty; remove the key; release the reference

  Every line is cut where another thread can come in between.  Entries are
  allocated and never reused: `entries` is the list of all of them, and a
  pointer is an index.
-/
import StarryOS.Lib.Threads
import StarryOS.Errno

namespace StarryOS.Task

open Lib

/-! ## §1. Wait queues. -/

/-- A waker and its bitset. -/
abbrev Waiter := Nat × UInt32

/-- The `retain` of `WaitQueue::wake`: what stays and what is woken, when `woke`
were woken before. -/
def wakeLoop (count : Nat) (mask : UInt32) : List Waiter → Nat → List Waiter × List Waiter
  | [], _ => ([], [])
  | w :: rest, woke =>
    if count ≤ woke ∨ w.2 &&& mask = 0 then
      let r := wakeLoop count mask rest woke
      (w :: r.1, r.2)
    else
      let r := wakeLoop count mask rest (woke + 1)
      (r.1, w :: r.2)

/-- An entry of the table. -/
structure FutexEntry where
  /-- The key under which the entry was made. -/
  key : Nat
  wq : List Waiter
  /-- Used by the robust list: the owner of this futex is dead. -/
  ownerDead : Bool

/-- `FutexGuard`: a key, and a strong reference to the entry found there. -/
structure FutexGuard where
  key : Nat
  entry : Nat

/-! ## §2. Threads and the shared state. -/

/-- Where a thread is in `sys_futex` or `handle_futex_death`. -/
inductive FutexPoint where
  /-- Outside; the last call returned this. -/
  | returned (result : AxResult Nat)
  /-- `wait_if` has not been polled yet. -/
  | guarded (g : FutexGuard) (value bitset : UInt32)
  /-- Parked.  `home` is the queue where the thread counts as waiting: that of
  `g`, until a requeue moves it. -/
  | blocked (g : FutexGuard) (bitset : UInt32) (home : Nat)
  /-- Unparked; `wait_if` is polled again. -/
  | runnable (g : FutexGuard)
  /-- `wait_if` returned `true`; `owner_dead` is read next. -/
  | resumed (g : FutexGuard)
  /-- `handle_futex_death`, before `owner_dead` is set. -/
  | dying (g : FutexGuard)
  /-- `wake` is next; the number of woken threads is reported or dropped. -/
  | waking (g : FutexGuard) (count : Nat) (mask : UInt32) (report : Bool)
  /-- Requeue, before `get_or_insert` of the target. -/
  | requeueGet (g : Option FutexGuard) (key2 value value2 : Nat)
  /-- Requeue, before `wake`. -/
  | requeueWake (g : Option FutexGuard) (g2 : FutexGuard) (value value2 : Nat)
  /-- Requeue, before the source queue is drained. -/
  | draining (g g2 : FutexGuard) (count value2 : Nat)
  /-- Requeue, with waiters in hand, before the target queue is extended. -/
  | extending (g g2 : FutexGuard) (tasks : List Waiter) (count : Nat)
  /-- Guards are dropped in this order; `strong_count` is next. -/
  | dropping (gs : List FutexGuard) (result : AxResult Nat)
  /-- The count was at most 2; `is_empty` is next. -/
  | counted (g : FutexGuard) (gs : List FutexGuard) (result : AxResult Nat)
  /-- The queue was empty; the key is removed next. -/
  | removing (g : FutexGuard) (gs : List FutexGuard) (result : AxResult Nat)
  /-- The reference itself is released next. -/
  | releasing (g : FutexGuard) (gs : List FutexGuard) (result : AxResult Nat)

instance : Inhabited FutexPoint := ⟨.returned (.ok 0)⟩

namespace FutexPoint

/-- The guards that a thread holds. -/
def guards : FutexPoint → List FutexGuard
  | .returned _ => []
  | .guarded g _ _ => [g]
  | .blocked g _ _ => [g]
  | .runnable g => [g]
  | .resumed g => [g]
  | .dying g => [g]
  | .waking g _ _ _ => [g]
  | .requeueGet g _ _ _ => g.toList
  | .requeueWake g g2 _ _ => g.toList ++ [g2]
  | .draining g g2 _ _ => [g, g2]
  | .extending g g2 _ _ => [g, g2]
  | .dropping gs _ => gs
  | .counted g gs _ => g :: gs
  | .removing g gs _ => g :: gs
  | .releasing g gs _ => g :: gs

/-- The thread is not inside a call. -/
def atRest : FutexPoint → Bool
  | .returned _ => true
  | _ => false

end FutexPoint

/-- `FutexTable`, the entries it points to, and the threads. -/
structure FutexTable where
  table : Table Nat Nat
  entries : List FutexEntry
  threads : Threads FutexPoint

/-- What a waker does to its thread: one that is parked is unparked. -/
def unpark : FutexPoint → FutexPoint
  | .blocked g _ _ => .runnable g
  | p => p

/-- A waiter of queue `source` now counts as waiting in queue `target`. -/
def rehome (source target : Nat) : FutexPoint → FutexPoint
  | .blocked g bitset home => .blocked g bitset (if home = source then target else home)
  | p => p

/-- `u32::MAX`, the mask that every bitset but the empty one intersects. -/
def anyBit : UInt32 := 0xFFFFFFFF

namespace FutexTable

variable (st : FutexTable)

/-- The wait queue of an entry. -/
def queue (e : Nat) : List Waiter :=
  (st.entries[e]?.map (fun entry => entry.wq)).getD []

def setQueue (e : Nat) (wq : List Waiter) : FutexTable :=
  { st with entries := st.entries.modify e (fun entry => { entry with wq := wq }) }

def setOwnerDead (e : Nat) (b : Bool) : FutexTable :=
  { st with entries := st.entries.modify e (fun entry => { entry with ownerDead := b }) }

def goto (st : FutexTable) (t : Nat) (p : FutexPoint) : FutexTable :=
  { st with threads := st.threads.goto t p }

/-- `Arc::strong_count`: one reference in the table, one in every guard. -/
def strongCount (e : Nat) : Nat :=
  st.table.count (fun _ e' => e' == e)
    + st.threads.total (fun p => p.guards.countP (fun g => g.entry == e))

/-! ## §3. The sections of the calls. -/

/-- `FutexTable::get`. -/
def get (key : Nat) : Option FutexGuard :=
  (st.table.lookup key).map (fun e => ⟨key, e⟩)

/-- `FutexTable::get_or_insert`. -/
def getOrInsert (key : Nat) : FutexTable × FutexGuard :=
  match st.table.lookup key with
  | some e => (st, ⟨key, e⟩)
  | none =>
    ({ st with
        table := st.table.insert key st.entries.length
        entries := st.entries ++ [⟨key, [], false⟩] }, ⟨key, st.entries.length⟩)

/-- `WaitQueue::wake`, and how many it woke. -/
def wake (e count : Nat) (mask : UInt32) : FutexTable × Nat :=
  let r := wakeLoop count mask (st.queue e) 0
  ({ st.setQueue e r.1 with threads := st.threads.updateAll unpark (r.2.map Prod.fst) }, r.2.length)

/-- The first section of `WaitQueue::requeue`. -/
def drain (e count : Nat) : FutexTable × List Waiter :=
  let n := min count (st.queue e).length
  (st.setQueue e ((st.queue e).drop n), (st.queue e).take n)

/-- The second section of `WaitQueue::requeue`. -/
def extend (source target : Nat) (tasks : List Waiter) : FutexTable :=
  { st.setQueue target (st.queue target ++ tasks) with
    threads := st.threads.updateAll (rehome source target) (tasks.map Prod.fst) }

/-- A poll of the future of `wait_if`.  `interrupted` is the answer of
`poll_interrupt`, `word` what is read at the address, `expired` whether the
deadline has passed already. -/
def poll (t : Nat) (interrupted : Bool) (word : AxResult UInt32)
    (expired : Bool) : FutexPoint → Option FutexTable
  | .guarded g value bitset =>
    if interrupted then some (st.goto t (.dropping [g] (.error .interrupted)))
    else if word.toOption ≠ some value then
      some (st.goto t (.dropping [g] (.error .wouldBlock)))
    else
      let st := st.setQueue g.entry (st.queue g.entry ++ [(t, bitset)])
      -- the timer is asked after the waker was pushed
      if expired then some (st.goto t (.dropping [g] (.error .timedOut)))
      else some (st.goto t (.blocked g bitset g.entry))
  | .runnable g =>
    if interrupted then some (st.goto t (.dropping [g] (.error .interrupted)))
    -- whatever unparked the thread
    else some (st.goto t (.resumed g))
  | _ => none

/-- The next step of a thread inside a call. -/
def advance (t : Nat) : FutexPoint → Option FutexTable
  | .resumed g =>
    match st.entries[g.entry]? with
    | none => none
    | some entry =>
      some ((st.setOwnerDead g.entry false).goto t (.dropping [g]
        (if entry.ownerDead then .error .ownerDead else .ok 0)))
  | .dying g => some ((st.setOwnerDead g.entry true).goto t (.waking g 1 anyBit false))
  | .waking g count mask report =>
    let r := st.wake g.entry count mask
    some (r.1.goto t (.dropping [g] (.ok (if report then r.2 else 0))))
  | .requeueGet g key2 value value2 =>
    let r := st.getOrInsert key2
    some (r.1.goto t (.requeueWake g r.2 value value2))
  | .requeueWake none g2 _ _ => some (st.goto t (.dropping [g2] (.ok 0)))
  | .requeueWake (some g) g2 value value2 =>
    let r := st.wake g.entry value anyBit
    if r.2 = value then some (r.1.goto t (.draining g g2 r.2 value2))
    else some (r.1.goto t (.dropping [g, g2] (.ok r.2)))
  | .draining g g2 count value2 =>
    let r := st.drain g.entry value2
    some (r.1.goto t (.extending g g2 r.2 (count + r.2.length)))
  | .extending g g2 tasks count =>
    some ((st.extend g.entry g2.entry tasks).goto t (.dropping [g, g2] (.ok count)))
  | .dropping [] result => some (st.goto t (.returned result))
  | .dropping (g :: gs) result =>
    if st.strongCount g.entry ≤ 2 then some (st.goto t (.counted g gs result))
    else some (st.goto t (.releasing g gs result))
  | .counted g gs result =>
    if (st.queue g.entry).isEmpty then some (st.goto t (.removing g gs result))
    else some (st.goto t (.releasing g gs result))
  | .removing g gs result =>
    some ({ st with table := st.table.erase g.key }.goto t (.releasing g gs result))
  | .releasing _ gs result => some (st.goto t (.dropping gs result))
  | _ => none

end FutexTable

/-! ## §4. The system. -/

/-- A thread begins a call, or the call that it is in goes on. -/
inductive FutexOp where
  /-- `FUTEX_WAIT`, up to `get_or_insert`; `word` is what the fast path reads. -/
  | wait (t key : Nat) (value bitset : UInt32) (word : AxResult UInt32)
  /-- `FUTEX_WAKE`, up to `get`. -/
  | wake (t key count : Nat) (mask : UInt32)
  /-- `FUTEX_REQUEUE`, up to `get`; `same` is the comparison of `FUTEX_CMP_REQUEUE`. -/
  | requeue (t key key2 : Nat) (value value2 : UInt32) (same : Bool)
  /-- `handle_futex_death`, up to `get`. -/
  | death (t key : Nat)
  /-- `wait_if` is polled. -/
  | poll (t : Nat) (interrupted : Bool) (word : AxResult UInt32) (expired : Bool)
  /-- A timer, a signal or a stray waker unparks the thread. -/
  | stir (t : Nat)
  | advance (t : Nat)

/-- `assert_unsigned`. -/
def assertUnsigned (value : UInt32) : Bool := value.toNat < 2 ^ 31

namespace FutexTable

/-- A call begins. -/
def begin (st : FutexTable) : FutexOp → Option FutexTable
  | .wait t key value bitset word =>
    match word with
    | .error e => some (st.goto t (.returned (.error e)))
    | .ok w =>
      if w ≠ value then some (st.goto t (.returned (.error .wouldBlock)))
      else
        let r := st.getOrInsert key
        some (r.1.goto t (.guarded r.2 value bitset))
  | .wake t key count mask =>
    match st.get key with
    | none => some (st.goto t (.returned (.ok 0)))
    | some g => some (st.goto t (.waking g count mask true))
  | .requeue t key key2 value value2 same =>
    if !assertUnsigned value then some (st.goto t (.returned (.error .invalidInput)))
    else if !same then some (st.goto t (.returned (.error .wouldBlock)))
    else if !assertUnsigned value2 then some (st.goto t (.returned (.error .invalidInput)))
    else some (st.goto t (.requeueGet (st.get key) key2 value.toNat value2.toNat))
  | .death t key =>
    match st.get key with
    | none => some (st.goto t (.returned (.ok 0)))
    | some g => some (st.goto t (.dying g))
  | _ => none

end FutexTable

/-- The thread that moves. -/
def FutexOp.thread : FutexOp → Nat
  | .wait t _ _ _ _ => t
  | .wake t _ _ _ => t
  | .requeue t _ _ _ _ _ => t
  | .death t _ => t
  | .poll t _ _ _ => t
  | .stir t => t
  | .advance t => t

/-- The step function of the system. -/
def futexStep (st : FutexTable) (op : FutexOp) : Option FutexTable :=
  match op with
  | .poll t interrupted word expired => st.poll t interrupted word expired (st.threads.pc t)
  | .stir t =>
    match st.threads.pc t with
    | .blocked g _ _ => some (st.goto t (.runnable g))
    | _ => none
  | .advance t => st.advance t (st.threads.pc t)
  | op => if (st.threads.pc op.thread).atRest then st.begin op else none

/-- `FutexTable::new`. -/
def newFutexTable : FutexTable where
  table := .empty
  entries := []
  threads := .initial

end StarryOS.Task
