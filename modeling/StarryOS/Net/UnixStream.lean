/-
  StarryOS.Net.UnixStream — UNIX STREAM SOCKETS
  (`modules/axnet-ng/src/unix/stream.rs`, the pollers of
  `modules/axnet-ng/src/general.rs`).

  A connected pair has two rings of bytes, one for each direction.  An end holds
  the writing half of one ring and the reading half of the other in its `channel`:

      send       channel.lock(); is the reader held?  copy into the two vacant
                 slices, advance; wake `poll_update`; Ok, or try again
      recv       channel.lock(); copy the two used slices out, advance; wake, Ok;
                 if nothing was copied, try again
      shutdown   two flags; once both are set the channel is taken and dropped
      drop       wake `poll_update`; the channel goes

  The lock is held for the whole closure.  So the copy, the wake after it and
  the result are ONE step, and the lock is a step before it.

  Closing is in three places, the flags, the channel and the halves of the rings,
  and `recv` looks at none of them when it has copied nothing.  Every run delivers
  a prefix of what was sent; but no `recv` at the end of the stream returns `Ok(0)`
  (`stream_is_fifo`, `recv_after_close_blocks`).
-/
import StarryOS.File.Pipe

namespace StarryOS.Net

open Lib StarryOS.Task Threads Function RingBuffer IoPoint
open File.PipeState (copied filled copied_le filled_spec)

/-! ## §1. The two ends. -/

/-- `new_pair` returns two transports. -/
inductive Side where
  | first
  | second
  deriving Repr, DecidableEq

def Side.peer : Side → Side
  | .first => .second
  | .second => .first

@[simp] theorem Side.peer_peer (s : Side) : s.peer.peer = s := by cases s <;> rfl

/-- Where the channel of an end is. -/
inductive ChannelState where
  /-- `Some(channel)`. -/
  | connected
  /-- `shutdown` has taken it and has not dropped it yet. -/
  | taken
  /-- It is dropped, with its halves of both rings. -/
  | released
  deriving Repr, DecidableEq

/-- One end. -/
structure StreamTransport where
  channel : ChannelState
  /-- The owner of the lock of `channel`. -/
  lockedBy : Option Nat
  rxClosed : Bool
  txClosed : Bool
  /-- `Drop` has run. -/
  dropped : Bool
  nonBlocking : Bool
  /-- `send_timeout()` and `recv_timeout()` are not `None`. -/
  sendTimeout : Bool
  recvTimeout : Bool
  /-- The threads whose wakers are registered. -/
  pollState : List Nat
  deriving Repr, DecidableEq

/-- What the closure of `send` has captured; `id` tells the calls apart. -/
structure SendCall where
  side : Side
  timed : Bool
  id : Nat
  size : Nat
  total : Nat
  /-- `non_blocking`. -/
  nonBlocking : Bool
  deriving Repr, DecidableEq

/-- `total += count`. -/
def SendCall.add (c : SendCall) (count : Nat) : SendCall := { c with total := c.total + count }

/-- The two calls. -/
inductive StreamIo where
  | recv (side : Side) (timed : Bool)
  | send (c : SendCall)
  deriving Repr, DecidableEq

def StreamIo.side : StreamIo → Side
  | .recv side _ => side
  | .send c => c.side

def StreamIo.timed : StreamIo → Bool
  | .recv _ timed => timed
  | .send c => c.timed

/-- Where a thread is in the closure. -/
inductive StreamPos where
  /-- `self.channel.lock()`. -/
  | lock
  /-- The lock is held and the tests have passed. -/
  | copy
  deriving Repr, DecidableEq

abbrev StreamCall := IoCall StreamIo StreamPos

abbrev StreamPoint := IoPoint StreamIo StreamPos

/-- A connected pair and the threads that use it. -/
structure StreamPair where
  ends : Side → StreamTransport
  /-- The ring that an end writes to. -/
  rings : Side → RingBuffer UInt8
  /-- The wakers of `poll_update`, which both ends share. -/
  pollUpdate : List Nat
  threads : Threads StreamPoint
  nextId : Nat
  /-- The bytes that sends have put into the ring of an end; nobody reads this. -/
  sent : Side → List (Nat × UInt8)
  /-- The bytes that receives at an end have taken out; nobody reads this. -/
  received : Side → Bytes
  /-- What the sends have returned; nobody reads this. -/
  finished : List (SendCall × AxResult Nat)

namespace StreamPair

/-- `BUF_SIZE`. -/
def bufSize : Nat := 64 * 1024

/-- `new_channel`. -/
def transport : StreamTransport :=
  { channel := .connected, lockedBy := none, rxClosed := false, txClosed := false, dropped := false,
    nonBlocking := false, sendTimeout := false, recvTimeout := false, pollState := [] }

/-- `StreamTransport::new_pair`. -/
def newPair : StreamPair where
  ends := fun _ => transport
  rings := fun _ => .new bufSize (by decide) 0
  pollUpdate := []
  threads := .initial
  nextId := 0
  sent := fun _ => []
  received := fun _ => []
  finished := []

/-! ## §2. Steps. -/

/-- The thread goes on at `p`.  A call that returns leaves no waker behind that could do more
than unpark. -/
def settle (st : StreamPair) (t : Nat) (io : StreamIo) : StreamPoint → StreamPair
  | .inside call => { st with threads := st.threads.goto t (.inside call) }
  | .returned result => { st with
      threads := st.threads.goto t (.returned result)
      pollUpdate := st.pollUpdate.filter (· ≠ t)
      ends := fun side =>
        { st.ends side with pollState := (st.ends side).pollState.filter (· ≠ t) }
      finished := match io with
        | .recv _ _ => st.finished
        | .send c => (c, result) :: st.finished }

section Settle

variable (st : StreamPair) (t : Nat) (io : StreamIo) (p : StreamPoint)

@[simp] theorem settle_threads : (st.settle t io p).threads = st.threads.goto t p := by
  cases p <;> rfl

end Settle

variable (st : StreamPair) (side : Side)

/-- `poll_update.wake()`. -/
def wakeUpdate : StreamPair :=
  { st with threads := st.threads.updateAll IoPoint.wake st.pollUpdate, pollUpdate := [] }

/-- `if count > 0 { chan.poll_update.wake() }`. -/
def woken (count : Nat) : StreamPair := if 0 < count then st.wakeUpdate else st

def setEnd (e : StreamTransport) : StreamPair :=
  { st with ends := update st.ends side e }

/-- `self.poll_state.wake()`. -/
def wakeState : StreamPair :=
  { st.setEnd side { st.ends side with pollState := [] } with
    threads := st.threads.updateAll IoPoint.wake (st.ends side).pollState }

def unlock : StreamPair :=
  st.setEnd side { st.ends side with lockedBy := none }

/-- `Pollable::register`: the lock of the channel is taken and released. -/
def register (t : Nat) (side : Side) : StreamPair :=
  { st.setEnd side { st.ends side with pollState := t :: (st.ends side).pollState } with
    pollUpdate := if (st.ends side).channel = .connected then t :: st.pollUpdate
      else st.pollUpdate }

/-- `chan.tx.read_is_held()`: the other end has not dropped its channel. -/
def readIsHeld : Bool :=
  (st.ends side.peer).channel ≠ .released

/-- The thread holds the lock and goes on to the copy. -/
def locked (t : Nat) (call : StreamCall) : StreamPair :=
  (st.setEnd call.io.side { st.ends call.io.side with lockedBy := some t }).settle t call.io
    (.inside (call.goto .copy))

/-- The beginning of both closures: the lock, and the tests under it. -/
def enter (t : Nat) (call : StreamCall) : Option StreamPair :=
  if (st.ends call.io.side).lockedBy.isSome then none
  else if (st.ends call.io.side).channel ≠ .connected then
    some (st.settle t call.io (call.finish (.error .notConnected)))
  else
    match call.io with
    | .recv _ _ => some (st.locked t call)
    | .send c =>
      if st.readIsHeld c.side then some (st.locked t call)
      else some (st.settle t call.io (call.finish (.error .brokenPipe)))

/-- The next step of a thread; the copy is another event. -/
def next (t : Nat) : Option StreamPair :=
  match st.threads.pc t with
  | .returned _ => none
  | .inside call =>
    match call.phase with
    | .first .lock => st.enter t call
    | .second .lock => st.enter t call
    | .first .copy => none
    | .second .copy => none
    | .registering =>
      if (st.ends call.io.side).lockedBy.isSome then none
      else some ((st.register t call.io.side).settle t call.io
        (.inside { call with phase := .second .lock }))
    | _ => (call.loop .lock).map (fun call => st.settle t call.io (.inside call))

/-- A thread whose own waker is in `poll_update` wakes itself. -/
def selfWoken (t : Nat) (call : StreamCall) (count : Nat) : StreamCall :=
  { call with woke := call.woke || (decide (0 < count) && st.pollUpdate.contains t) }

/-- What `send` makes of the count of one attempt. -/
def sendResult (c : SendCall) (count : Nat) : AxResult Nat :=
  if count = c.size ∨ c.nonBlocking = true then .ok (c.total + count) else .error .wouldBlock

/-- What `recv` makes of it. -/
def recvResult (count : Nat) : AxResult Nat :=
  if 0 < count then .ok count else .error .wouldBlock

/-- `advance_write_index(count)`, once the vacant slices are filled. -/
def fillRing (c : SendCall) (left right : Bytes) (count : Nat) :
    StreamPair :=
  { st with
    rings := update st.rings c.side
      (((st.rings c.side).fill left right).advanceWrite count)
    sent := update st.sent c.side
      (st.sent c.side ++ (left ++ right).map (fun b => (c.id, b))) }

/-- `advance_read_index(count)`. -/
def drainRing (count : Nat) : StreamPair :=
  { st with
    rings := update st.rings side.peer ((st.rings side.peer).advanceRead count)
    received := update st.received side
      (st.received side ++ (st.rings side.peer).contents.take count) }

/-- The rest of the closure of `send`. -/
def put (t : Nat) (call : StreamCall) (c : SendCall) (left right : Bytes)
    (count : Nat) : StreamPair :=
  let call : StreamCall := { st.selfWoken t call count with io := .send (c.add count) }
  (((st.fillRing c left right count).woken count).unlock c.side).settle t call.io
    (call.finish (sendResult c count))

/-- The rest of the closure of `recv`. -/
def took (t : Nat) (call : StreamCall) (side : Side) (count : Nat) : StreamPair :=
  let call := st.selfWoken t call count
  (((st.drainRing side count).woken count).unlock side).settle t call.io
    (call.finish (recvResult count))

def copyIn (t : Nat) (left right : AxResult Bytes) :
    Option StreamPair :=
  match st.threads.pc t with
  | .returned _ => none
  | .inside call =>
    match call.pos?, call.io with
    | some .copy, .send c =>
      (filled (st.rings c.side).vacantSlices (c.size - c.total) left right).map fun
        | .error e => (st.unlock c.side).settle t call.io (call.finish (.error e))
        | .ok (ls, rs) => st.put t call c ls rs (ls.length + rs.length)
    | _, _ => none

def copyOut (t : Nat) (left right : AxResult Nat) : Option StreamPair :=
  match st.threads.pc t with
  | .returned _ => none
  | .inside call =>
    match call.pos?, call.io with
    | some .copy, .recv side _ =>
      (copied (st.rings side.peer).asSlices left right).map fun
        | .error e => (st.unlock side).settle t call.io (call.finish (.error e))
        | .ok count => st.took t call side count
    | _, _ => none

/-- What `send` captures. -/
def captured (size : Nat) : SendCall where
  side := side
  timed := (st.ends side).sendTimeout
  id := st.nextId
  size := size
  total := 0
  nonBlocking := (st.ends side).nonBlocking

/-- `send`, up to `block_on`; `size` is `src.remaining()`.  The flag is loaded twice, by `send` and
by `send_poller`, and may be set `between`. -/
def send (st : StreamPair) (t : Nat) (side : Side) (hasTo : Bool) (size : Nat)
    (between : Option Bool) : StreamPair :=
  let c := st.captured side size
  let flag := between.getD (st.ends side).nonBlocking
  let st := { st with nextId := st.nextId + 1 }
  if hasTo then st.settle t (.send c) (.returned (.error .invalidInput))
  else (st.setEnd side { st.ends side with nonBlocking := flag }).settle t (.send c)
    (.inside (.start (.send c) flag))

/-- `recv`, up to `block_on`. -/
def recv (st : StreamPair) (t : Nat) (side : Side) : StreamPair :=
  let e := st.ends side
  st.settle t (.recv side e.recvTimeout)
    (.inside (.start (.recv side e.recvTimeout) e.nonBlocking))

/-- The call uses the end. -/
def uses (p : StreamPoint) : Bool :=
  match p.call? with
  | some call => call.io.side = side
  | none => false

end StreamPair

/-- What may happen. -/
inductive StreamOp where
  | send (t : Nat) (side : Side) (hasTo : Bool) (size : Nat) (between : Option Bool)
  | recv (t : Nat) (side : Side)
  | next (t : Nat)
  | copyIn (t : Nat) (left right : AxResult Bytes)
  | copyOut (t : Nat) (left right : AxResult Nat)
  /-- `poll_interrupt` says that the thread was interrupted. -/
  | interrupted (t : Nat)
  /-- The deadline of `timeout` has passed. -/
  | timedOut (t : Nat)
  | unpark (t : Nat)
  | setNonblocking (side : Side) (nonBlocking : Bool)
  | setTimeout (side : Side) (isSend timed : Bool)
  /-- `shutdown` of the read half, or of the write half. -/
  | closeRx (side : Side)
  | closeTx (side : Side)
  /-- `shutdown` takes the channel. -/
  | take (side : Side)
  /-- `Drop`, up to the fields. -/
  | drop (side : Side)
  /-- A channel that was taken, or whose end is dropped, goes with its halves. -/
  | release (side : Side)

/-- The thread that moves. -/
def StreamOp.thread : StreamOp → Option Nat
  | .send t _ _ _ _ => some t
  | .recv t _ => some t
  | .next t => some t
  | .copyIn t _ _ => some t
  | .copyOut t _ _ => some t
  | .interrupted t => some t
  | .timedOut t => some t
  | .unpark t => some t
  | _ => none

namespace StreamPair

def step (st : StreamPair) : StreamOp → Option StreamPair
  | .send t side hasTo size between =>
    if (st.threads.pc t).atRest ∧ (st.ends side).dropped = false then
      some (st.send t side hasTo size between)
    else none
  | .recv t side =>
    if (st.threads.pc t).atRest ∧ (st.ends side).dropped = false then some (st.recv t side)
    else none
  | .next t => st.next t
  | .copyIn t left right => st.copyIn t left right
  | .copyOut t left right => st.copyOut t left right
  | .interrupted t =>
    match st.threads.pc t with
    | .inside ⟨io, _, _, .polling⟩ => some (st.settle t io (.returned (.error .interrupted)))
    | _ => none
  | .timedOut t =>
    match st.threads.pc t with
    | .inside ⟨io, _, _, .parking⟩ =>
      if io.timed then some (st.settle t io (.returned (.error .timedOut))) else none
    | _ => none
  | .unpark t => (st.threads.pc t).unpark.map (fun p => { st with threads := st.threads.goto t p })
  | .setNonblocking side nonBlocking =>
    if (st.ends side).dropped then none
    else some (st.setEnd side { st.ends side with nonBlocking := nonBlocking })
  | .setTimeout side isSend timed =>
    if (st.ends side).dropped then none
    else some (st.setEnd side (if isSend then { st.ends side with sendTimeout := timed }
      else { st.ends side with recvTimeout := timed }))
  | .closeRx side =>
    if (st.ends side).dropped then none
    else some ((st.setEnd side { st.ends side with rxClosed := true }).wakeState side)
  | .closeTx side =>
    if (st.ends side).dropped then none
    else some ((st.setEnd side { st.ends side with txClosed := true }).wakeState side)
  | .take side =>
    let e := st.ends side
    if e.rxClosed ∧ e.txClosed ∧ e.channel = .connected ∧ e.lockedBy = none then
      some (st.setEnd side { e with channel := .taken }).wakeUpdate
    else none
  | .drop side =>
    let e := st.ends side
    if e.dropped = false ∧ st.threads.any (uses side) = false then
      let st := st.setEnd side { e with dropped := true }
      some (if e.channel = .connected then st.wakeUpdate else st)
    else none
  | .release side =>
    let e := st.ends side
    if e.channel = .taken ∨ (e.dropped = true ∧ e.channel = .connected) then
      some (st.setEnd side { e with channel := .released })
    else none

/-! ## §3. Who moves. -/

variable {st st' : StreamPair} {t : Nat}

section Moving

theorem woken_threads (count : Nat) :
    ∃ l, (st.woken count).threads = st.threads.updateAll wake l := by
  unfold woken
  split
  · exact ⟨st.pollUpdate, rfl⟩
  · exact ⟨[], rfl⟩

/-- **The other threads** are where they were, or woken. -/
def Moved (st st' : StreamPair) (o : Option Nat) : Prop :=
  ∀ u, o ≠ some u → st'.threads.pc u = st.threads.pc u ∨ st'.threads.pc u = (st.threads.pc u).wake

theorem moved_woken {o : Option Nat} {l : List Nat}
    (h : st'.threads = st.threads.updateAll wake l) : Moved st st' o := by
  intro u _
  rw [h, pc_updateAll wake_wake]
  split
  · exact .inr rfl
  · exact .inl rfl

theorem moved_settle {o : Option Nat} {l : List Nat} {io : StreamIo} {p : StreamPoint}
    (ho : o = some t) (h : st'.threads = st.threads.updateAll wake l) :
    Moved st (st'.settle t io p) o := by
  intro u hu
  rw [settle_threads, pc_goto, if_neg (fun he => hu (ho.trans (congrArg some he.symm)))]
  exact moved_woken h u hu

theorem enter_cases {call : StreamCall} (hs : st.enter t call = some st') : st' = st.locked t call
      ∨ ∃ e, e ≠ .wouldBlock ∧ st' = st.settle t call.io (call.finish (.error e)) := by
  unfold enter at hs
  cases hio : call.io with
  | recv side timed => grind
  | send c => grind

end Moving

/-! ## §4. What a step does. -/

variable (p : StreamPoint)

/-- The send that a thread is in. -/
def sending : Option SendCall :=
  match p with
  | .inside ⟨.send c, _, _, _⟩ => some c
  | _ => none

/-- The send that a thread waits in: it has been tried and could not go on. -/
def waiting : Option SendCall :=
  match p with
  | .inside ⟨.send _, _, _, .polling⟩ => none
  | .inside ⟨.send _, _, _, .first _⟩ => none
  | .inside ⟨.send c, _, _, _⟩ => some c
  | _ => none

theorem sending_wake : sending p.wake = sending p := by
  cases p with
  | returned result => rfl
  | inside call =>
    obtain ⟨io, nonBlocking, woke, phase⟩ := call
    cases io <;> rfl

theorem waiting_wake : waiting p.wake = none ∨ waiting p.wake = waiting p := by
  cases p with
  | returned result => exact .inl rfl
  | inside call =>
    obtain ⟨io, nonBlocking, woke, phase⟩ := call
    cases io with
    | recv side timed => exact .inl rfl
    | send c => cases phase <;> first | exact .inl rfl | exact .inr rfl

/-- The bytes, the identifiers and the record of the sends are the same. -/
structure Unchanged (st st' : StreamPair) : Prop where
  rings : st'.rings = st.rings
  sent : st'.sent = st.sent
  received : st'.received = st.received
  nextId : st'.nextId = st.nextId
  finished : st'.finished = st.finished

/-- The thread is in the same send as before, and does not begin to wait. -/
def Stays (p p' : StreamPoint) : Prop :=
  sending p' = sending p ∧ (waiting p' = none ∨ waiting p' = waiting p)

/-- What an attempt can put into the ring. -/
@[grind cases] structure Fits (st : StreamPair) (c : SendCall) (left right : Bytes) : Prop where
  leftFits : left.length ≤ (st.rings c.side).vacantSlices.1
  rightFits : right.length ≤ (st.rings c.side).vacantSlices.2
  leftFirst : left.length < (st.rings c.side).vacantSlices.1 → right = []
  remains : left.length + right.length ≤ c.size - c.total

variable {st : StreamPair}

theorem Fits.of_filled {c : SendCall} {a b : AxResult Bytes} {left right : Bytes}
    (h : filled (st.rings c.side).vacantSlices (c.size - c.total) a b = some (.ok (left, right))) :
    Fits st c left right := by
  obtain ⟨hleft, hright, hfull, hsize⟩ := filled_spec h
  exact ⟨hleft, hright, hfull, hsize⟩

/-- **What a step does.** -/
inductive Turn (st st' : StreamPair) (op : StreamOp) : Prop
  | idle (h : Unchanged st st')
      (hstays : ∀ t, op.thread = some t → Stays (st.threads.pc t) (st'.threads.pc t))
  | took (t : Nat) (side : Side) (count : Nat) (ho : op.thread = some t)
      (hcount : count ≤ (st.rings side.peer).len)
      (h : Unchanged (st.drainRing side count) st')
      (hstays : Stays (st.threads.pc t) (st'.threads.pc t))
  | begins (t : Nat) (c : SendCall) (ho : op.thread = some t) (hid : c.id = st.nextId)
      (htotal : c.total = 0) (h : Unchanged { st with nextId := st.nextId + 1 } st')
      (hrest : sending (st.threads.pc t) = none) (hcall : sending (st'.threads.pc t) = some c)
      (hwait : waiting (st'.threads.pc t) = none)
  | refused (t : Nat) (c : SendCall) (e : AxError) (ho : op.thread = some t)
      (hid : c.id = st.nextId)
      (htotal : c.total = 0)
      (h : Unchanged { st with
        nextId := st.nextId + 1, finished := (c, .error e) :: st.finished } st')
      (hrest : sending (st.threads.pc t) = none) (hrest' : sending (st'.threads.pc t) = none)
  | fails (t : Nat) (c : SendCall) (e : AxError) (ho : op.thread = some t)
      (hcall : sending (st.threads.pc t) = some c)
      (h : Unchanged { st with finished := (c, .error e) :: st.finished } st')
      (hrest : sending (st'.threads.pc t) = none)
  | waits (t : Nat) (c : SendCall) (a b : AxResult Bytes) (left right : Bytes)
      (hop : op = .copyIn t a b) (hcall : sending (st.threads.pc t) = some c)
      (hfilled : filled (st.rings c.side).vacantSlices (c.size - c.total) a b
        = some (.ok (left, right)))
      (hresult : sendResult c (left.length + right.length) = .error .wouldBlock)
      (h : Unchanged (st.fillRing c left right (left.length + right.length)) st')
      (hcall' : sending (st'.threads.pc t) = some (c.add (left.length + right.length)))
  | returns (t : Nat) (c : SendCall) (a b : AxResult Bytes) (left right : Bytes)
      (hop : op = .copyIn t a b) (hcall : sending (st.threads.pc t) = some c)
      (hfilled : filled (st.rings c.side).vacantSlices (c.size - c.total) a b
        = some (.ok (left, right)))
      (h : Unchanged { st.fillRing c left right (left.length + right.length) with
        finished := (c.add (left.length + right.length),
          sendResult c (left.length + right.length)) :: st.finished } st')
      (hrest : sending (st'.threads.pc t) = none)

/-- The thread of the step takes its turn, and the others are woken at most. -/
def Does (st st' : StreamPair) (op : StreamOp) : Prop := Turn st st' op ∧ Moved st st' op.thread

section Turns

variable {op : StreamOp}

theorem Unchanged.refl (st : StreamPair) : Unchanged st st := ⟨rfl, rfl, rfl, rfl, rfl⟩

variable {call : StreamCall} {side : Side} {timed : Bool}

theorem Unchanged.inside {io : StreamIo} (h : Unchanged st st') :
    Unchanged st (st'.settle t io (.inside call)) :=
  ⟨h.rings, h.sent, h.received, h.nextId, h.finished⟩

/-- The end of a `recv`. -/
theorem Unchanged.recv {p : StreamPoint} (h : Unchanged st st') :
    Unchanged st (st'.settle t (.recv side timed) p) := by
  cases p with
  | inside call => exact h.inside
  | returned result => exact ⟨h.rings, h.sent, h.received, h.nextId, h.finished⟩

theorem unchanged_woken (st : StreamPair) (count : Nat) : Unchanged st (st.woken count) := by
  unfold woken
  split
  · exact ⟨rfl, rfl, rfl, rfl, rfl⟩
  · exact .refl st

theorem Unchanged.unlock (h : Unchanged st st') (side : Side) : Unchanged st (st'.unlock side) :=
  ⟨h.rings, h.sent, h.received, h.nextId, h.finished⟩

theorem sending_inside {c : SendCall} (h : call.io = .send c) :
    sending (.inside call) = some c := by
  obtain ⟨io, nonBlocking, woke, phase⟩ := call
  cases h
  rfl

section

variable (h : call.io = .recv side timed)
include h

theorem sending_recv : sending (.inside call) = none := by
  obtain ⟨io, nonBlocking, woke, phase⟩ := call
  cases h
  rfl

theorem waiting_recv : waiting (.inside call) = none := by
  obtain ⟨io, nonBlocking, woke, phase⟩ := call
  cases h
  rfl

/-- A thread in a `recv` stays out of every send. -/
theorem stays_recv (result : AxResult Nat) : Stays (.inside call) (call.finish result) := by
  rcases call.finish_returns_or_waits result with heq | ⟨-, phase, -, heq⟩
  · rw [heq]
    exact ⟨(sending_recv h).symm, .inl rfl⟩
  · have hrest : sending (.inside { call with phase := phase }) = none := sending_recv h
    rw [heq]
    exact ⟨hrest.trans (sending_recv h).symm, .inl (waiting_recv h)⟩

end

theorem sending_atRest {p : StreamPoint} (h : p.atRest = true) : sending p = none := by
  cases p with
  | returned result => rfl
  | inside call => cases h

theorem pc_settle (io : StreamIo) (p : StreamPoint) : (st.settle t io p).threads.pc t = p := by
  rw [settle_threads, pc_goto, if_pos rfl]

section

variable (ho : op.thread = some t) (hpc : st.threads.pc t = .inside call)
include ho hpc

/-- **The end of a call that fails.** -/
theorem Does.ends {e : AxError} (ht : st'.threads = st.threads) (h : Unchanged st st') :
    Does st (st'.settle t call.io (.returned (.error e))) op := by
  refine ⟨?_, moved_settle (l := []) ho ht⟩
  cases hio : call.io with
  | recv side timed =>
    refine .idle h.recv ?_
    intro u hu
    cases ho.symm.trans hu
    rw [pc_settle, hpc]
    exact ⟨(sending_recv hio).symm, .inl rfl⟩
  | send c =>
    refine .fails t c e ho (hpc ▸ sending_inside hio) ?_ ?_
    · exact ⟨h.rings, h.sent, h.received, h.nextId, congrArg (List.cons _) h.finished⟩
    · rw [pc_settle]
      rfl

theorem Does.failed {e : AxError}
    (he : e ≠ .wouldBlock) (ht : st'.threads = st.threads) (h : Unchanged st st') :
    Does st (st'.settle t call.io (call.finish (.error e))) op := by
  rcases call.finish_returns_or_waits (.error e) with heq | ⟨hwould, -⟩
  · rw [heq]
    exact .ends ho hpc ht h
  · injection hwould with hwould
    exact absurd hwould he

theorem Does.walks {io : StreamIo} {call' : StreamCall}
    (hstays : Stays (.inside call) (.inside call'))
    (ht : st'.threads = st.threads) (h : Unchanged st st') :
    Does st (st'.settle t io (.inside call')) op := by
  refine ⟨.idle h.inside ?_, moved_settle (l := []) ho ht⟩
  intro u hu
  cases ho.symm.trans hu
  rw [pc_settle, hpc]
  exact hstays

end

/-- A thread that moves within its call stays in it; it begins to wait only at the end of an
attempt. -/
theorem stays_of_phase (woke : Bool) {phase : IoPhase StreamPos}
    (h : ∀ c, waiting (.inside { call with woke := woke, phase := phase }) = some c →
      waiting (.inside call) = some c) :
    Stays (.inside call) (.inside { call with woke := woke, phase := phase }) := by
  refine ⟨?_, ?_⟩
  · obtain ⟨io, nonBlocking, woke, phase⟩ := call
    cases io <;> rfl
  · cases hw : waiting (.inside { call with woke := woke, phase := phase }) with
    | none => exact .inl rfl
    | some c => exact .inr (h c hw).symm

theorem enter_does (ho : op.thread = some t) (hpc : st.threads.pc t = .inside call)
    (hphase : call.phase = .first .lock ∨ call.phase = .second .lock)
    (hs : st.enter t call = some st') : Does st st' op := by
  rcases enter_cases hs with rfl | ⟨e, he, rfl⟩
  · refine .walks ho hpc (stays_of_phase call.woke ?_) rfl ⟨rfl, rfl, rfl, rfl, rfl⟩
    intro c hc
    obtain ⟨io, nonBlocking, woke, phase⟩ := call
    rcases hphase with rfl | rfl
    · cases io <;> cases hc
    · cases io <;> exact hc
  · exact .failed ho hpc he rfl (.refl st)

theorem next_does (hs : st.next t = some st') : Does st st' (.next t) := by
  have ho : (StreamOp.next t).thread = some t := rfl
  unfold next at hs
  split at hs
  · cases hs
  next call hpc =>
    split at hs
    next hphase => exact enter_does ho hpc (.inl hphase) hs
    next hphase => exact enter_does ho hpc (.inr hphase) hs
    · cases hs
    · cases hs
    next hphase =>
      split at hs
      · cases hs
      cases hs
      refine .walks ho hpc (stays_of_phase call.woke ?_) rfl ⟨rfl, rfl, rfl, rfl, rfl⟩
      intro c hc
      obtain ⟨io, nonBlocking, woke, phase⟩ := call
      cases hphase
      cases io <;> exact hc
    · obtain ⟨call', hloop, rfl⟩ := Option.map_eq_some_iff.mp hs
      unfold IoCall.loop at hloop
      split at hloop
      · cases hloop
        refine .walks ho hpc (stays_of_phase false ?_) rfl (.refl st)
        intro c hc
        obtain ⟨io, nonBlocking, woke, phase⟩ := call
        cases io <;> cases hc
      next hphase =>
        cases hloop
        refine .walks ho hpc (stays_of_phase call.woke ?_) rfl (.refl st)
        intro c hc
        obtain ⟨io, nonBlocking, woke, phase⟩ := call
        cases hphase
        cases woke with
        | false => cases io <;> exact hc
        | true => cases io <;> cases hc
      · cases hloop

theorem copyIn_does {left right : AxResult Bytes}
    (hs : st.copyIn t left right = some st') : Does st st' (.copyIn t left right) := by
  unfold copyIn at hs
  split at hs
  · cases hs
  next call hpc =>
    split at hs
    next c _ hio =>
      obtain ⟨result, hfilled, rfl⟩ := Option.map_eq_some_iff.mp hs
      have hcall : sending (st.threads.pc t) = some c := hpc ▸ sending_inside hio
      cases result with
      | error e =>
        exact .failed rfl hpc (File.PipeState.filled_error hfilled).1 rfl
          ((Unchanged.refl st).unlock _)
      | ok bytes =>
        obtain ⟨ls, rs⟩ := bytes
        have hsame := (unchanged_woken (st.fillRing c ls rs (ls.length + rs.length))
          (ls.length + rs.length)).unlock c.side
        obtain ⟨l, hl⟩ := (st.fillRing c ls rs (ls.length + rs.length)).woken_threads
          (ls.length + rs.length)
        simp only [put]
        refine ⟨?_, moved_settle rfl hl⟩
        rcases IoCall.finish_returns_or_waits ({ st.selfWoken t call (ls.length + rs.length) with
              io := .send (c.add (ls.length + rs.length)) } : StreamCall)
            (sendResult c (ls.length + rs.length)) with heq | ⟨hwould, phase, -, heq⟩
        · rw [heq]
          refine .returns t c left right ls rs rfl hcall hfilled ?_ ?_
          · exact ⟨hsame.rings, hsame.sent, hsame.received, hsame.nextId,
              congrArg (List.cons _) hsame.finished⟩
          · rw [pc_settle]
            rfl
        · rw [heq]
          refine .waits t c left right ls rs rfl hcall hfilled hwould hsame.inside ?_
          rw [pc_settle]
          rfl
    · cases hs

theorem copyOut_does {left right : AxResult Nat} (hs : st.copyOut t left right = some st') :
    Does st st' (.copyOut t left right) := by
  unfold copyOut at hs
  split at hs
  · cases hs
  next call hpc =>
    split at hs
    next side timed _ hio =>
      obtain ⟨result, hcopied, rfl⟩ := Option.map_eq_some_iff.mp hs
      cases result with
      | error e =>
        exact .failed rfl hpc (File.PipeState.copied_error hcopied) rfl
          ((Unchanged.refl st).unlock _)
      | ok count =>
        have hle := copied_le hcopied
        rw [length_asSlices] at hle
        have hsame := (unchanged_woken (st.drainRing side count) count).unlock side
        have hio' : (st.selfWoken t call count).io = .recv side timed := hio
        obtain ⟨l, hl⟩ := (st.drainRing side count).woken_threads count
        simp only [took]
        refine ⟨.took t side count rfl hle (hio' ▸ hsame.recv) ?_, moved_settle rfl hl⟩
        rw [pc_settle, hpc]
        have hstays := stays_recv hio' (recvResult count)
        exact ⟨hstays.1.trans ((sending_recv hio').trans (sending_recv hio).symm),
          hstays.2.imp id (fun h => h.trans ((waiting_recv hio').trans
            (waiting_recv hio).symm))⟩
    · cases hs

/-- **Every step.** -/
theorem step_does (hs : st.step op = some st') : Does st st' op := by
  have hnobody : ∀ {P : Nat → Prop} (u : Nat), (none : Option Nat) = some u → P u := nofun
  cases op with
  | send t side hasTo size between =>
    obtain ⟨⟨hrest, -⟩, rfl⟩ := guard_eq_some hs
    simp only [send]
    split
    · refine ⟨.refused t (st.captured side size) _ rfl rfl rfl ⟨rfl, rfl, rfl, rfl, rfl⟩
        (sending_atRest hrest) ?_, moved_settle (l := []) rfl rfl⟩
      rw [pc_settle]
      rfl
    · refine ⟨.begins t (st.captured side size) rfl rfl rfl ⟨rfl, rfl, rfl, rfl, rfl⟩
        (sending_atRest hrest) ?_ ?_, moved_settle (l := []) rfl rfl⟩
      · rw [pc_settle]
        rfl
      · rw [pc_settle]
        rfl
  | recv t side =>
    obtain ⟨⟨hrest, -⟩, rfl⟩ := guard_eq_some hs
    unfold recv
    refine ⟨.idle (Unchanged.refl st).recv ?_, moved_settle (l := []) rfl rfl⟩
    intro u hu
    cases hu
    rw [pc_settle]
    exact ⟨(sending_atRest hrest).symm, .inl rfl⟩
  | next t => exact next_does hs
  | copyIn t left right => exact copyIn_does hs
  | copyOut t left right => exact copyOut_does hs
  | interrupted t =>
    simp only [step] at hs
    split at hs
    next hpc =>
      cases hs
      exact .ends rfl hpc rfl (.refl st)
    · cases hs
  | timedOut t =>
    simp only [step] at hs
    split at hs
    next hpc =>
      obtain ⟨-, rfl⟩ := guard_eq_some hs
      exact .ends rfl hpc rfl (.refl st)
    · cases hs
  | unpark t =>
    obtain ⟨p, hp, rfl⟩ := Option.map_eq_some_iff.mp hs
    unfold IoPoint.unpark at hp
    split at hp
    next io nonBlocking woke hpc =>
      cases hp
      show Does st (st.settle t io (.inside ⟨io, nonBlocking, woke, .polling⟩)) _
      refine .walks rfl hpc ?_ rfl (.refl st)
      cases io <;> exact ⟨rfl, .inl rfl⟩
    · cases hp
  | setNonblocking side nonBlocking | setTimeout side isSend timed =>
    obtain ⟨-, rfl⟩ := unless_eq_some hs
    exact ⟨.idle ⟨rfl, rfl, rfl, rfl, rfl⟩ hnobody, moved_woken (l := []) rfl⟩
  | closeRx side | closeTx side =>
    obtain ⟨-, rfl⟩ := unless_eq_some hs
    exact ⟨.idle ⟨rfl, rfl, rfl, rfl, rfl⟩ hnobody, moved_woken rfl⟩
  | take side =>
    obtain ⟨-, rfl⟩ := guard_eq_some hs
    exact ⟨.idle ⟨rfl, rfl, rfl, rfl, rfl⟩ hnobody, moved_woken (l := st.pollUpdate) rfl⟩
  | release side =>
    obtain ⟨-, rfl⟩ := guard_eq_some hs
    exact ⟨.idle ⟨rfl, rfl, rfl, rfl, rfl⟩ hnobody, moved_woken (l := []) rfl⟩
  | drop side =>
    obtain ⟨-, rfl⟩ := guard_eq_some hs
    split
    · exact ⟨.idle ⟨rfl, rfl, rfl, rfl, rfl⟩ hnobody, moved_woken (l := st.pollUpdate) rfl⟩
    · exact ⟨.idle ⟨rfl, rfl, rfl, rfl, rfl⟩ hnobody, moved_woken (l := []) rfl⟩

end Turns

/-! ## §5. First in, first out. -/

/-- **A ring is what was sent and is not received yet.** -/
def InOrder (st : StreamPair) : Prop :=
  ∀ side, (st.sent side).map Prod.snd = st.received side.peer ++ (st.rings side).contents

theorem Unchanged.inOrder {st' : StreamPair} (h : Unchanged st st') (ho : st.InOrder) :
    st'.InOrder := by
  intro side
  rw [h.sent, h.received, h.rings]
  exact ho side

theorem InOrder.drainRing (h : st.InOrder) {side : Side} {count : Nat}
    (hcount : count ≤ (st.rings side.peer).len) : (st.drainRing side count).InOrder := by
  intro s
  show (st.sent s).map Prod.snd
    = update st.received side _ s.peer ++ (update st.rings side.peer _ s).contents
  by_cases hs : s = side.peer
  · subst hs
    rw [Side.peer_peer, update_self, update_self,
      contents_advanceRead _ hcount, List.append_assoc, List.take_append_drop]
    have hside := h side.peer
    rw [Side.peer_peer] at hside
    exact hside
  · have hpeer : s.peer ≠ side := fun he => hs (by rw [← he, Side.peer_peer])
    rw [update_of_ne hpeer, update_of_ne hs]
    exact h s

theorem InOrder.fillRing (h : st.InOrder) {c : SendCall} {left right : Bytes}
    (hfits : Fits st c left right) :
    (st.fillRing c left right (left.length + right.length)).InOrder := by
  intro s
  show (update st.sent c.side _ s).map Prod.snd
    = st.received s.peer ++ (update st.rings c.side _ s).contents
  by_cases hs : s = c.side
  · subst hs
    rw [update_self, update_self,
      contents_fill _ hfits.leftFits hfits.rightFits hfits.leftFirst, List.map_append,
      h, List.map_map, List.append_assoc]
    congr 2
    exact List.map_id _
  · rw [update_of_ne hs, update_of_ne hs]
    exact h s

theorem InOrder.step {st' : StreamPair} {op : StreamOp} (h : st.InOrder)
    (hs : st.step op = some st') : st'.InOrder := by
  cases (step_does hs).1 with
  | idle hsame _ | begins t c _ _ _ hsame _ _ _ | refused t c e _ _ _ hsame _ _
  | fails t c e _ _ hsame _ => exact hsame.inOrder h
  | took t side count _ hcount hsame _ => exact hsame.inOrder (h.drainRing hcount)
  | waits t c a b left right _ _ hfilled _ hsame _
  | returns t c a b left right _ _ hfilled hsame _ =>
    exact hsame.inOrder (h.fillRing (.of_filled hfilled))

/-! ## §6. The end of the stream. -/

/-- The peer is dropped or has shut down its write side, and its bytes are received. -/
def AtEof (st : StreamPair) (side : Side) : Prop :=
  ((st.ends side.peer).dropped = true ∨ (st.ends side.peer).txClosed = true)
    ∧ (st.sent side.peer).map Prod.snd = st.received side

instance decidableAtEof (st : StreamPair) (side : Side) : Decidable (st.AtEof side) :=
  inferInstanceAs (Decidable (_ ∧ _))

/-- A thread leaves the closure of a `recv`. -/
def EndsRecv (st st' : StreamPair) (t : Nat) (side : Side) : Prop :=
  (∃ call timed, st.threads.pc t = .inside call ∧ call.io = .recv side timed
      ∧ call.pos?.isSome = true)
    ∧ (st'.threads.pc t).pos? = none

/-- What the attempt should give. -/
def EofServed (st st' : StreamPair) (t : Nat) (side : Side) : Prop :=
  st.AtEof side → st'.threads.pc t = .returned (.ok 0)

section Eof

variable {t n : Nat} {call : StreamCall} {side : Side} {timed : Bool}

theorem enter_ne_returned_ok (hs : st.enter t call = some st') :
    st'.threads.pc t ≠ .returned (.ok n) := by
  intro hret
  rcases enter_cases hs with rfl | ⟨e, -, rfl⟩
  · unfold locked at hret
    rw [pc_settle] at hret
    cases hret
  · rw [pc_settle] at hret
    cases IoCall.finish_eq_ok hret

theorem copyOut_returns_bytes {left right : AxResult Nat}
    (hs : st.copyOut t left right = some st') (hret : st'.threads.pc t = .returned (.ok n)) :
    0 < n := by
  unfold copyOut at hs
  split at hs
  · cases hs
  split at hs
  · obtain ⟨result, -, rfl⟩ := Option.map_eq_some_iff.mp hs
    cases result with
    | error e =>
      simp only [pc_settle] at hret
      cases IoCall.finish_eq_ok hret
    | ok count => grind [took, pc_settle, IoCall.finish_eq_ok, recvResult]
  · cases hs

/-- **A `recv` that returns `Ok` returns bytes.** -/
theorem recv_returns_bytes {op : StreamOp} (hs : st.step op = some st')
    (hpc : st.threads.pc t = .inside call) (hio : call.io = .recv side timed)
    (hpos : call.pos?.isSome = true) (hret : st'.threads.pc t = .returned (.ok n)) : 0 < n := by
  have hnotRest : (st.threads.pc t).atRest = false := by
    rw [hpc]
    rfl
  by_cases hop : op.thread = some t
  · cases op with
    | send u side' hasTo size between | recv u side' =>
      cases hop
      grind [step]
    | next u =>
      cases hop
      simp only [step, next, hpc] at hs
      unfold IoCall.pos? at hpos
      split at hs
      · exact absurd hret (enter_ne_returned_ok hs)
      · exact absurd hret (enter_ne_returned_ok hs)
      · cases hs
      · cases hs
      next hphase =>
        rw [hphase] at hpos
        cases hpos
      next hfirst hsecond hfirst' hsecond' hregister =>
        -- outside the closure there is no attempt to end
        split at hpos
        next pos hphase =>
          cases pos with
          | lock => exact absurd hphase hfirst
          | copy => exact absurd hphase hfirst'
        next pos hphase =>
          cases pos with
          | lock => exact absurd hphase hsecond
          | copy => exact absurd hphase hsecond'
        · cases hpos
    | copyIn u left right =>
      cases hop
      grind [step, copyIn]
    | copyOut u left right =>
      cases hop
      exact copyOut_returns_bytes hs hret
    | interrupted u | timedOut u =>
      cases hop
      simp only [step, hpc] at hs
      split at hs
      next heq =>
        cases heq
        cases hpos
      · cases hs
    | unpark u =>
      cases hop
      obtain ⟨p, hp, rfl⟩ := Option.map_eq_some_iff.mp hs
      rw [hpc] at hp
      unfold IoPoint.unpark at hp
      grind
    | _ => cases hop
  · rcases (step_does hs).2 t hop with hsame | hwoken
    · rw [hsame, hpc] at hret
      cases hret
    · rw [hwoken, hpc] at hret
      cases hret

end Eof

/-- **UNIX STREAMS ARE FIFO, AND HAVE NO END.**  In every run what an end has received is a prefix
of what the other has sent; and an attempt of a `recv` gives what it should if, and only if, it is
not made at the end of the stream. -/
theorem stream_is_fifo (st : StreamPair) (h : Reach step Always newPair st) :
    (∀ side, st.received side <+: (st.sent side.peer).map Prod.snd)
      ∧ ∀ op st' t side, st.step op = some st' → EndsRecv st st' t side →
        (EofServed st st' t side ↔ ¬ st.AtEof side) := by
  have hstart : newPair.InOrder := fun side => by cases side <;> rfl
  have hinv := h.invariant InOrder hstart (fun _ _ _ hinv _ => hinv.step)
  refine ⟨?_, ?_⟩
  · intro side
    have hside := hinv side.peer
    rw [Side.peer_peer] at hside
    rw [hside]
    exact List.prefix_append _ _
  · rintro op st' t side hs ⟨⟨call, timed, hpc, hio, hpos⟩, -⟩
    constructor
    · intro hserved heof
      have hpositive := recv_returns_bytes hs hpc hio hpos (hserved heof)
      exact Nat.lt_irrefl 0 hpositive
    · exact fun hnot heof => absurd heof hnot

/-- Two bytes are sent, one is received; the other end is still there. -/
theorem two_bytes_arrive_in_order : ∃ st, Reach step Always newPair st ∧ st.received .second = [1]
      ∧ st.received .second <+: (st.sent .first).map Prod.snd := by
  obtain ⟨st, hst, hc⟩ := exists_reach step newPair
    [.send 0 .first false 2 none, .next 0, .next 0, .copyIn 0 (.ok [1, 2]) (.ok []),
      .recv 1 .second, .next 1, .next 1, .copyOut 1 (.ok 1) (.ok 0)]
    (fun st => st.received .second = [1]) (by decide +kernel)
  exact ⟨st, hst, hc, (stream_is_fifo st hst).1 .second⟩

/-- Whether a thread sleeps in a `recv`. -/
def sleepsInRecv (p : StreamPoint) : Bool :=
  match p with
  | .inside ⟨.recv _ _, _, _, .parked⟩ => true
  | _ => false

/-- A byte is sent and received, and the sender is gone. -/
def lastByte : List StreamOp :=
  [.send 0 .first false 1 none, .next 0, .next 0, .copyIn 0 (.ok [7]) (.ok []), .recv 1 .second,
    .next 1, .next 1, .copyOut 1 (.ok 1) (.ok 0), .closeTx .first, .drop .first, .release .first]

/-- **After the peer has sent a byte, shut down its write side, been dropped and released, and the
byte has been received, `recv` sleeps**; a non-blocking one returns `WouldBlock`. -/
theorem recv_after_close_blocks : (∃ st, Reach step Always newPair st ∧ st.AtEof .second
        ∧ (st.ends .first).channel = .released ∧ sleepsInRecv (st.threads.pc 1) = true)
      ∧ ∃ st, Reach step Always newPair st ∧ st.AtEof .second
        ∧ st.threads.pc 1 = .returned (.error .wouldBlock) := by
  refine ⟨?_, ?_⟩
  · exact exists_reach step newPair
      (lastByte ++ [.recv 1 .second, .next 1, .next 1, .copyOut 1 (.ok 0) (.ok 0), .next 1, .next 1,
        .copyOut 1 (.ok 0) (.ok 0), .next 1]) _ (by decide +kernel)
  · exact exists_reach step newPair
      (lastByte ++ [.setNonblocking .second true, .recv 1 .second, .next 1, .next 1,
        .copyOut 1 (.ok 0) (.ok 0)]) _ (by decide +kernel)

end StreamPair

end StarryOS.Net
