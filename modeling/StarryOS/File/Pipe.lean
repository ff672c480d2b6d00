/-
  StarryOS.File.Pipe — PIPES (`kernel/src/file/pipe.rs`, `F_SETPIPE_SZ` of
  `sys_fcntl` in `kernel/src/syscall/fs/fd_ops.rs`).

  Two ends share a ring of bytes.  The closures that `poll_io` tries again and
  again are cut where another thread can come in between:

      read     lock: copy the two used slices out, advance; then wake the writers,
               or, if nothing was copied, ask whether the write end is closed
      write    ask whether the read end is closed; lock: copy into the two vacant
               slices, advance; wake the readers; load `non_blocking`
      drop     poll_close.wake(); release of the shared reference
      resize   lock: replace the ring and push both slices into the new one

  `pipe_is_fifo`: every run delivers what was accepted, in order, and a resize
  keeps the bytes and fails exactly when they do not fit, UNLESS the requested
  size is within a page of 2^64, where the rounding wraps around to 0, or there
  is no new ring of that size (`huge_resize_is_refused`).
-/
import StarryOS.Lib.ByteString
import StarryOS.Lib.RingBuffer
import StarryOS.Lib.Transition
import StarryOS.Task.PollIo

namespace StarryOS.File

open Lib StarryOS.Task

/-! ## §1. The two ends and what they share. -/

/-- The two calls. -/
inductive PipeIo where
  | read
  /-- `total` is the captured `total_written`; `id` tells the calls apart. -/
  | write (id size total : Nat)
  deriving Repr, DecidableEq

/-- Where a thread is in the closure of `read` or `write`. -/
inductive PipePos where
  /-- `self.closed()`. -/
  | check
  /-- `self.shared.buffer.lock()`. -/
  | lock
  /-- `n` bytes were moved; the other side is woken next. -/
  | wake (n : Nat)
  /-- `self.nonblocking()`, once `write` has counted them. -/
  | flag
  deriving Repr, DecidableEq

abbrev PipeCall := IoCall PipeIo PipePos

abbrev PipePoint := IoPoint PipeIo PipePos

/-- Where the closure begins. -/
def PipeIo.entry : PipeIo → PipePos
  | .read => .lock
  | .write _ _ _ => .check

/-- How far an end has come in being dropped. -/
inductive PipeEnd where
  | opened
  /-- `poll_close.wake()` is done, the shared reference is not released. -/
  | woken
  | released
  deriving Repr, DecidableEq

/-- A pipe and the threads that use it. -/
structure PipeState where
  buffer : RingBuffer UInt8
  /-- The threads whose wakers are registered. -/
  pollRx : List Nat
  pollTx : List Nat
  pollClose : List Nat
  readEnd : PipeEnd
  writeEnd : PipeEnd
  readNonBlocking : Bool
  writeNonBlocking : Bool
  threads : Threads PipePoint
  nextId : Nat
  /-- The bytes that writes have put into the ring; nobody reads this. -/
  accepted : List (Nat × UInt8)
  /-- The bytes that reads have taken out; nobody reads this. -/
  delivered : Bytes
  /-- What the writes have returned; nobody reads this. -/
  finished : List (Nat × AxResult Nat)

namespace PipeState

/-- `Pipe::new`. -/
def new : PipeState where
  buffer := .new 65536 (by decide) 0
  pollRx := []
  pollTx := []
  pollClose := []
  readEnd := .opened
  writeEnd := .opened
  readNonBlocking := false
  writeNonBlocking := false
  threads := .initial
  nextId := 0
  accepted := []
  delivered := []
  finished := []

/-- The end that a call does not use. -/
def peer (st : PipeState) : PipeIo → PipeEnd
  | .read => st.writeEnd
  | .write _ _ _ => st.readEnd

/-- `Arc::strong_count(&self.shared) == 1`, asked by a thread that uses its own end. -/
def closed (st : PipeState) (io : PipeIo) : Bool := st.peer io = .released

/-! ## §2. `resize`. -/

/-- `new_size.div_ceil(PAGE_SIZE_4K).max(1) * PAGE_SIZE_4K`, without a bound. -/
def pageRounded (newSize : UInt64) : Nat := max ((newSize.toNat + 4095) / 4096) 1 * 4096

/-- The same in a `usize`. -/
def roundUp (newSize : UInt64) : Nat := pageRounded newSize % 2 ^ 64

/-- `HeapRb::new`; nothing if the kernel panics: the size is 0 or more than an `isize`
can count, or there is no memory. -/
def heapRb (capacity : Nat) (memory : Bool) : Option (RingBuffer UInt8) :=
  if h : 0 < capacity then if capacity < 2 ^ 63 ∧ memory then some (.new capacity h 0) else none
  else none

/-- `Pipe::resize`; nothing if the kernel panics.  `memory` is whether a new ring of the
rounded size can be allocated. -/
def resize (buffer : RingBuffer UInt8) (newSize : UInt64) (memory : Bool) :
    Option (AxResult (RingBuffer UInt8)) :=
  if roundUp newSize = buffer.capacity then some (.ok buffer)
  else if roundUp newSize < buffer.len then some (.error .resourceBusy)
  else (heapRb (roundUp newSize) memory).map (fun ring =>
    let (left, right) := buffer.asSlices
    .ok ((ring.pushSlice left).pushSlice right))

/-! ## §3. Steps. -/

/-- The thread goes on at `p`.  A call that returns leaves no waker behind that could do more
than unpark. -/
def settle (st : PipeState) (t : Nat) (io : PipeIo) : PipePoint → PipeState
  | .inside call => { st with threads := st.threads.goto t (.inside call) }
  | .returned result => { st with
      threads := st.threads.goto t (.returned result)
      pollRx := st.pollRx.filter (· ≠ t)
      pollTx := st.pollTx.filter (· ≠ t)
      pollClose := st.pollClose.filter (· ≠ t)
      finished := match io with
        | .read => st.finished
        | .write id _ _ => (id, result) :: st.finished }

section Settle

variable (st : PipeState) (t : Nat) (io : PipeIo) (p : PipePoint)

@[simp] theorem settle_threads : (st.settle t io p).threads = st.threads.goto t p := by
  cases p <;> rfl

@[simp] theorem settle_buffer : (st.settle t io p).buffer = st.buffer := by cases p <;> rfl

@[simp] theorem settle_readEnd : (st.settle t io p).readEnd = st.readEnd := by cases p <;> rfl

@[simp] theorem settle_writeEnd : (st.settle t io p).writeEnd = st.writeEnd := by cases p <;> rfl

@[simp] theorem settle_nextId : (st.settle t io p).nextId = st.nextId := by cases p <;> rfl

@[simp] theorem settle_accepted : (st.settle t io p).accepted = st.accepted := by cases p <;> rfl

@[simp] theorem settle_delivered : (st.settle t io p).delivered = st.delivered := by cases p <;> rfl

theorem settle_finished_read : (st.settle t .read p).finished = st.finished := by cases p <;> rfl

end Settle

variable (st : PipeState)

def wakeRx : PipeState :=
  { st with threads := st.threads.updateAll IoPoint.wake st.pollRx, pollRx := [] }

def wakeTx : PipeState :=
  { st with threads := st.threads.updateAll IoPoint.wake st.pollTx, pollTx := [] }

def wakeClose : PipeState :=
  { st with threads := st.threads.updateAll IoPoint.wake st.pollClose, pollClose := [] }

def register (t : Nat) : PipeIo → PipeState
  | .read => { st with pollRx := t :: st.pollRx, pollClose := t :: st.pollClose }
  | .write _ _ _ => { st with pollTx := t :: st.pollTx, pollClose := t :: st.pollClose }

/-- The next step of the closure; the lock section is another event. -/
def closure (t : Nat) (call : PipeCall) : PipePos → Option PipeState
  | .check =>
    match call.io with
    | .read => some (st.settle t call.io
        (call.finish (if st.closed call.io then .ok 0 else .error .wouldBlock)))
    | .write _ _ _ =>
      if st.closed call.io then some (st.settle t call.io (call.finish (.error .brokenPipe)))
      else some (st.settle t call.io (.inside (call.goto .lock)))
  | .lock => none
  | .wake n =>
    match call.io with
    | .read => some (st.wakeTx.settle t call.io (call.finish (.ok n)))
    | .write id size total =>
      some (st.wakeRx.settle t call.io
        (.inside { call.goto .flag with io := .write id size (total + n) }))
  | .flag =>
    match call.io with
    | .read => none
    | .write _ size total => some (st.settle t call.io
        (call.finish (if total = size ∨ st.writeNonBlocking = true then .ok total
          else .error .wouldBlock)))

/-- The next step of a thread. -/
def next (t : Nat) : Option PipeState :=
  match st.threads.pc t with
  | .returned _ => none
  | .inside call =>
    match call.phase with
    | .first pos => st.closure t call pos
    | .second pos => st.closure t call pos
    | .registering => some ((st.register t call.io).settle t call.io
        (.inside { call with phase := .second call.io.entry }))
    | _ => (call.loop call.io.entry).map (fun call => st.settle t call.io (.inside call))

/-- What memory can answer to a copy: any error but `WouldBlock`, which only files return. -/
def fault {α : Type} (e : AxError) : Option (AxResult α) :=
  if e = .wouldBlock then none else some (.error e)

/-- `dst.write(left)?`, and `dst.write(right)?` if the left slice was taken whole: the count, or
the error.  No destination takes more than it is given. -/
def copied (slices : Bytes × Bytes) (left right : AxResult Nat) :
    Option (AxResult Nat) :=
  match left with
  | .error e => fault e
  | .ok m =>
    if slices.1.length < m then none
    else if m < slices.1.length then some (.ok m)
    else
      match right with
      | .error e => fault e
      | .ok n => if slices.2.length < n then none else some (.ok (m + n))

/-- `src.read(left)?`, and `src.read(right)?` if the left slice was filled: the bytes, or the
error.  No source gives more than it has left or than there is room for. -/
def filled (vacant : Nat × Nat) (remaining : Nat) (left right : AxResult Bytes) :
    Option (AxResult (Bytes × Bytes)) :=
  match left with
  | .error e => fault e
  | .ok ls =>
    if min vacant.1 remaining < ls.length then none
    else if ls.length < vacant.1 then some (.ok (ls, []))
    else
      match right with
      | .error e => fault e
      | .ok rs =>
        if min vacant.2 (remaining - ls.length) < rs.length then none else some (.ok (ls, rs))

/-- `advance_read_index(count)`; what comes next depends on `count`. -/
def took (t : Nat) (call : PipeCall) (count : Nat) : PipeState :=
  { st with
    buffer := st.buffer.advanceRead count
    delivered := st.delivered ++ st.buffer.contents.take count
    threads := st.threads.goto t
      (.inside (call.goto (if count = 0 then .check else .wake count))) }

/-- `advance_write_index(count)`, once the vacant slices are filled; a write that found no room
tries again. -/
def put (t : Nat) (call : PipeCall) (id : Nat) (left right : Bytes) :
    PipeState :=
  let count := left.length + right.length
  if count = 0 then st.settle t call.io (call.finish (.error .wouldBlock))
  else { st with
    buffer := (st.buffer.fill left right).advanceWrite count
    accepted := st.accepted ++ (left ++ right).map (fun b => (id, b))
    threads := st.threads.goto t (.inside (call.goto (.wake count))) }

/-- The lock section of `read`. -/
def copyOut (t : Nat) (left right : AxResult Nat) : Option PipeState :=
  match st.threads.pc t with
  | .returned _ => none
  | .inside call =>
    match call.pos?, call.io with
    | some .lock, .read =>
      (copied st.buffer.asSlices left right).map fun
        | .error e => st.settle t call.io (call.finish (.error e))
        | .ok count => st.took t call count
    | _, _ => none

/-- The lock section of `write`. -/
def copyIn (t : Nat) (left right : AxResult Bytes) :
    Option PipeState :=
  match st.threads.pc t with
  | .returned _ => none
  | .inside call =>
    match call.pos?, call.io with
    | some .lock, .write id size total =>
      (filled st.buffer.vacantSlices (size - total) left right).map fun
        | .error e => st.settle t call.io (call.finish (.error e))
        | .ok (ls, rs) => st.put t call id ls rs
    | _, _ => none

/-- `Pipe::read`, up to `block_on`. -/
def read (st : PipeState) (t : Nat) (isRead isFull : Bool) : PipeState :=
  if !isRead then st.settle t .read (.returned (.error .badFileDescriptor))
  else if isFull then st.settle t .read (.returned (.ok 0))
  else st.settle t .read (.inside (.start .read st.readNonBlocking))

/-- `Pipe::write`, up to `block_on`; `size` is `src.remaining()`. -/
def write (st : PipeState) (t : Nat) (isWrite : Bool) (size : Nat) : PipeState :=
  let io : PipeIo := .write st.nextId size 0
  let st := { st with nextId := st.nextId + 1 }
  if !isWrite then st.settle t io (.returned (.error .badFileDescriptor))
  else if size = 0 then st.settle t io (.returned (.ok 0))
  else st.settle t io (.inside (.start io st.writeNonBlocking))

/-- The call uses the read end. -/
def usesRead (p : PipePoint) : Bool :=
  match p with
  | .inside ⟨.read, _, _, _⟩ => true
  | _ => false

/-- A call on the write end. -/
def usesWrite (p : PipePoint) : Bool :=
  match p with
  | .inside ⟨.write _ _ _, _, _, _⟩ => true
  | _ => false

/-- `Drop` of the read end, up to the fields. -/
def dropRead : PipeState := { st.wakeClose with readEnd := .woken }

def dropWrite : PipeState := { st.wakeClose with writeEnd := .woken }

end PipeState

/-- What may happen. -/
inductive PipeOp where
  /-- `read` on the end that is named. -/
  | read (t : Nat) (isRead isFull : Bool)
  | write (t : Nat) (isWrite : Bool) (size : Nat)
  | next (t : Nat)
  | copyOut (t : Nat) (left right : AxResult Nat)
  | copyIn (t : Nat) (left right : AxResult Bytes)
  /-- `poll_interrupt` says that the thread was interrupted. -/
  | interrupted (t : Nat)
  | unpark (t : Nat)
  | setNonblocking (isRead nonBlocking : Bool)
  /-- `F_SETPIPE_SZ`. -/
  | resize (newSize : UInt64) (memory : Bool)
  /-- `Drop` of the read end, or of the write end. -/
  | drop (isRead : Bool)
  /-- The release of its shared reference. -/
  | release (isRead : Bool)

namespace PipeState

def step (st : PipeState) : PipeOp → Option PipeState
  | .read t isRead isFull =>
    if (st.threads.pc t).atRest ∧ (if isRead then st.readEnd else st.writeEnd) = .opened then
      some (st.read t isRead isFull)
    else none
  | .write t isWrite size =>
    if (st.threads.pc t).atRest ∧ (if isWrite then st.writeEnd else st.readEnd) = .opened then
      some (st.write t isWrite size)
    else none
  | .next t => st.next t
  | .copyOut t left right => st.copyOut t left right
  | .copyIn t left right => st.copyIn t left right
  | .interrupted t =>
    match st.threads.pc t with
    | .inside ⟨io, _, _, .polling⟩ => some (st.settle t io (.returned (.error .interrupted)))
    | _ => none
  | .unpark t => (st.threads.pc t).unpark.map (fun p => { st with threads := st.threads.goto t p })
  | .setNonblocking isRead nonBlocking =>
    some (if isRead then { st with readNonBlocking := nonBlocking }
      else { st with writeNonBlocking := nonBlocking })
  | .resize newSize memory =>
    match resize st.buffer newSize memory with
    | none => none
    | some (.error _) => some st
    | some (.ok buffer) => some { st with buffer := buffer }
  | .drop true =>
    if st.readEnd = .opened ∧ st.threads.any usesRead = false then some st.dropRead else none
  | .drop false =>
    if st.writeEnd = .opened ∧ st.threads.any usesWrite = false then some st.dropWrite else none
  | .release true => if st.readEnd = .woken then some { st with readEnd := .released } else none
  | .release false => if st.writeEnd = .woken then some { st with writeEnd := .released } else none

/-! ## §4. A resize keeps the bytes. -/

section Resize

variable (buffer : RingBuffer UInt8) (newSize : UInt64) (memory : Bool)

/-- **A resize that succeeds has the same bytes in the same order.** -/
theorem contents_of_resize {buffer buffer' : RingBuffer UInt8} {newSize : UInt64} {memory : Bool}
    (h : resize buffer newSize memory = some (.ok buffer')) :
    buffer'.contents = buffer.contents := by
  unfold resize at h
  split at h
  · injection h with h
    injection h with h
    rw [h]
  split at h
  · cases h
  obtain ⟨ring, hring, h⟩ := Option.map_eq_some_iff.mp h
  obtain ⟨hpos, rfl⟩ : ∃ hpos, ring = .new (roundUp newSize) hpos 0 := by
    unfold heapRb at hring
    grind
  injection h with h
  change ((RingBuffer.new (roundUp newSize) hpos 0).pushSlice
    buffer.asSlices.1).pushSlice buffer.asSlices.2 = buffer' at h
  have hlength := buffer.length_asSlices
  have hleft : ((RingBuffer.new (roundUp newSize) hpos 0).pushSlice
      buffer.asSlices.1).contents = buffer.asSlices.1 := by
    rw [RingBuffer.contents_pushSlice, RingBuffer.contents_new]
    exact List.take_of_length_le (by
      show _ ≤ roundUp newSize - 0
      omega)
  -- the new ring is as large as asked, so the right slice fits as well
  have hroom : ((RingBuffer.new (roundUp newSize) hpos (0 : UInt8)).pushSlice
      buffer.asSlices.1).vacantLen = roundUp newSize - buffer.asSlices.1.length := by
    unfold RingBuffer.vacantLen
    rw [← RingBuffer.length_contents, hleft]
    rfl
  rw [← h, RingBuffer.contents_pushSlice, hleft, List.take_of_length_le (by omega),
    RingBuffer.asSlices_append]

/-- What a resize to any size should do: round without overflow, keep the bytes, and fail
exactly when they do not fit. -/
def ResizesWell : Prop :=
  roundUp newSize = pageRounded newSize
    ∧ ((∃ e, resize buffer newSize memory = some (.error e))
        ∨ ∃ buffer', resize buffer newSize memory = some (.ok buffer')
          ∧ buffer'.contents = buffer.contents)
    ∧ ((∃ e, resize buffer newSize memory = some (.error e)) ↔ pageRounded newSize < buffer.len)

/-- **The condition**: the size is not within a page of 2^64, and where the resize needs a
new ring, there is one of that size. -/
def Resizable : Prop :=
  newSize.toNat ≤ 2 ^ 64 - 4096
    ∧ (pageRounded newSize = buffer.capacity ∨ pageRounded newSize < buffer.len
      ∨ pageRounded newSize < 2 ^ 63 ∧ memory = true)

theorem pageRounded_lt_iff : pageRounded newSize < 2 ^ 64 ↔ newSize.toNat ≤ 2 ^ 64 - 4096 := by
  unfold pageRounded
  omega

theorem heapRb_isSome_iff {capacity : Nat} (hpos : 0 < capacity) :
    (heapRb capacity memory).isSome = true ↔ capacity < 2 ^ 63 ∧ memory = true := by
  unfold heapRb
  rw [dif_pos hpos, Option.isSome_ite]

/-- A resize that does not panic fails exactly when the bytes do not fit. -/
theorem resize_fails_iff (hround : roundUp newSize = pageRounded newSize) :
    (∃ e, resize buffer newSize memory = some (.error e)) ↔ pageRounded newSize < buffer.len := by
  have hlen := buffer.len_le
  unfold resize
  rw [hround]
  by_cases hsame : pageRounded newSize = buffer.capacity
  · rw [if_pos hsame]
    refine ⟨?_, fun hlt => absurd hlt (by omega)⟩
    rintro ⟨e, he⟩
    cases he
  rw [if_neg hsame]
  by_cases hbusy : pageRounded newSize < buffer.len
  · rw [if_pos hbusy]
    exact ⟨fun _ => hbusy, fun _ => ⟨_, rfl⟩⟩
  · rw [if_neg hbusy]
    cases heapRb (pageRounded newSize) memory <;> simp [hbusy]

/-- It does not panic where it needs no new ring or gets one. -/
theorem resize_isSome_iff (hround : roundUp newSize = pageRounded newSize) :
    (resize buffer newSize memory).isSome = true ↔ pageRounded newSize = buffer.capacity
      ∨ pageRounded newSize < buffer.len ∨ pageRounded newSize < 2 ^ 63 ∧ memory = true := by
  have hpos : 0 < pageRounded newSize := by
    unfold pageRounded
    omega
  rw [← heapRb_isSome_iff memory hpos]
  unfold resize
  rw [hround]
  split
  · simp [*]
  split
  · simp [*]
  · simp [*]

theorem resizesWell_iff : ResizesWell buffer newSize memory ↔ Resizable buffer newSize memory := by
  unfold ResizesWell Resizable
  rw [← pageRounded_lt_iff]
  constructor
  · rintro ⟨hround, hresult, -⟩
    refine ⟨?_, (resize_isSome_iff buffer newSize memory hround).mp ?_⟩
    · rw [← hround]
      exact Nat.mod_lt _ (by decide)
    · rcases hresult with ⟨e, he⟩ | ⟨buffer', hok, -⟩
      · rw [he]
        rfl
      · rw [hok]
        rfl
  · rintro ⟨hlt, hring⟩
    have hround : roundUp newSize = pageRounded newSize := Nat.mod_eq_of_lt hlt
    refine ⟨hround, ?_, resize_fails_iff buffer newSize memory hround⟩
    obtain ⟨result, hresult⟩ := Option.isSome_iff_exists.mp
      ((resize_isSome_iff buffer newSize memory hround).mpr hring)
    cases result with
    | error e => exact .inl ⟨e, hresult⟩
    | ok buffer' => exact .inr ⟨buffer', hresult, contents_of_resize hresult⟩

end Resize

/-! ## §5. First in, first out. -/

/-- **What a step does to the bytes.** -/
inductive Moves (st st' : PipeState) : Prop
  | same (hbuffer : st'.buffer = st.buffer) (haccepted : st'.accepted = st.accepted)
      (hdelivered : st'.delivered = st.delivered)
  | took (count : Nat) (hcount : count ≤ st.buffer.len)
      (hbuffer : st'.buffer = st.buffer.advanceRead count) (haccepted : st'.accepted = st.accepted)
      (hdelivered : st'.delivered = st.delivered ++ st.buffer.contents.take count)
  | put (id : Nat) (left right : Bytes) (hleft : left.length ≤ st.buffer.vacantSlices.1)
      (hright : right.length ≤ st.buffer.vacantSlices.2)
      (hfull : left.length < st.buffer.vacantSlices.1 → right = [])
      (hbuffer : st'.buffer = (st.buffer.fill left right).advanceWrite (left.length + right.length))
      (haccepted : st'.accepted = st.accepted ++ (left ++ right).map (fun b => (id, b)))
      (hdelivered : st'.delivered = st.delivered)
  | resized (newSize : UInt64) (memory : Bool)
      (h : resize st.buffer newSize memory = some (.ok st'.buffer))
      (haccepted : st'.accepted = st.accepted) (hdelivered : st'.delivered = st.delivered)

section Bytes

variable {st st' : PipeState} {t : Nat}

variable {e : AxError} {left right : AxResult Nat}

theorem fault_ne_ok {α : Type} {a : α} : fault e ≠ some (.ok a) := by grind [fault]

theorem fault_eq_error {α : Type} {e' : AxError}
    (h : (fault e : Option (AxResult α)) = some (.error e')) : e' ≠ .wouldBlock := by
  grind [fault]

theorem copied_le {slices : Bytes × Bytes} {count : Nat}
    (h : copied slices left right = some (.ok count)) :
    count ≤ slices.1.length + slices.2.length := by
  unfold copied at h
  split at h
  · exact absurd h fault_ne_ok
  · grind [fault_ne_ok]

theorem filled_spec {vacant : Nat × Nat} {remaining : Nat} {left right : AxResult Bytes}
    {ls rs : Bytes} (h : filled vacant remaining left right = some (.ok (ls, rs))) :
    ls.length ≤ vacant.1 ∧ rs.length ≤ vacant.2 ∧ (ls.length < vacant.1 → rs = [])
      ∧ ls.length + rs.length ≤ remaining := by
  unfold filled at h
  split at h
  · exact absurd h fault_ne_ok
  split at h
  · cases h
  · split at h
    · grind
    · grind [fault_ne_ok]

theorem copied_error {slices : Bytes × Bytes}
    (h : copied slices left right = some (.error e)) : e ≠ .wouldBlock := by
  unfold copied at h
  split at h
  · exact fault_eq_error h
  · grind [fault_eq_error]

theorem filled_error {vacant : Nat × Nat} {remaining : Nat} {left right : AxResult Bytes}
    (h : filled vacant remaining left right = some (.error e)) :
    e ≠ .wouldBlock ∧ ((∃ e', left = .error e') ∨ ∃ e', right = .error e') := by
  unfold filled at h
  split at h
  next e' => exact ⟨fault_eq_error h, .inl ⟨e', rfl⟩⟩
  split at h
  · cases h
  split at h
  · cases h
  · split at h
    next e' => exact ⟨fault_eq_error h, .inr ⟨e', rfl⟩⟩
    · grind

theorem Moves.settled (io : PipeIo) (p : PipePoint) : Moves st (st.settle t io p) :=
  .same (st.settle_buffer t io p) (st.settle_accepted t io p) (st.settle_delivered t io p)

theorem closure_moves {call : PipeCall} {pos : PipePos} (hs : st.closure t call pos = some st') :
    Moves st st' := by
  unfold closure at hs
  cases pos with
  | lock => cases hs
  | check =>
    cases hio : call.io with
    | read =>
      simp only [hio] at hs
      cases hs
      exact .settled _ _
    | write id size total =>
      simp only [hio] at hs
      split at hs
      · cases hs
        exact .settled _ _
      · cases hs
        exact .settled _ _
  | wake n =>
    cases hio : call.io with
    | read =>
      simp only [hio] at hs
      cases hs
      refine .same ?_ ?_ ?_ <;> simp [wakeTx]
    | write id size total =>
      simp only [hio] at hs
      cases hs
      refine .same ?_ ?_ ?_ <;> simp [wakeRx]
  | flag =>
    cases hio : call.io with
    | read =>
      simp only [hio] at hs
      cases hs
    | write id size total =>
      simp only [hio] at hs
      cases hs
      exact .settled _ _

theorem next_moves (hs : st.next t = some st') : Moves st st' := by
  unfold next at hs
  split at hs
  · cases hs
  next call hpc =>
    split at hs
    · exact closure_moves hs
    · exact closure_moves hs
    · cases hs
      cases call.io <;> exact .same rfl rfl rfl
    · obtain ⟨call', -, rfl⟩ := Option.map_eq_some_iff.mp hs
      exact .settled _ _

theorem copyOut_moves (hs : st.copyOut t left right = some st') : Moves st st' := by
  unfold copyOut at hs
  split at hs
  · cases hs
  split at hs
  · obtain ⟨result, hcopied, rfl⟩ := Option.map_eq_some_iff.mp hs
    cases result with
    | error e => exact .settled _ _
    | ok count =>
      have hle := copied_le hcopied
      rw [RingBuffer.length_asSlices] at hle
      exact .took count hle rfl rfl rfl
  · cases hs

theorem copyIn_moves {left right : AxResult Bytes}
    (hs : st.copyIn t left right = some st') : Moves st st' := by
  unfold copyIn at hs
  split at hs
  · cases hs
  split at hs
  next id size total _ _ =>
    obtain ⟨result, hfilled, rfl⟩ := Option.map_eq_some_iff.mp hs
    cases result with
    | error e => exact .settled _ _
    | ok bytes =>
      obtain ⟨hleft, hright, hfull, -⟩ := filled_spec hfilled
      simp only [put]
      split
      · exact .settled _ _
      · exact .put id bytes.1 bytes.2 hleft hright hfull rfl rfl rfl
  · cases hs

/-- **One step.** -/
theorem step_moves {op : PipeOp} (hs : st.step op = some st') : Moves st st' := by
  cases op with
  | read t isRead isFull =>
    obtain ⟨-, rfl⟩ := guard_eq_some hs
    unfold read
    split
    · exact .settled _ _
    · split <;> exact .settled _ _
  | write t isWrite size =>
    obtain ⟨-, rfl⟩ := guard_eq_some hs
    simp only [write]
    split
    · exact .same rfl rfl rfl
    · split <;> exact .same rfl rfl rfl
  | next t => exact next_moves hs
  | copyOut t left right => exact copyOut_moves hs
  | copyIn t left right => exact copyIn_moves hs
  | interrupted t =>
    simp only [step] at hs
    split at hs
    · cases hs
      exact .settled _ _
    · cases hs
  | unpark t =>
    obtain ⟨p, -, rfl⟩ := Option.map_eq_some_iff.mp hs
    exact .same rfl rfl rfl
  | setNonblocking isRead nonBlocking =>
    cases hs
    cases isRead <;> exact .same rfl rfl rfl
  | resize newSize memory =>
    simp only [step] at hs
    split at hs
    · cases hs
    · cases hs
      exact .same rfl rfl rfl
    next buffer hresize =>
      cases hs
      exact .resized newSize memory hresize rfl rfl
  | drop isRead | release isRead =>
    cases isRead <;>
    · obtain ⟨-, rfl⟩ := guard_eq_some hs
      exact .same rfl rfl rfl

end Bytes

/-- **The ring is what was accepted and is not delivered yet.** -/
def InOrder (st : PipeState) : Prop :=
  st.accepted.map Prod.snd = st.delivered ++ st.buffer.contents

theorem InOrder.step {st st' : PipeState} {op : PipeOp} (h : st.InOrder)
    (hs : st.step op = some st') : st'.InOrder := by
  unfold InOrder at h ⊢
  cases step_moves hs with
  | same hbuffer haccepted hdelivered =>
    rw [hbuffer, haccepted, hdelivered]
    exact h
  | took count hcount hbuffer haccepted hdelivered =>
    rw [hbuffer, haccepted, hdelivered, RingBuffer.contents_advanceRead _ hcount,
      List.append_assoc, List.take_append_drop]
    exact h
  | put id left right hleft hright hfull hbuffer haccepted hdelivered =>
    rw [hbuffer, haccepted, hdelivered, RingBuffer.contents_fill _ hleft hright hfull,
      List.map_append, h, List.map_map, List.append_assoc]
    congr 2
    exact List.map_id _
  | resized newSize memory hresize haccepted hdelivered =>
    rw [haccepted, hdelivered, contents_of_resize hresize]
    exact h

/-- **A PIPE IS A FIFO.**  In every run the bytes that reads have returned are a prefix of those
that writes have accepted; and wherever a resize comes, it rounds, keeps the bytes and fails as it
should if, and only if, the size is not within a page of 2^64 and a new ring of that size can be
had where one is needed. -/
theorem pipe_is_fifo (st : PipeState) (h : Reach step Always new st) :
    st.delivered <+: st.accepted.map Prod.snd
      ∧ ∀ newSize memory,
        ResizesWell st.buffer newSize memory ↔ Resizable st.buffer newSize memory := by
  have hstart : new.InOrder := by rfl
  have hinv := h.invariant InOrder hstart (fun _ _ _ hinv _ => hinv.step)
  refine ⟨?_, resizesWell_iff st.buffer⟩
  rw [show st.accepted.map Prod.snd = _ from hinv]
  exact List.prefix_append _ _

/-- Three bytes are written, the ring shrinks to a page, two bytes are read. -/
theorem shrunk_pipe_reads_in_order :
    ∃ st, Reach step Always new st ∧ st.buffer.capacity = 4096 ∧ st.delivered = [1, 2]
      ∧ st.delivered <+: st.accepted.map Prod.snd := by
  obtain ⟨st, hst, hc⟩ := exists_reach step new
    [.write 0 true 3, .next 0, .next 0, .copyIn 0 (.ok [1, 2, 3]) (.ok []), .next 0, .next 0,
      .resize 1 true, .read 1 true false, .next 1, .copyOut 1 (.ok 2) (.ok 0), .next 1]
    (fun st => st.buffer.capacity = 4096 ∧ st.delivered = [1, 2]) (by decide +kernel)
  exact ⟨st, hst, hc.1, hc.2, (pipe_is_fifo st hst).1⟩

/-- **A resize to `usize::MAX` is refused**: the rounded size is 0, smaller than the one byte in
the pipe.  With no byte in it the kernel panics, and so it does at 2^63 bytes, or when there is no
memory for a page more. -/
theorem huge_resize_is_refused : (∃ st, Reach step Always new st ∧ st.buffer.len = 1
      ∧ resize st.buffer 0xffffffffffffffff true = some (.error .resourceBusy)
      ∧ ¬ ResizesWell st.buffer 0xffffffffffffffff true)
    ∧ resize new.buffer 0xffffffffffffffff true = none
    ∧ resize new.buffer 0x8000000000000000 true = none
    ∧ resize new.buffer 69632 false = none := by
  refine ⟨?_, by decide +kernel, by decide +kernel, by decide +kernel⟩
  obtain ⟨st, hst, hc⟩ := exists_reach step new
    [.write 0 true 1, .next 0, .next 0, .copyIn 0 (.ok [7]) (.ok [])]
    (fun st => st.buffer.len = 1 ∧ st.buffer.capacity = 65536) (by decide +kernel)
  have hround : roundUp 0xffffffffffffffff = 0 := by decide
  refine ⟨st, hst, hc.1, ?_, ?_⟩
  · unfold resize
    rw [if_neg (by rw [hc.2]; decide), if_pos (by rw [hc.1]; decide)]
  · intro hwell
    exact absurd ((resizesWell_iff _ _ _).mp hwell).1 (by decide)

end PipeState

end StarryOS.File
