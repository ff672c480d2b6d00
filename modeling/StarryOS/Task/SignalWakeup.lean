/-
  StarryOS.Task.SignalWakeup — FROM `send_signal` TO THE WAKER OF A WAITING THREAD
  (`interrupt`, `poll_interrupt` and `clear_interrupt` of
  `modules/axtask/src/task.rs`, `block_on` and `interruptible` of
  `modules/axtask/src/future/mod.rs`, the loop of `kernel/src/task/user.rs`).

  One thread goes around its loop, and in a system call it may wait:

      wait      woke := false; swap `interrupted`; register; poll; park
      return    unblock_next_signal; while check_signals {}; clear_interrupt

  Any number of senders come in between, each of them step by step:

      send      put the signal; look at `blocked`; store `interrupted`; wake

  What carries a signal to the thread is `interrupted`.  It is lost when
  `clear_interrupt` throws it away after the last look for signals, and it is
  never set when the thread itself unblocks a signal that is already pending.
  In all other runs a waiting thread has been told (`signals_are_heard`).
-/
import StarryOS.Lib.Threads
import StarryOS.Task.SignalMask

namespace StarryOS.Task.SignalWakeup

open Lib Threads
open Task.SignalMask (Signo SignalSet)

/-! ## §1. Queues. -/

/-- `PendingSignals::put_signal`: standard signals do not queue. -/
def putSignal (queue : List Signo) (s : Signo) : List Signo :=
  if s.val + 1 < 32 ∧ s ∈ queue then queue else queue ++ [s]

/-! ## §2. The thread and those who signal it. -/

/-- Where a call of `send_signal_to_thread` or `send_signal_to_process` is. -/
inductive Sender where
  | idle
  /-- The signal is in the queue; `blocked` is read next. -/
  | posted (s : Signo) (toProcess : Bool)
  /-- In `interrupt`, before the store. -/
  | interrupting
  /-- In `interrupt`, before `wake`. -/
  | waking
  deriving Repr, DecidableEq

instance : Inhabited Sender := ⟨.idle⟩

/-- What `interrupt_waker` holds. -/
inductive WakerSlot where
  | empty
  /-- A waker of an earlier `block_on`. -/
  | stale
  | current
  deriving Repr, DecidableEq

/-- Where the thread is.  In a system call, `drained` says that the call has already taken
the interrupt. -/
inductive Point where
  | user
  | kernel (drained : Bool)
  /-- `block_on`, at the head of its loop. -/
  | polling (drained : Bool)
  /-- `poll_interrupt`, before the swap. -/
  | testing (drained : Bool)
  /-- `poll_interrupt`, before `register`. -/
  | registering (drained : Bool)
  /-- Before the inner future is polled. -/
  | probing (drained : Bool)
  /-- `block_on` has seen `Pending`. -/
  | parking (drained : Bool)
  | parked (drained : Bool)
  /-- Back in the loop, before `unblock_next_signal`. -/
  | returning
  /-- In `while check_signals(..) {}`. -/
  | checking
  /-- Before `clear_interrupt`. -/
  | checked
  | exited
  deriving Repr, DecidableEq

/-- The waiting thread and its senders. -/
structure World where
  blocked : SignalSet
  /-- Pending for the thread, and for its process. -/
  thread : List Signo
  process : List Signo
  interrupted : Bool
  interruptWaker : WakerSlot
  /-- `woke` of the current `block_on`. -/
  woke : Bool
  /-- The interrupt waker has been woken since the thread last polled; nobody reads this. -/
  woken : Bool
  point : Point
  senders : Threads Sender

variable (w : World)

def World.pending : List Signo := w.thread ++ w.process

/-- The signal is pending and not blocked. -/
def World.deliverable (s : Signo) : Bool := !w.blocked.has s && w.pending.contains s

/-- What may happen. -/
inductive Event where
  /-- The thread enters the kernel. -/
  | enter
  | setBlocked (set : SignalSet)
  /-- `check_signals` takes a signal; a handler adds to the blocked set. -/
  | handle (s : Signo) (mask : SignalSet)
  /-- `dequeue_signal` of `rt_sigtimedwait` and of a signalfd. -/
  | dequeue (s : Signo)
  /-- `poll_interrupt` of `rt_sigtimedwait` and `rt_sigsuspend`, which wait in their own way. -/
  | drain
  /-- `block_on(interruptible(..))`. -/
  | wait
  | next
  /-- The inner future is ready. -/
  | ready
  /-- The system call is done. -/
  | finish
  /-- `unblock_next_signal` returns this. -/
  | unblock (skip : Bool)
  | leave
  /-- A sender puts a signal. -/
  | post (k : Nat) (s : Signo) (toProcess : Bool)
  /-- A sender goes on; for a process, this thread is the one it looks at. -/
  | send (k : Nat)
  /-- A sender to the process has found another thread. -/
  | sendOther (k : Nat)
  /-- Another thread takes a signal of the process. -/
  | stolen (s : Signo)
  /-- What the inner future waits for wakes the thread. -/
  | event
  deriving Repr, DecidableEq

/-! ## §3. Steps. -/

def World.goto (p : Point) : World := { w with point := p }

/-- A signal leaves the queue of the thread or, if it is not there, that of the process. -/
def World.remove (s : Signo) : World :=
  if w.thread.contains s then { w with thread := w.thread.erase s }
  else { w with process := w.process.erase s }

/-- `unblock_task`. -/
def Point.unpark : Point → Point
  | .parked drained => .polling drained
  | p => p

/-- `AxWaker::wake`, of this `block_on`. -/
def World.wake : World := { w with woke := true, point := w.point.unpark }

/-- `interrupt_waker.wake()`: the waker is taken out. -/
def World.wakeInterrupt : World :=
  match w.interruptWaker with
  | .empty => w
  | .stale => { w with interruptWaker := .empty, woken := true, point := w.point.unpark }
  | .current => { w.wake with interruptWaker := .empty, woken := true }

/-- The next line of the thread's own code, where there is one. -/
def World.advance : Option World :=
  match w.point with
  -- a new round of `block_on`
  | .polling drained => some { w with woke := false, point := .testing drained }
  -- `poll_interrupt`, in two lines
  | .testing drained =>
    if w.interrupted then some
      { w with interrupted := false, woken := false, point := .kernel true }
    else some { w with woken := false, point := .registering drained }
  | .registering drained => some { w with interruptWaker := .current, point := .probing drained }
  | .probing drained => some (w.goto (.parking drained))
  -- under the lock of `woke`
  | .parking drained => some (w.goto (if w.woke then .polling drained else .parked drained))
  | .checking => if w.pending.all w.blocked.has then some (w.goto .checked) else none
  -- `clear_interrupt`, whatever has come since
  | .checked => some { w with interrupted := false, point := .user }
  | _ => none

/-- The next line of a sender. -/
def World.advanceSender (k : Nat) : Option World :=
  match w.senders.pc k with
  -- `send_signal` returns whether the signal is not blocked
  | .posted s _ =>
    some { w with senders := w.senders.goto k (if w.blocked.has s then .idle else .interrupting) }
  -- `interrupt`, in two lines
  | .interrupting => some { w with interrupted := true, senders := w.senders.goto k .waking }
  | .waking => some { w.wakeInterrupt with senders := w.senders.goto k .idle }
  | .idle => none

def step : Event → Option World
  | .enter => if w.point = .user then some (w.goto (.kernel false)) else none
  | .setBlocked set =>
    match w.point with
    | .kernel _ => some { w with blocked := set }
    | _ => none
  | .handle s mask =>
    if w.deliverable s then
      match w.point with
      | .kernel _ | .checking => some { w.remove s with blocked := w.blocked ||| mask }
      | _ => none
    else none
  | .dequeue s =>
    match w.point with
    | .kernel _ => if w.pending.contains s then some (w.remove s) else none
    | _ => none
  | .drain =>
    match w.point with
    | .kernel _ =>
      if w.interrupted then some { w with interrupted := false, point := .kernel true }
      else some { w with interruptWaker := .stale }
    | _ => none
  | .wait =>
    match w.point with
    | .kernel drained =>
      some { w with
        interruptWaker := if w.interruptWaker = .empty then .empty else .stale
        point := .polling drained }
    | _ => none
  | .next => w.advance
  | .ready =>
    match w.point with
    | .probing drained => some (w.goto (.kernel drained))
    | _ => none
  | .finish =>
    match w.point with
    | .kernel _ => some (w.goto .returning)
    | _ => none
  | .unblock skip =>
    if w.point = .returning then some (w.goto (if skip then .checked else .checking)) else none
  | .leave => if w.point = .user then some (w.goto .exited) else none
  | .post k s toProcess =>
    if w.senders.pc k = .idle then
      let w := { w with senders := w.senders.goto k (.posted s toProcess) }
      if toProcess then some { w with process := putSignal w.process s }
      else some { w with thread := putSignal w.thread s }
    else none
  | .send k => w.advanceSender k
  | .sendOther k =>
    match w.senders.pc k with
    | .posted _ true => some { w with senders := w.senders.goto k .idle }
    | _ => none
  | .stolen s => some { w with process := w.process.erase s }
  | .event => some w.wake

/-! ## §4. What the thread has been told. -/

/-- The sender will store `interrupted` for this signal, unless it finds it blocked. -/
def Sender.tells (s : Signo) : Sender → Bool
  | .posted s' _ => s' = s
  | .interrupting => true
  | _ => false

/-- Somebody is on the way to tell the thread. -/
def World.toldSoon (s : Signo) : Bool := w.senders.any (Sender.tells s)

/-- The thread owes no further look for signals before it waits. -/
def Point.attends : Point → Bool
  | .user => true
  | .kernel drained | .polling drained | .testing drained | .registering drained
  | .probing drained | .parking drained | .parked drained => !drained
  | _ => false

/-- A call that has taken the interrupt waits again. -/
def Point.rewaits : Point → Bool
  | .polling drained | .testing drained | .registering drained | .probing drained
  | .parking drained | .parked drained => drained
  | _ => false

/-- The steps that do not lose a signal:
* at `clear_interrupt`, whoever has sent a deliverable signal has yet to store the flag,
* `set_blocked` unblocks a pending signal only if the flag is or will be set,
* a call whose wait was interrupted does not wait again,
* a sender leaves a signal to another thread only if it does not find this one waiting for it. -/
def heeds : Event → Bool
  | .next => w.point != .checked || w.pending.all (fun s => w.blocked.has s || w.toldSoon s)
  | .setBlocked set => w.interrupted ||
      w.pending.all (fun s => set.has s || !w.blocked.has s || w.toldSoon s)
  | .wait => w.point == .kernel false
  | .sendOther k => w.interrupted ||
      w.pending.all (fun s => w.blocked.has s || (w.senders.goto k .idle).any (Sender.tells s))
  | _ => true

/-- **The invariant**: a thread that will not look for signals before it waits has been told
of every deliverable one, or is about to be. -/
@[grind cases] structure Heard : Prop where
  told : w.point.attends = true → ∀ s, w.deliverable s = true →
    w.interrupted = true ∨ w.toldSoon s = true
  once : w.point.rewaits = false

theorem deliverable_iff (s : Signo) :
    w.deliverable s = true ↔ w.blocked.has s = false ∧ s ∈ w.pending := by
  simp [World.deliverable]

variable {w w' : World} {s : Signo} {k : Nat}

theorem resolve_blocked {q : Prop} (hd : w.deliverable s = true) (h : w.blocked.has s = true ∨ q) :
    q := by
  rcases h with hb | hq
  · rw [((deliverable_iff w s).mp hd).1] at hb
    cases hb
  · exact hq

theorem mem_pending (hd : w.deliverable s = true) : s ∈ w.pending :=
  ((deliverable_iff w s).mp hd).2

theorem toldSoon_iff (w : World) (s : Signo) :
    w.toldSoon s = true ↔ ∃ k, (w.senders.pc k).tells s = true :=
  w.senders.any_eq_true_iff (Sender.tells s) rfl

/-- A sender that goes on tells what it told, the others are where they were. -/
theorem toldSoon_goto {p : Sender} (h : w.toldSoon s = true)
    (hk : (w.senders.pc k).tells s = true → p.tells s = true) :
    (w.senders.goto k p).any (Sender.tells s) = true := by
  obtain ⟨k', hk'⟩ := (toldSoon_iff w s).mp h
  refine (any_eq_true_iff _ (Sender.tells s) rfl).mpr ⟨k', ?_⟩
  rw [pc_goto]
  split
  next he => exact hk (he ▸ hk')
  · exact hk'

/-- The thread's point, queues and mask may change in ways that ask for less. -/
theorem Heard.mono (h : Heard w) (honce : w'.point.rewaits = false)
    (hpoint : w'.point.attends = true → w.point.attends = true)
    (hless : ∀ s, w'.deliverable s = true → w.deliverable s = true)
    (htold : ∀ s, w'.deliverable s = true → w.interrupted = true ∨ w.toldSoon s = true →
      w'.interrupted = true ∨ w'.toldSoon s = true) : Heard w' :=
  ⟨fun hp s hs => htold s hs (h.told (hpoint hp) s (hless s hs)), honce⟩

/-- The mask, the queues, the flag and the senders are left alone. -/
structure SameSignals (w w' : World) : Prop where
  blocked : w'.blocked = w.blocked
  pending : w'.pending = w.pending
  interrupted : w'.interrupted = w.interrupted
  senders : w'.senders = w.senders

/-- The thread goes on from `p` and owes what it owed. -/
theorem Heard.along {p : Point} (h : Heard w) (hsame : SameSignals w w') (hp : w.point = p)
    (hattends : w'.point.attends = p.attends) (hrewaits : w'.point.rewaits = p.rewaits) :
    Heard w' := by
  subst hp
  refine h.mono (hrewaits.trans h.once) hattends.symm.trans ?_ ?_
  · intro s hd
    rw [deliverable_iff, hsame.blocked, hsame.pending] at hd
    exact (deliverable_iff w s).mpr hd
  · intro s _ ht
    unfold World.toldSoon
    rw [hsame.interrupted, hsame.senders]
    exact ht

theorem remove_deliverable {s' : Signo} (h : (w.remove s).deliverable s' = true) :
    w.deliverable s' = true := by
  rw [deliverable_iff] at h ⊢
  unfold World.remove at h
  split at h
  · exact ⟨h.1, (List.erase_sublist.append_right _).subset h.2⟩
  · exact ⟨h.1, (List.erase_sublist.append_left _).subset h.2⟩

theorem unpark_attends (p : Point) : p.unpark.attends = p.attends := by
  cases p <;> rfl

theorem unpark_rewaits (p : Point) : p.unpark.rewaits = p.rewaits := by
  cases p <;> rfl

/-! ## §5. Every step that heeds keeps it. -/

theorem wake_same (w : World) : SameSignals w w.wake := ⟨rfl, rfl, rfl, rfl⟩

theorem Heard.wake (h : Heard w) : Heard w.wake :=
  h.along (wake_same w) rfl (unpark_attends w.point) (unpark_rewaits w.point)

theorem wakeInterrupt_same (w : World) : SameSignals w w.wakeInterrupt := by
  unfold World.wakeInterrupt
  split <;> exact ⟨rfl, rfl, rfl, rfl⟩

theorem Heard.wakeInterrupt (h : Heard w) : Heard w.wakeInterrupt := by
  refine h.along (wakeInterrupt_same w) rfl ?_ ?_ <;> unfold World.wakeInterrupt
  · split
    · rfl
    · exact unpark_attends w.point
    · exact unpark_attends w.point
  · split
    · rfl
    · exact unpark_rewaits w.point
    · exact unpark_rewaits w.point

/-- A thread that will look for signals before it waits owes nothing. -/
theorem heard_of_looks (hattends : w.point.attends = false) (hrewaits : w.point.rewaits = false) :
    Heard w :=
  ⟨fun ha => absurd (hattends.symm.trans ha) Bool.false_ne_true, hrewaits⟩

/-- The thread's own code.  `clear_interrupt` is the one line that needs a condition. -/
theorem Heard.advance (h : Heard w) (hok : heeds w .next = true) (hs : w.advance = some w') :
    Heard w' := by
  unfold World.advance at hs
  generalize hp : w.point = p at hs
  cases p with
  | polling drained | registering drained | probing drained =>
    cases hs
    exact h.along ⟨rfl, rfl, rfl, rfl⟩ hp rfl rfl
  | testing drained =>
    simp only at hs
    split at hs
    · -- the interrupt is taken: the call is on its way out
      cases hs
      exact heard_of_looks rfl rfl
    · cases hs
      exact h.along ⟨rfl, rfl, rfl, rfl⟩ hp rfl rfl
  | parking drained =>
    cases hs
    cases w.woke with
    | false | true => exact h.along ⟨rfl, rfl, rfl, rfl⟩ hp rfl rfl
  | checking =>
    obtain ⟨-, rfl⟩ := guard_eq_some hs
    exact heard_of_looks rfl rfl
  | checked =>
    cases hs
    unfold heeds at hok
    simp only [hp, bne_self_eq_false, Bool.false_or, List.all_eq_true, Bool.or_eq_true] at hok
    have hd' : ∀ s, w.deliverable s = true → w.toldSoon s = true :=
      fun s hd => resolve_blocked hd (hok s (mem_pending hd))
    exact ⟨fun _ s hd => .inr (hd' s hd), rfl⟩
  | user | kernel drained | parked drained | returning | exited => cases hs

theorem Heard.advanceSender (h : Heard w) (hs : w.advanceSender k = some w') : Heard w' := by
  unfold World.advanceSender at hs
  generalize hk : w.senders.pc k = p at hs
  cases p with
  | idle => cases hs
  | posted s toProcess =>
    cases hs
    refine h.mono h.once id (fun _ => id) (fun s' hd ht => ?_)
    rcases ht with ht | ht
    · exact .inl ht
    refine .inr (toldSoon_goto ht (fun htell => ?_))
    -- a sender that finds the signal blocked leaves nothing deliverable untold
    rw [hk] at htell
    have he : s = s' := of_decide_eq_true htell
    have hb : w.blocked.has s = false := he ▸ ((deliverable_iff _ _).mp hd).1
    rw [hb]
    rfl
  | interrupting =>
    cases hs
    exact h.mono h.once id (fun _ => id) (fun _ _ _ => .inl rfl)
  | waking =>
    cases hs
    refine h.wakeInterrupt.mono h.wakeInterrupt.once id (fun _ => id) (fun s _ ht => ?_)
    rcases ht with ht | ht
    · exact .inl ht
    refine .inr ?_
    have ht : w.toldSoon s = true := by
      unfold World.toldSoon at ht
      rw [(wakeInterrupt_same w).senders] at ht
      exact ht
    exact toldSoon_goto ht (fun htell => by rw [hk] at htell; cases htell)

theorem Heard.post (h : Heard w) {toProcess : Bool} (hk : w.senders.pc k = .idle)
    (hpending : ∀ s', s' ∈ w'.pending → s' = s ∨ s' ∈ w.pending)
    (hsame : w'.blocked = w.blocked ∧ w'.interrupted = w.interrupted ∧ w'.point = w.point ∧
      w'.senders = w.senders.goto k (.posted s toProcess)) : Heard w' := by
  obtain ⟨hb, hi, hp, hsend⟩ := hsame
  refine ⟨fun ha s' hd => ?_, hp ▸ h.once⟩
  rw [deliverable_iff, hb] at hd
  rcases hpending s' hd.2 with he | hm
  · -- the new signal: its sender has yet to look at `blocked`
    right
    refine (toldSoon_iff w' s').mpr ⟨k, ?_⟩
    rw [hsend, pc_goto, if_pos rfl, he]
    exact decide_eq_true rfl
  · rcases h.told (hp ▸ ha) s' ((deliverable_iff w s').mpr ⟨hd.1, hm⟩) with ht | ht
    · exact .inl (hi.trans ht)
    · right
      show w'.senders.any _ = true
      rw [hsend]
      exact toldSoon_goto ht (fun htell => by rw [hk] at htell; cases htell)

theorem mem_putSignal {queue : List Signo} {s' : Signo} (h : s' ∈ putSignal queue s) :
    s' = s ∨ s' ∈ queue := by grind [putSignal]

section

variable (h : Heard w)
include h

/-- `set_blocked` may unblock what is pending only if the thread is told. -/
theorem Heard.setBlocked {set : SignalSet} (hok : heeds w (.setBlocked set) = true) :
    Heard { w with blocked := set } := by
  unfold heeds at hok
  simp only [Bool.or_eq_true, List.all_eq_true, or_assoc] at hok
  refine ⟨fun ha s hd => ?_, h.once⟩
  rcases hok with hi | hall
  · exact .inl hi
  have hin : s ∈ w.pending := ((deliverable_iff _ s).mp hd).2
  rcases resolve_blocked hd (hall s hin) with hold | ht
  · -- it was deliverable before
    have hb : w.blocked.has s = false := by simpa using hold
    exact h.told ha s ((deliverable_iff w s).mpr ⟨hb, hin⟩)
  · exact .inr ht

theorem Heard.sendOther (hok : heeds w (.sendOther k) = true) :
    Heard { w with senders := w.senders.goto k .idle } := by
  unfold heeds at hok
  simp only [Bool.or_eq_true, List.all_eq_true] at hok
  refine ⟨fun _ s hd => ?_, h.once⟩
  rcases hok with hi | hall
  · exact .inl hi
  · exact .inr (resolve_blocked (w := w) hd (hall s (mem_pending hd)))

theorem Heard.remove (s : Signo) : Heard (w.remove s) := by
  refine h.mono ?_ ?_ (fun _ => remove_deliverable) ?_ <;> unfold World.remove
  · split <;> exact h.once
  · split <;> exact id
  · intro s' _ ht
    split <;> exact ht

theorem Heard.blockMore (mask : SignalSet) : Heard { w with blocked := w.blocked ||| mask } := by
  refine h.mono h.once id (fun s hd => ?_) (fun _ _ => id)
  rw [deliverable_iff] at hd ⊢
  have hor : (w.blocked.has s || mask.has s) = false := by
    have := hd.1
    rwa [SignalMask.SignalSet.has, BitVec.getLsbD_or] at this
  exact ⟨(Bool.or_eq_false_iff.mp hor).1, hd.2⟩

theorem Heard.stolen (s : Signo) : Heard { w with process := w.process.erase s } := by
  refine h.mono h.once id (fun s' hd => ?_) (fun _ _ => id)
  rw [deliverable_iff] at hd ⊢
  exact ⟨hd.1, (List.erase_sublist.append_left _).subset hd.2⟩

theorem step_heard {e : Event} (hok : heeds w e = true) (hs : step w e = some w') : Heard w' := by
  cases e with
  | enter =>
    obtain ⟨hp, rfl⟩ := guard_eq_some hs
    exact h.along ⟨rfl, rfl, rfl, rfl⟩ hp rfl rfl
  | setBlocked set =>
    simp only [step] at hs
    split at hs
    · cases hs
      exact h.setBlocked hok
    · cases hs
  | handle s mask =>
    simp only [step, Option.ite_none_right_eq_some] at hs
    obtain ⟨-, hs⟩ := hs
    have hto : Heard { w.remove s with blocked := w.blocked ||| mask } := by
      have hb : (w.remove s).blocked = w.blocked := by
        unfold World.remove
        split <;> rfl
      have hmore := (h.remove s).blockMore mask
      rw [hb] at hmore
      exact hmore
    grind
  | dequeue s =>
    simp only [step] at hs
    split at hs
    · obtain ⟨-, rfl⟩ := guard_eq_some hs
      exact h.remove s
    · cases hs
  | drain =>
    simp only [step] at hs
    split at hs
    · split at hs
      · cases hs
        exact heard_of_looks rfl rfl
      · cases hs
        exact h.along ⟨rfl, rfl, rfl, rfl⟩ rfl rfl rfl
    · cases hs
  | wait =>
    have hp : w.point = .kernel false := beq_iff_eq.mp hok
    simp only [step, hp] at hs
    cases hs
    exact h.along ⟨rfl, rfl, rfl, rfl⟩ hp rfl rfl
  | next => exact h.advance hok hs
  | ready =>
    simp only [step] at hs
    split at hs
    · rename_i drained hp
      cases hs
      have honce : drained = false := by
        have := h.once
        rwa [hp] at this
      exact h.along ⟨rfl, rfl, rfl, rfl⟩ hp rfl (by rw [honce]; rfl)
    · cases hs
  | finish =>
    simp only [step] at hs
    split at hs
    · cases hs
      exact heard_of_looks rfl rfl
    · cases hs
  | unblock skip =>
    obtain ⟨-, rfl⟩ := guard_eq_some hs
    cases skip with
    | false | true => exact heard_of_looks rfl rfl
  | leave =>
    obtain ⟨-, rfl⟩ := guard_eq_some hs
    exact heard_of_looks rfl rfl
  | post k s toProcess =>
    simp only [step, Option.ite_none_right_eq_some] at hs
    obtain ⟨hk, hs⟩ := hs
    cases toProcess with
    | true =>
      cases hs
      refine h.post hk (fun s' hm => ?_) ⟨rfl, rfl, rfl, rfl⟩
      rcases List.mem_append.mp hm with hm | hm
      · exact .inr (List.mem_append_left _ hm)
      · exact (mem_putSignal hm).imp_right (List.mem_append_right _)
    | false =>
      cases hs
      refine h.post hk (fun s' hm => ?_) ⟨rfl, rfl, rfl, rfl⟩
      rcases List.mem_append.mp hm with hm | hm
      · exact (mem_putSignal hm).imp_right (List.mem_append_left _)
      · exact .inr (List.mem_append_right _ hm)
  | send k => exact h.advanceSender hs
  | sendOther k =>
    simp only [step] at hs
    split at hs
    · cases hs
      exact h.sendOther hok
    · cases hs
  | stolen s =>
    cases hs
    exact h.stolen s
  | event =>
    cases hs
    exact h.wake

end

/-! ## §6. Runs. -/

/-- A thread about to run, with no deliverable signal. -/
structure World.Fresh (w : World) : Prop where
  user : w.point = .user
  blocked : ∀ s ∈ w.pending, w.blocked.has s = true

theorem World.Fresh.heard (h : w.Fresh) : Heard w :=
  ⟨fun _ s hd => resolve_blocked hd (.inl (h.blocked s (mem_pending hd))),
    by rw [h.user]; rfl⟩

/-- **No signal is lost in the runs that heed**: a thread that waits in an interruptible call with
a deliverable signal pending, when nobody has yet to store the flag for it, has its flag set or
has been woken since it last polled. -/
theorem signals_are_heard (w₀ w : World) (h₀ : w₀.Fresh)
    (hr : Reach step (fun w e => heeds w e = true) w₀ w)
    (drained : Bool) (hparked : w.point = .parked drained) (s : Signo)
    (hs : w.deliverable s = true) (htold : w.toldSoon s = false) :
    w.interrupted = true ∨ w.woken = true := by
  have hheard : Heard w := hr.invariant Heard h₀.heard (fun _ _ _ h hok hs => step_heard h hok hs)
  have honce := hheard.once
  rw [hparked] at honce
  have hdrained : drained = false := honce
  have hattends : w.point.attends = true := by
    rw [hparked, hdrained]
    rfl
  rcases hheard.told hattends s hs with hi | ht
  · exact .inl hi
  · exact absurd (htold.symm.trans ht) Bool.false_ne_true

/-- A thread with an empty queue. -/
def World.start (blocked : SignalSet) : World :=
  ⟨blocked, [], [], false, .empty, false, false, .user, .initial⟩

theorem start_fresh (blocked : SignalSet) : (World.start blocked).Fresh :=
  ⟨rfl, nofun⟩

/-- From `kernel` to `parked`, when nothing comes in between. -/
def park : List Event := [.wait, .next, .next, .next, .next, .next]

/-- One sender, from its start to its end. -/
def signal (s : Signo) : List Event := [.post 0 s false, .send 0, .send 0, .send 0]

def quiet (w : World) : Bool := !w.senders.any (fun p => p != .idle)

/-- The signal comes between the swap and `register`, and the thread parks with its flag set;
another signal is on its way. -/
theorem signals_are_heard_run :
    ∃ w, Reach step (fun w e => heeds w e = true) (.start 0) w ∧ w.point = .parked false ∧
      w.deliverable 9 = true ∧ quiet w = false ∧ (w.interrupted = true ∨ w.woken = true) := by
  obtain ⟨w, hr, hp, hd, ht, hq⟩ := exists_reach_guarded step (.start 0) heeds
    ([.enter, .wait, .next, .next] ++ signal 9 ++ [.post 1 14 false, .next, .next, .next])
    (fun w => w.point = .parked false ∧ w.deliverable 9 ∧ w.toldSoon 9 = false ∧ quiet w = false)
    (by decide +kernel)
  exact ⟨w, hr, hp, hd, hq, signals_are_heard _ w (start_fresh 0) hr false hp 9 hd ht⟩

/-- Parked with the signal pending, the flag clear, not woken, and nobody left to do it. -/
def deafTo (s : Signo) (w : World) : Bool :=
  w.point == .parked false && w.deliverable s && !w.interrupted && !w.woken && quiet w

/-- The signal is sent between the last `check_signals` and `clear_interrupt`. -/
def lateSignal : List Event :=
  [.enter, .finish, .unblock false, .next] ++ signal 9 ++ [.next, .enter] ++ park

/-- It came while a handler had it blocked; `rt_sigreturn` unblocks it and skips the check. -/
def signalInHandler : List Event :=
  [.post 0 9 false, .send 0, .enter, .setBlocked 0, .finish, .unblock true, .next, .enter] ++ park

/-- It came while it was blocked; the call unblocks it for the time of its wait. -/
def signalForWait : List Event := [.post 0 9 false, .send 0, .enter, .setBlocked 0] ++ park

theorem deaf_of_run {blocked : SignalSet} {run : List Event}
    (h : (runs step (.start blocked) run).map (deafTo 9) = some true) :
    ∃ w, runs step (.start blocked) run = some w ∧ Reach step Always (.start blocked) w ∧
      deafTo 9 w = true := by
  rw [Option.map_eq_some_iff] at h
  obtain ⟨w, hw, hd⟩ := h
  exact ⟨w, hw, .of_runs run (runsOk_always step run _) hw, hd⟩

/-- **Signals are lost**: in each of the three runs the thread parks with signal 10 pending and
not blocked, its flag clear, and nobody on the way to wake it. -/
theorem signals_are_lost : (∃ w, runs step (.start 0) lateSignal = some w ∧
      Reach step Always (.start 0) w ∧ deafTo 9 w = true) ∧
    (∃ w, runs step (.start (1 <<< 9)) signalInHandler = some w ∧
      Reach step Always (.start (1 <<< 9)) w ∧ deafTo 9 w = true) ∧
    (∃ w, runs step (.start (1 <<< 9)) signalForWait = some w ∧
      Reach step Always (.start (1 <<< 9)) w ∧ deafTo 9 w = true) :=
  ⟨deaf_of_run (by decide +kernel), deaf_of_run (by decide +kernel),
    deaf_of_run (by decide +kernel)⟩

end StarryOS.Task.SignalWakeup
