/-
  StarryOS.Task.PollIo — BLOCKING ON A FILE (`poll_io` of
  `modules/axtask/src/future/poll.rs`, `block_on` and `interruptible` of
  `modules/axtask/src/future/mod.rs`).

  A blocking read or write is a closure `f` that is tried again and again:

      polling       woke := false; poll_interrupt
      first         f()
      registering   pollable.register(cx, events)
      second        f()
      parking       Pending: park, unless `woke`
      parked

  `f` is not atomic: `π` is where a thread is in it, and `κ` is the operation with
  what it has captured.  A waker belongs to ONE `block_on`: what the wakers of
  earlier calls do to a parked thread, and who else makes it run, is `unpark`.
-/
import StarryOS.Errno
import StarryOS.Lib.Threads

namespace StarryOS.Task

open Lib

inductive IoPhase (π : Type) where
  /-- At the head of the loop of `block_on`. -/
  | polling
  /-- In the closure, for the first time in this round. -/
  | first (pos : π)
  | registering
  /-- In the closure again. -/
  | second (pos : π)
  /-- `block_on` has seen `Pending`. -/
  | parking
  | parked
  deriving Repr, DecidableEq

/-- A call inside `block_on(poll_io(..))`. -/
structure IoCall (κ π : Type) where
  io : κ
  /-- The argument of `poll_io`. -/
  nonBlocking : Bool
  /-- `woke` of the waker. -/
  woke : Bool
  phase : IoPhase π
  deriving Repr, DecidableEq

/-- Where a thread is. -/
inductive IoPoint (κ π : Type) where
  | returned (result : AxResult Nat)
  | inside (call : IoCall κ π)
  deriving DecidableEq

instance {κ π : Type} : Inhabited (IoPoint κ π) := ⟨.returned (.ok 0)⟩

namespace IoCall

variable {κ π : Type}

/-- `block_on(poll_io(..))` begins. -/
def start (io : κ) (nonBlocking : Bool) : IoCall κ π := ⟨io, nonBlocking, false, .polling⟩

variable (call : IoCall κ π)

/-- Where the thread is in the closure. -/
def pos? : Option π :=
  match call.phase with
  | .first pos => some pos
  | .second pos => some pos
  | _ => none

/-- The thread goes on in the closure. -/
def goto (pos : π) : IoCall κ π :=
  { call with phase := match call.phase with
      | .second _ => .second pos
      | _ => .first pos }

/-- The closure has returned `result`. -/
def finish (result : AxResult Nat) : IoPoint κ π :=
  match result with
  | .error .wouldBlock =>
    match call.phase with
    | .second _ => .inside { call with phase := .parking }
    | _ =>
      if call.nonBlocking then .returned (.error .wouldBlock)
      else .inside { call with phase := .registering }
  | result => .returned result

/-- `block_on` goes on: into the closure at `entry`, round its loop, or to sleep. -/
def loop (entry : π) : Option (IoCall κ π) :=
  match call.phase with
  | .polling => some { call with woke := false, phase := .first entry }
  | .parking => some { call with phase := if call.woke then .polling else .parked }
  | _ => none

/-- The call has returned, or it waits: after a second attempt it parks, after a first one it
registers. -/
theorem finish_cases (result : AxResult Nat) :
    (∃ r, call.finish result = .returned r)
      ∨ (result = .error .wouldBlock ∧ (∃ pos, call.phase = .second pos)
        ∧ call.finish result = .inside { call with phase := .parking })
      ∨ call.finish result = .inside { call with phase := .registering } := by
  unfold finish
  grind

theorem finish_eq_ok {call : IoCall κ π} {result : AxResult Nat} {n : Nat}
    (h : call.finish result = .returned (.ok n)) : result = .ok n := by
  unfold finish at h
  grind

/-- A call that does not return what its closure has returned waits. -/
theorem finish_returns_or_waits (result : AxResult Nat) :
    call.finish result = .returned result
      ∨ (result = .error .wouldBlock ∧ ∃ phase, (phase = .parking ∨ phase = .registering)
        ∧ call.finish result = .inside { call with phase := phase }) := by grind [finish]

theorem pos?_goto (pos : π) : (call.goto pos).pos? = some pos := by
  obtain ⟨io, nonBlocking, woke, phase⟩ := call
  cases phase <;> rfl

end IoCall

namespace IoPoint

variable {κ π : Type} (p : IoPoint κ π)

def call? : IoPoint κ π → Option (IoCall κ π)
  | .returned _ => none
  | .inside call => some call

def atRest : Bool := p.call?.isNone

/-- Where the thread is in its closure. -/
def pos? : Option π := p.call?.bind IoCall.pos?

/-- `AxWaker::wake`. -/
def wake : IoPoint κ π → IoPoint κ π
  | .returned result => .returned result
  | .inside call => .inside { call with
      woke := true
      phase := match call.phase with
        | .parked => .polling
        | phase => phase }

theorem wake_wake : p.wake.wake = p.wake := by
  cases p with
  | returned result => rfl
  | inside call =>
    obtain ⟨io, nonBlocking, woke, phase⟩ := call
    cases phase <;> rfl

theorem pos?_wake : p.wake.pos? = p.pos? := by
  cases p with
  | returned result => rfl
  | inside call =>
    obtain ⟨io, nonBlocking, woke, phase⟩ := call
    cases phase <;> rfl

/-- Some threads are woken and one moves: what waking does not change is changed for that one. -/
theorem wake_goto {β : Type} {g : IoPoint κ π → β} (hg : ∀ p, g p.wake = g p)
    (ts : Threads (IoPoint κ π)) (l : List Nat) (t : Nat) (p : IoPoint κ π) (u : Nat) :
    g (((ts.updateAll wake l).goto t p).pc u) = if u = t then g p else g (ts.pc u) := by
  rw [Threads.pc_goto, Threads.pc_updateAll wake_wake]
  grind

/-- What holds at every point, and is kept by waking, holds after such a step. -/
theorem forall_wake_goto {P : IoPoint κ π → Prop} (hP : ∀ p, P p → P p.wake)
    {ts : Threads (IoPoint κ π)} (h : ∀ u, P (ts.pc u)) (l : List Nat) (t : Nat)
    {p : IoPoint κ π} (hp : P p) (u : Nat) : P (((ts.updateAll wake l).goto t p).pc u) := by
  rw [Threads.pc_goto, Threads.pc_updateAll wake_wake]
  split
  · exact hp
  · split
    · exact hP _ (h u)
    · exact h u

/-- A parked thread runs again. -/
def unpark : IoPoint κ π → Option (IoPoint κ π)
  | .inside ⟨io, nonBlocking, woke, .parked⟩ => some (.inside ⟨io, nonBlocking, woke, .polling⟩)
  | _ => none

theorem pos?_finish (call : IoCall κ π) (result : AxResult Nat) :
    (call.finish result).pos? = none := by
  unfold IoCall.finish
  split
  · split
    · rfl
    · split <;> rfl
  · rfl

theorem pos?_atRest {p : IoPoint κ π} (h : p.atRest = true) : p.pos? = none := by
  cases p with
  | returned result => rfl
  | inside call => cases h

end IoPoint

end StarryOS.Task
