/-
  StarryOS.Task.SignalFrames — SIGNAL FRAMES AND THE RESULT OF THE CALL
  (`sys_rt_sigsuspend`, `sys_rt_sigtimedwait` and `sys_rt_sigreturn` of
  `kernel/src/syscall/signal.rs`, the end of `handle_syscall`).

  Both calls store `-EINTR` and wait in `check_signals`, which may save the
  context in a frame and put the one that enters the handler in its place.  Then
  they return, and `handle_syscall` stores their result, in the register that is
  the first argument as well: every handler entered this way is told `-EINTR` or
  0 for its signal (`signal_frame_survives_iff`).  The saved context is right.
-/
import StarryOS.Task.SignalMask

namespace StarryOS.Task.SignalFrames

open SignalMask (Signo)

structure UserContext where
  /-- The return value and the first argument. -/
  a0 : BitVec 64
  others : Nat → BitVec 64

/-- A thread in the kernel. -/
structure Thread where
  uctx : UserContext
  /-- What the frames on the user stack have saved, the innermost first. -/
  frames : List UserContext
  /-- What the frame set-up of this call has produced; nobody reads this. -/
  produced : Option UserContext

def Thread.setRetval (thr : Thread) (value : BitVec 64) : Thread :=
  { thr with uctx := { thr.uctx with a0 := value } }

inductive SignalOSAction where
  | terminate
  | coreDump
  | stop
  | cont
  /-- With the other registers that `starry_signal` enters the handler with. -/
  | handler (others : Nat → BitVec 64)

def number (s : Signo) : BitVec 64 := .ofNat 64 (s.val + 1)

/-- `check_signals`, with what `starry_signal` finds. -/
def checkSignals (thr : Thread) : Option (Signo × SignalOSAction) → Bool × Thread
  | none => (false, thr)
  | some (s, .handler others) =>
    let entry : UserContext := ⟨number s, others⟩
    (true, { thr with uctx := entry, frames := thr.uctx :: thr.frames, produced := some entry })
  -- `do_exit` leaves the context alone
  | some _ => (true, thr)

/-- `LinuxError::code`; the errors of these calls that are not named are `EINVAL`. -/
def code : AxError → BitVec 64
  | .interrupted => 4
  | .wouldBlock => 11
  | .badAddress => 14
  | _ => 22

/-- One poll of the future. -/
inductive Turn where
  /-- `dequeue_signal` has one. -/
  | dequeued (s : Signo)
  | checks (found : Option (Signo × SignalOSAction))
  | elapsed

/-- `block_on`: the turns until the future is ready; `None` is a signal of `check_signals`. -/
def blockOn (thr : Thread) : List Turn → Option (AxResult (Option Signo) × Thread)
  | [] => none
  | .dequeued s :: _ => some (.ok (some s), thr)
  | .elapsed :: _ => some (.error .wouldBlock, thr)
  | .checks found :: rest =>
    match checkSignals thr found with
    | (true, thr') => some (.ok none, thr')
    | (false, thr') => blockOn thr' rest

/-- The two calls. -/
inductive Call where
  | rtSigsuspend (found : List (Option (Signo × SignalOSAction)))
  /-- `info` is what writing the signal information gives. -/
  | rtSigtimedwait (turns : List Turn) (info : AxResult Unit)

def Call.turns : Call → List Turn
  | .rtSigsuspend found => found.map .checks
  | .rtSigtimedwait turns _ => turns

def Call.result : Call → AxResult (Option Signo) → AxResult (BitVec 64)
  | .rtSigsuspend _, _ => .error .interrupted
  | .rtSigtimedwait _ info, ended => do
    match ← ended with
    | none => return 0
    | some s => do
      info
      return number s

/-- A system call, with what the checks of its arguments give; `none` while it waits. -/
def Call.run (call : Call) (args : AxResult Unit) (thr : Thread) :
    Option (AxResult (BitVec 64) × Thread) :=
  match args with
  | .error e => some (.error e, thr)
  | .ok () => (blockOn (thr.setRetval (-code .interrupted)) call.turns).map
      (fun r => (call.result r.1, r.2))

/-- What `handle_syscall` stores. -/
def retval : AxResult (BitVec 64) → BitVec 64
  | .ok n => n
  | .error e => -code e

def handleSyscall (call : Call) (args : AxResult Unit) (thr : Thread) : Option Thread :=
  (call.run args { thr with produced := none }).map (fun r => r.2.setRetval (retval r.1))

/-- `sys_rt_sigreturn`, whose result is stored as well. -/
def sigreturn (thr : Thread) : Option Thread :=
  thr.frames.head?.map (fun saved =>
    { thr with uctx := saved, frames := thr.frames.tail }.setRetval saved.a0)

/-- The context after `sigreturn` is the one at the call, with `-EINTR` as its result. -/
def Resumes (thr thr' : Thread) : Prop :=
  ∃ back, sigreturn thr' = some back ∧ back.uctx = { thr.uctx with a0 := -code .interrupted }

/-- **The frame survives**: the context that was produced is handed to user space, and the one
that was saved yields `EINTR`. -/
def Survives (thr thr' : Thread) : Prop :=
  ∀ u, thr'.produced = some u → thr'.uctx = u ∧ Resumes thr thr'

variable {thr thr' : Thread} {call : Call}

/-- A wait sets up no frame, or ends with one. -/
theorem blockOn_spec {r : AxResult (Option Signo)} (turns : List Turn)
    (h : blockOn thr turns = some (r, thr')) : thr'.produced = thr.produced
      ∨ r = .ok none ∧ thr'.frames = thr.uctx :: thr.frames
        ∧ ∃ s others, thr'.produced = some ⟨number s, others⟩ := by
  induction turns with
  | nil => cases h
  | cons turn turns ih =>
    cases turn with
    | dequeued s | elapsed =>
      cases h
      exact .inl rfl
    | checks found =>
      cases found with
      | none => exact ih h
      | some found =>
        obtain ⟨s, action⟩ := found
        cases action with
        | handler others =>
          cases h
          exact .inr ⟨rfl, rfl, s, others, rfl⟩
        | _ =>
          cases h
          exact .inl rfl

/-- No signal has the number that an interrupted call leaves behind. -/
theorem number_ne_retval (s : Signo) : number s ≠ retval (call.result (.ok none)) := by
  have hall : ∀ s, number s ≠ -4 ∧ number s ≠ 0 := by decide
  cases call with
  | rtSigsuspend found => exact (hall s).1
  | rtSigtimedwait turns info => exact (hall s).2

/-- **NO FRAME SURVIVES.**  A call whose wait has ended keeps a frame intact if and only if it
has not set one up.  What a frame has saved is right: after `sigreturn` the interrupted call has
returned `EINTR`. -/
theorem signal_frame_survives_iff (call : Call) (args : AxResult Unit) (thr thr' : Thread)
    (h : handleSyscall call args thr = some thr') :
    (Survives thr thr' ↔ thr'.produced = none) ∧ (thr'.produced ≠ none → Resumes thr thr') := by
  obtain ⟨⟨r, thr₁⟩, hrun, rfl⟩ := Option.map_eq_some_iff.mp h
  show (_ ↔ thr₁.produced = none) ∧ (thr₁.produced ≠ none → _)
  by_cases hnone : thr₁.produced = none
  · refine ⟨⟨fun _ => hnone, fun _ u hu => ?_⟩, absurd hnone⟩
    cases hnone.symm.trans hu
  cases args with
  | error e =>
    cases hrun
    exact absurd rfl hnone
  | ok _ =>
    obtain ⟨⟨ended, thr₂⟩, hwait, heq⟩ := Option.map_eq_some_iff.mp hrun
    cases heq
    rcases blockOn_spec _ hwait with hsame | ⟨rfl, hframes, s, others, hproduced⟩
    · exact absurd hsame hnone
    have hback : Resumes thr (thr₂.setRetval (retval (call.result (.ok none)))) := by
      unfold Resumes sigreturn Thread.setRetval
      rw [hframes]
      exact ⟨_, rfl, rfl⟩
    refine ⟨⟨fun hsurvives => ?_, fun hno => absurd hno hnone⟩, fun _ => hback⟩
    have ha0 := congrArg UserContext.a0 (hsurvives _ hproduced).1
    exact absurd ha0.symm (number_ne_retval s)

def freshThread : Thread := ⟨⟨0, fun _ => 0⟩, [], none⟩

/-- `SIGCONT` without a handler ends `rt_sigsuspend` and leaves no frame. -/
theorem signal_frame_survives_cont :
    ∃ thr', handleSyscall (.rtSigsuspend [none, some (17, .cont)]) (.ok ()) freshThread = some thr'
      ∧ Survives freshThread thr' :=
  ⟨_, rfl,
    (signal_frame_survives_iff (.rtSigsuspend [none, some (17, .cont)]) (.ok ()) _ _ rfl).1.mpr
    rfl⟩

/-- **`SIGUSR1` arrives in `rt_sigsuspend`**: its handler is entered with `-EINTR` for 10. -/
theorem handler_is_told_eintr :
    ∃ thr', handleSyscall (.rtSigsuspend [some (9, .handler fun _ => 0)]) (.ok ()) freshThread
        = some thr' ∧ thr'.produced = some ⟨10, fun _ => 0⟩ ∧ thr'.uctx.a0 = -4
      ∧ ¬ Survives freshThread thr' := by
  refine ⟨_, rfl, rfl, rfl, ?_⟩
  intro h
  exact absurd (congrArg UserContext.a0 (h _ rfl).1) (by decide)

end StarryOS.Task.SignalFrames
