/-
  StarryOS.Task.SignalMask — THE TEMPORARY SIGNAL MASK of `ppoll`, `pselect6`,
  `epoll_pwait` and `epoll_pwait2` (`with_blocked_signals` of
  `kernel/src/task/signal.rs`).

  The four calls check their arguments, set the mask, wait, and set the old mask
  again.  The old mask is set through `Result::inspect`, which runs for `Ok` only: a
  wait that ends in an error (above all `EINTR`) leaves the temporary mask behind.
  The loop of the user task then delivers signals with no mask of its own to restore,
  so handlers save the temporary mask in their frames and `rt_sigreturn` brings it
  back.

  Handling keeps a stack: the blocked set on top, below it the masks in the frames.
  A handler works above what it found (`step_nested`), so after all handlers have
  returned the mask is the one that the call left (`handling_restores`).
-/
import StarryOS.Errno
import StarryOS.Lib.Program
import StarryOS.Lib.Transition

namespace StarryOS.Task.SignalMask

open Lib

/-! ## §1. Masks. -/

/-- A signal, by its bit: signal number `s + 1`. -/
abbrev Signo := Fin 64

/-- Bit `i` is signal `i + 1`. -/
abbrev SignalSet := BitVec 64

def SignalSet.has (set : SignalSet) (s : Signo) : Bool := set.getLsbD s

structure Thread where
  blocked : SignalSet
  /-- The masks saved in the frames of the handlers that are running, the innermost first. -/
  frames : List SignalSet
  deriving Repr, DecidableEq

/-- `set_blocked`: the old set is returned. -/
def setBlocked (set : SignalSet) : EStateM AxError Thread SignalSet :=
  modifyGet (fun t => (t.blocked, { t with blocked := set }))

/-- `with_blocked_signals`. -/
def withBlockedSignals {α : Type} (blocked : Option SignalSet) (f : EStateM AxError Thread α) :
    EStateM AxError Thread α := do
  match blocked with
  | none => f
  | some set => do
    let old ← setBlocked set
    -- `inspect` sees the result only if it is `Ok`
    let r ← f
    let _ ← setBlocked old
    return r

/-- How `block_on(timeout(..))` ends: elapsed, or with what the inner future returned. -/
inductive WaitResult where
  | elapsed
  | done (r : AxResult Nat)
  deriving Repr

/-- `match block_on(..) { Ok(r) => r, Err(_) => Ok(0) }`.  Other threads run meanwhile; the
blocked set is only ever changed by its own thread. -/
def waitFor : WaitResult → EStateM AxError Thread Nat
  | .elapsed => return 0
  | .done (.ok n) => return n
  | .done (.error e) => throw e

/-! ## §2. What the calls check before they wait. -/

/-- A call returns at once, or waits with this mask. -/
inductive Prepared where
  | done (n : Nat)
  | wait (mask : Option SignalSet)
  deriving Repr, DecidableEq

/-- `check_sigset_size`. -/
def checkSigsetSize (size : Nat) : AxResult Unit :=
  if size ≠ 8 ∧ size ≠ 0 then .error .invalidInput else .ok ()

structure PollFd where
  fd : Int
  events : UInt16
  deriving Repr, DecidableEq

/-- What a call finds in the descriptor table, and which bits are events. -/
structure Files where
  isOpen : Int → Bool
  isEvents : UInt16 → Bool

/-- The loop over the descriptors: how many are not open. -/
def pollScan (files : Files) : List PollFd → Nat → AxResult Nat
  | [], res => .ok res
  | fd :: rest, res =>
    if fd.fd = -1 then pollScan files rest res
    else if files.isOpen fd.fd then
      if files.isEvents fd.events then pollScan files rest res else .error .invalidInput
    else pollScan files rest (res + 1)

/-- `do_poll`, up to the wait. -/
def doPoll (files : Files) (fds : List PollFd) (sigmask : Option SignalSet) :
    AxResult Prepared := do
  let res ← pollScan files fds 0
  if 0 < res then return .done res
  else return .wait sigmask

/-- `sys_ppoll`.  A pointer is what reading it gives. -/
def sysPpoll (files : Files) (nfds : Int) (fds : AxResult (List PollFd))
    (timeout : AxResult Unit) (sigmask : AxResult (Option SignalSet))
    (sigsetsize : Nat) : AxResult Prepared := do
  checkSigsetSize sigsetsize
  if nfds < 0 then throw .invalidInput
  let fds ← fds
  timeout
  let mask ← sigmask
  doPoll files fds mask

/-- `__FD_SETSIZE`. -/
def FD_SETSIZE : Nat := 1024

/-- `do_select`, up to the wait; reading the three sets gives the descriptors in them. -/
def doSelect (files : Files) (nfds : Nat) (setsRead : AxResult (List Int))
    (sigmask : AxResult (Option (Nat × AxResult (Option SignalSet)))) :
    AxResult Prepared := do
  if FD_SETSIZE < nfds then throw .invalidInput
  let mask ← (do
    match ← sigmask with
    | none => return none
    | some (sigsetsize, set) => do
      checkSigsetSize sigsetsize
      set : AxResult (Option SignalSet))
  let fds ← setsRead
  if fds.all files.isOpen then return .wait mask
  else throw .badFileDescriptor

/-- `sys_pselect6`. -/
def sysPselect6 (files : Files) (nfds : Nat) (setsRead : AxResult (List Int))
    (timeout : AxResult Unit)
    (sigmask : AxResult (Option (Nat × AxResult (Option SignalSet)))) :
    AxResult Prepared := do
  timeout
  doSelect files nfds setsRead sigmask

/-- `do_epoll_wait`, up to the wait. -/
def doEpollWait (epoll : AxResult Unit) (events : AxResult Unit) (maxevents : Int)
    (sigmask : AxResult (Option SignalSet)) (sigsetsize : Nat) :
    AxResult Prepared := do
  checkSigsetSize sigsetsize
  epoll
  if maxevents ≤ 0 then throw .invalidInput
  events
  let mask ← sigmask
  return .wait mask

/-- `sys_epoll_pwait`. -/
def sysEpollPwait (epoll events : AxResult Unit) (maxevents timeout : Int)
    (sigmask : AxResult (Option SignalSet)) (sigsetsize : Nat) : AxResult Prepared :=
  if timeout < -1 then .error .invalidInput
  else doEpollWait epoll events maxevents sigmask sigsetsize

/-- `sys_epoll_pwait2`. -/
def sysEpollPwait2 (epoll events : AxResult Unit) (maxevents : Int)
    (timeout : AxResult Unit) (sigmask : AxResult (Option SignalSet))
    (sigsetsize : Nat) : AxResult Prepared := do
  timeout
  doEpollWait epoll events maxevents sigmask sigsetsize

/-- The calls that take a mask. -/
inductive Call where
  | ppoll (files : Files) (nfds : Int) (fds : AxResult (List PollFd))
      (timeout : AxResult Unit) (sigmask : AxResult (Option SignalSet))
      (sigsetsize : Nat)
  | pselect6 (files : Files) (nfds : Nat) (setsRead : AxResult (List Int))
      (timeout : AxResult Unit)
      (sigmask : AxResult (Option (Nat × AxResult (Option SignalSet))))
  | epollPwait (epoll events : AxResult Unit) (maxevents timeout : Int)
      (sigmask : AxResult (Option SignalSet)) (sigsetsize : Nat)
  | epollPwait2 (epoll events : AxResult Unit) (maxevents : Int)
      (timeout : AxResult Unit) (sigmask : AxResult (Option SignalSet))
      (sigsetsize : Nat)

def Call.prepare : Call → AxResult Prepared
  | .ppoll files nfds fds timeout sigmask size => sysPpoll files nfds fds timeout sigmask size
  | .pselect6 files nfds sets timeout sigmask => sysPselect6 files nfds sets timeout sigmask
  | .epollPwait epoll events max timeout sigmask size =>
    sysEpollPwait epoll events max timeout sigmask size
  | .epollPwait2 epoll events max timeout sigmask size =>
    sysEpollPwait2 epoll events max timeout sigmask size

/-- The whole call; all four wait in the same way. -/
def Call.run (c : Call) (r : WaitResult) : EStateM AxError Thread Nat :=
  match c.prepare with
  | .error e => throw e
  | .ok (.done n) => return n
  | .ok (.wait mask) => withBlockedSignals mask (waitFor r)

/-! ## §3. What a call leaves behind. -/

def WaitResult.fails : WaitResult → Bool
  | .done (.error _) => true
  | _ => false

/-- The call sets a mask and its wait ends in an error. -/
def Call.leaves (c : Call) (r : WaitResult) : Option SignalSet :=
  match c.prepare with
  | .ok (.wait (some set)) => if r.fails then some set else none
  | _ => none

/-- **What a call does to the thread**: nothing, or it leaves its mask behind. -/
theorem stateAfter_run (c : Call) (r : WaitResult) (t : Thread) :
    stateAfter (c.run r) t = { t with blocked := (c.leaves r).getD t.blocked } := by
  unfold Call.run Call.leaves
  cases c.prepare with
  | error e => rfl
  | ok p =>
    cases p with
    | done n => rfl
    | wait mask =>
      cases mask with
      | none | some set =>
        cases r with
        | elapsed => rfl
        | done res => cases res <;> rfl

/-! ## §4. Signals are handled. -/

inductive Event where
  /-- `check_signals(.., restore_blocked)` finds a signal with a handler: its frame saves a
  mask, and `mask` is added to the blocked set. -/
  | deliver (restoreBlocked : Option SignalSet) (mask : SignalSet)
  /-- A handler sets its mask itself. -/
  | setMask (set : SignalSet)
  /-- A handler makes one of the calls. -/
  | call (c : Call) (r : WaitResult)
  | rtSigreturn

def step (t : Thread) : Event → Option Thread
  | .deliver restoreBlocked mask =>
    some ⟨t.blocked ||| mask, restoreBlocked.getD t.blocked :: t.frames⟩
  | .setMask set => some { t with blocked := set }
  | .call c r => some (stateAfter (c.run r) t)
  | .rtSigreturn =>
    match t.frames with
    | [] => none
    | mask :: rest => some ⟨mask, rest⟩

/-- Only handling: the loop delivers signals with no mask to restore, and everything else is
done by handlers, above the frames that were there before. -/
def handles (frames : List SignalSet) (t : Thread) : Event → Prop
  | .deliver none _ => True
  | _ => frames.length < t.frames.length

/-- The mask and frames that were there before are still below. -/
def Nested (t₀ t : Thread) : Prop := (t₀.blocked :: t₀.frames) <:+ (t.blocked :: t.frames)

theorem Nested.frames {t₀ t : Thread} (h : Nested t₀ t) (hlt : t₀.frames.length < t.frames.length) :
    (t₀.blocked :: t₀.frames) <:+ t.frames := by
  rcases List.suffix_cons_iff.mp h with he | hs
  · -- the whole stack would be no higher than the old one
    grind
  · exact hs

theorem step_nested {t₀ t t' : Thread} {e : Event} (h : Nested t₀ t)
    (hok : handles t₀.frames t e) (hs : step t e = some t') : Nested t₀ t' := by
  cases e with
  | deliver restoreBlocked mask =>
    cases hs
    cases restoreBlocked with
    | none => exact h.trans (List.suffix_cons _ _)
    | some old =>
      -- `rt_sigsuspend` of a handler: the saved mask is not the one on top
      have hf := h.frames hok
      exact (hf.trans (List.suffix_cons _ _)).trans (List.suffix_cons _ _)
  | setMask set =>
    cases hs
    exact (h.frames hok).trans (List.suffix_cons _ _)
  | call c r =>
    cases hs
    rw [stateAfter_run]
    exact (h.frames hok).trans (List.suffix_cons _ _)
  | rtSigreturn =>
    have hf := h.frames hok
    simp only [step] at hs
    split at hs
    · cases hs
    · rename_i mask rest hframes
      cases hs
      rw [hframes] at hf
      exact hf

/-- **Handling restores the mask it started with**, when all handlers have returned. -/
theorem handling_restores {t₀ t : Thread} (hr : Reach step (handles t₀.frames) t₀ t)
    (hdone : t.frames = t₀.frames) : t.blocked = t₀.blocked := by
  have hnested : Nested t₀ t :=
    hr.invariant (Nested t₀) (List.suffix_refl _) (fun _ _ _ => step_nested)
  have hlen : (t₀.blocked :: t₀.frames).length = (t.blocked :: t.frames).length := by
    rw [List.length_cons, List.length_cons, hdone]
  have heq := hnested.eq_of_length hlen
  injection heq with hb _
  exact hb.symm

/-! ## §5. Calls and handling. -/

/-- The call has finished and so has all handling after it. -/
def Finished (c : Call) (r : WaitResult) (t t' : Thread) : Prop :=
  Reach step (handles t.frames) (stateAfter (c.run r) t) t' ∧ t'.frames = t.frames

/-- **When the mask is undone**: the blocked set is the old one, however signals were handled, if
and only if the call was not left by an error of its wait with another mask set. -/
theorem temporary_mask_undone_iff (c : Call) (r : WaitResult) (t : Thread) :
    (∀ t', Finished c r t t' → t'.blocked = t.blocked) ↔
      ∀ set, c.leaves r = some set → set = t.blocked := by
  have hafter := stateAfter_run c r t
  constructor
  · intro h set hset
    -- no signal at all is one way to finish
    have hmask := h (stateAfter (c.run r) t) ⟨.start, by rw [hafter]⟩
    rw [hafter, hset] at hmask
    exact hmask
  rintro h t' ⟨hr, hframes⟩
  have hbase : (stateAfter (c.run r) t).frames = t.frames := by rw [hafter]
  have hend : t'.blocked = (stateAfter (c.run r) t).blocked :=
    handling_restores (hbase.symm ▸ hr) (hframes.trans hbase.symm)
  rw [hend, hafter]
  cases hl : c.leaves r with
  | none => rfl
  | some set => exact h set hl

/-- `ppoll` on one open descriptor with an empty mask. -/
def openPoll : Call :=
  .ppoll ⟨fun fd => fd == 0, fun _ => true⟩ 1 (.ok [⟨0, 1⟩]) (.ok ()) (.ok (some 0)) 8

/-- **The mask is not undone**: a thread that blocks signal 10 calls `ppoll` with an empty mask
and is interrupted by it.  The handler runs and returns, and signal 10 is no longer blocked. -/
theorem temporary_mask_stays :
    (openPoll.run (.done (.error .interrupted))).run ⟨1 <<< 9, []⟩ = .error .interrupted ⟨0, []⟩ ∧
      runs step ⟨0, []⟩ [.deliver none (1 <<< 9), .rtSigreturn] = some ⟨0, []⟩ ∧
      Finished openPoll (.done (.error .interrupted)) ⟨1 <<< 9, []⟩ ⟨0, []⟩ ∧
      (0 : SignalSet) ≠ 1 <<< 9 := by
  refine ⟨rfl, by decide, ?_, by decide⟩
  have hafter : stateAfter (openPoll.run (.done (.error .interrupted))) ⟨1 <<< 9, []⟩
      = ⟨0, []⟩ := rfl
  refine ⟨?_, rfl⟩
  rw [hafter]
  refine Reach.of_runs [.deliver none (1 <<< 9), .rtSigreturn] ?_ (by decide)
  exact ⟨trivial, fun t' ht => ⟨by cases ht; exact Nat.zero_lt_one, fun _ _ => trivial⟩⟩

end StarryOS.Task.SignalMask
