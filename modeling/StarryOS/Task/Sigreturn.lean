/-
  StarryOS.Task.Sigreturn — WHO SKIPS THE SIGNAL CHECK (`block_next_signal` and
  `unblock_next_signal` of `kernel/src/task/signal.rs`, the loop of
  `new_user_task`).

  `rt_sigreturn` must not be followed by another delivery before the interrupted
  code runs again.  It stores `true` into `BLOCK_NEXT_SIGNAL_CHECK`, and the way
  back to user space swaps it for `false` and skips the check if it was set.
  There is ONE such flag for all threads: whoever swaps first has it.

  Any number of threads go around the loop here, cut at the two accesses to the
  flag.  The suppression is private exactly as long as nobody else comes to the
  flag between a thread's store and its own swap (`suppression_is_private`).
-/
import StarryOS.Lib.Threads
import StarryOS.Lib.Transition

namespace StarryOS.Task.Sigreturn

open Lib Threads

/-! ## §1. The loop of a user task. -/

/-- Why `uctx.run()` returned. -/
inductive ReturnReason where
  | rtSigreturn
  /-- Any other system call: none of them touches the flag. -/
  | syscall
  | pageFault
  | interrupt
  | exception
  deriving Repr, DecidableEq

/-- Where the loop of a thread is. -/
inductive Point where
  | user
  /-- `uctx.run()` has returned. -/
  | trapped (reason : ReturnReason)
  /-- Handled; `unblock_next_signal` is next. -/
  | handled (reason : ReturnReason)
  /-- In `while check_signals(..) {}`. -/
  | checking (reason : ReturnReason)
  /-- Past the check; `clear_interrupt` is next. -/
  | checked (reason : ReturnReason) (skipped : Bool)
  | exited
  deriving Repr, DecidableEq

instance : Inhabited Point := ⟨.user⟩

/-- What a thread does next. -/
inductive Move where
  /-- User code runs until the kernel is entered. -/
  | run (reason : ReturnReason)
  | next
  /-- `check_signals` found a signal. -/
  | again
  /-- `pending_exit` ends the loop. -/
  | leave
  deriving Repr, DecidableEq

/-- The flag and the threads. -/
structure World where
  /-- `BLOCK_NEXT_SIGNAL_CHECK`. -/
  blockNextSignalCheck : Bool
  threads : Threads Point

def World.initial : World := ⟨false, .initial⟩

def World.goto (w : World) (t : Nat) (p : Point) : World :=
  { w with threads := w.threads.goto t p }

/-- `block_next_signal`. -/
def blockNextSignal (w : World) : World := { w with blockNextSignalCheck := true }

/-- `unblock_next_signal`. -/
def unblockNextSignal (w : World) : Bool × World :=
  (w.blockNextSignalCheck, { w with blockNextSignalCheck := false })

/-- One thread goes one step further. -/
def step (w : World) : Nat × Move → Option World
  | (t, m) =>
    match w.threads.pc t, m with
    | .user, .run reason => some (w.goto t (.trapped reason))
    -- `block_next_signal` is the first line of `sys_rt_sigreturn`
    | .trapped .rtSigreturn, .next => some ((blockNextSignal w).goto t (.handled .rtSigreturn))
    | .trapped reason, .next => some (w.goto t (.handled reason))
    -- the swap takes the flag whoever has stored it
    | .handled reason, .next =>
      let r := unblockNextSignal w
      some (r.2.goto t (if r.1 then .checked reason true else .checking reason))
    | .checking reason, .again => some (w.goto t (.checking reason))
    | .checking reason, .next => some (w.goto t (.checked reason false))
    | .checked _ _, .next => some (w.goto t .user)
    | .checked _ _, .leave => some (w.goto t .exited)
    | _, _ => none

/-! ## §2. Whose suppression it is. -/

/-- Between its store and its swap. -/
def Point.suppresses : Point → Bool
  | .handled .rtSigreturn => true
  | _ => false

/-- The next step of a thread at this point reads or writes the flag. -/
def Point.touches : Point → Bool
  | .trapped .rtSigreturn | .handled _ => true
  | _ => false

/-- The check is skipped after `rt_sigreturn` and after nothing else. -/
def Point.Private : Point → Prop
  | .checking reason => reason ≠ .rtSigreturn
  | .checked reason skipped => skipped = true ↔ reason = .rtSigreturn
  | _ => True

/-- Nobody comes to the flag while another thread has set it for itself. -/
def undisturbed (w : World) (i : Nat × Move) : Bool :=
  !(w.threads.pc i.1).touches || (w.threads.those Point.suppresses).all (· = i.1)

variable {w : World} {t : Nat}

theorem undisturbed_alone {m : Move} (h : undisturbed w (t, m) = true)
    (ht : (w.threads.pc t).touches = true) {u : Nat} (hu : (w.threads.pc u).suppresses = true) :
    u = t := by
  have hmem : u ∈ w.threads.those Point.suppresses :=
    (mem_those Point.suppresses rfl w.threads u).mpr hu
  grind [undisturbed]

/-- The flag is set for the one thread that is between its store and its swap. -/
@[grind cases] structure Owned (w : World) : Prop where
  owner : w.blockNextSignalCheck = true → ∃ t, (w.threads.pc t).suppresses = true
  flag : ∀ t, (w.threads.pc t).suppresses = true → w.blockNextSignalCheck = true
  one : ∀ t u, (w.threads.pc t).suppresses = true → (w.threads.pc u).suppresses = true → t = u
  isPrivate : ∀ t, (w.threads.pc t).Private

theorem private_goto (h : ∀ u, (w.threads.pc u).Private) {p : Point} (hp : p.Private) (u : Nat) :
    ((w.threads.goto t p).pc u).Private := by
  rw [pc_goto]
  split
  · exact hp
  · exact h u

/-- A move that neither leaves nor reaches the stretch between store and swap, nor touches
the flag. -/
theorem Owned.goto (h : Owned w) {p q : Point} (hpc : w.threads.pc t = q)
    (hfrom : q.suppresses = false) (hto : p.suppresses = false) (hp : p.Private) :
    Owned (w.goto t p) := by
  subst hpc
  have hsame : ∀ u, ((w.threads.goto t p).pc u).suppresses = (w.threads.pc u).suppresses := by grind
  refine ⟨?_, ?_, ?_, ?_⟩
  · intro hflag
    obtain ⟨u, hu⟩ := h.owner hflag
    exact ⟨u, (hsame u).trans hu⟩
  · exact fun u hu => h.flag u ((hsame u).symm.trans hu)
  · exact fun u v hu hv => h.one u v ((hsame u).symm.trans hu) ((hsame v).symm.trans hv)
  · exact private_goto h.isPrivate hp

/-- `rt_sigreturn` stores when nobody else has: it becomes the owner. -/
theorem Owned.block (h : Owned w) (halone : ∀ u, (w.threads.pc u).suppresses = true → u = t) :
    Owned ((blockNextSignal w).goto t (.handled .rtSigreturn)) := by
  have hpc : ∀ u, ((w.threads.goto t (.handled .rtSigreturn)).pc u).suppresses = true → u = t := by
    grind
  refine ⟨fun _ => ⟨t, ?_⟩, fun _ _ => rfl, ?_, ?_⟩
  · show ((w.threads.goto t _).pc t).suppresses = true
    rw [pc_goto, if_pos rfl]
    rfl
  · exact fun u v hu hv => (hpc u hu).trans (hpc v hv).symm
  · exact private_goto h.isPrivate trivial

/-- The swap of a thread that nobody else has come before. -/
theorem Owned.unblock (h : Owned w) {reason : ReturnReason} (hpc : w.threads.pc t = .handled reason)
    (halone : ∀ u, (w.threads.pc u).suppresses = true → u = t) :
    Owned ((unblockNextSignal w).2.goto t
      (if (unblockNextSignal w).1 then .checked reason true else .checking reason)) := by
  -- the flag says whether `t` itself has set it
  have hflag : w.blockNextSignalCheck = true ↔ reason = .rtSigreturn := by
    constructor
    · intro hf
      obtain ⟨u, hu⟩ := h.owner hf
      rw [halone u hu, hpc] at hu
      cases reason <;> first | rfl | cases hu
    · intro hr
      exact h.flag t (by rw [hpc, hr]; rfl)
  -- after the swap nobody is between store and swap
  have hnone : ∀ (p : Point), p.suppresses = false →
      ∀ u, ((w.threads.goto t p).pc u).suppresses = false := by grind
  have hland : ∀ (p : Point), p.suppresses = false → p.Private →
      Owned ((unblockNextSignal w).2.goto t p) := by
    intro p hp hpriv
    have hno : ∀ u, ((w.threads.goto t p).pc u).suppresses ≠ true := by
      intro u hu
      rw [hnone p hp u] at hu
      cases hu
    exact ⟨fun hf => (nomatch hf), fun u hu => absurd hu (hno u),
      fun u _ hu _ => absurd hu (hno u), private_goto h.isPrivate hpriv⟩
  show Owned ((unblockNextSignal w).2.goto t
    (if w.blockNextSignalCheck then .checked reason true else .checking reason))
  split
  next hf => exact hland _ rfl ⟨fun _ => hflag.mp hf, fun _ => rfl⟩
  next hf => exact hland _ rfl (fun hr => hf (hflag.mpr hr))

theorem step_owned {w' : World} {i : Nat × Move} (h : Owned w) (hok : undisturbed w i = true)
    (hs : step w i = some w') : Owned w' := by
  obtain ⟨t, m⟩ := i
  have halone : (w.threads.pc t).touches = true → ∀ u, (w.threads.pc u).suppresses = true → u = t :=
    fun ht _ => undisturbed_alone hok ht
  have hfree := h.isPrivate t
  -- along the loop; moves that do not fit the point are no steps
  simp only [step] at hs
  split at hs
  next hpc =>
    cases hs
    exact h.goto hpc rfl rfl trivial
  next hpc =>
    cases hs
    exact h.block (halone (by rw [hpc]; rfl))
  next reason hother hpc =>
    cases hs
    refine h.goto hpc rfl ?_ trivial
    cases reason with
    | rtSigreturn => exact absurd rfl hother
    | _ => rfl
  next hpc =>
    cases hs
    exact h.unblock hpc (halone (by rw [hpc]; rfl))
  next hpc =>
    rw [hpc] at hfree
    cases hs
    exact h.goto hpc rfl rfl hfree
  next hpc =>
    rw [hpc] at hfree
    cases hs
    exact h.goto hpc rfl rfl ⟨fun hf => (nomatch hf), fun hr => absurd hr hfree⟩
  next hpc =>
    cases hs
    exact h.goto hpc rfl rfl trivial
  next hpc =>
    cases hs
    exact h.goto hpc rfl rfl trivial
  · cases hs

theorem initial_owned : Owned .initial :=
  ⟨fun h => (nomatch h), fun _ h => (nomatch h), fun _ _ h => (nomatch h), fun _ => trivial⟩

/-! ## §3. Runs. -/

/-- **The suppression is private as long as nobody else comes to the flag** between a store and
the swap of the same thread: then a check is skipped if and only if the thread returns from
its own `rt_sigreturn`. -/
theorem suppression_is_private (w : World)
    (hr : Reach step (fun w i => undisturbed w i = true) .initial w) (t : Nat) :
    (w.threads.pc t).Private :=
  (hr.invariant Owned initial_owned (fun _ _ _ => step_owned)).isPrivate t

/-- Two threads that return from `rt_sigreturn` and from another call, one after the other. -/
def politeRun : List (Nat × Move) :=
  [(0, .run .rtSigreturn), (1, .run .syscall), (0, .next), (0, .next), (1, .next), (1, .next)]

/-- The hypothesis is met: after this run one thread has skipped the check and the other is
at it. -/
theorem suppression_is_private_run :
    ∃ w, Reach step (fun w i => undisturbed w i = true) .initial w ∧
      (w.threads.pc 0 = .checked .rtSigreturn true ∧ (w.threads.pc 0).Private) ∧
      (w.threads.pc 1 = .checking .syscall ∧ (w.threads.pc 1).Private) := by
  obtain ⟨w, hr, hc⟩ := exists_reach_guarded step .initial undisturbed politeRun
    (fun w => w.threads.pc 0 = .checked .rtSigreturn true
      ∧ w.threads.pc 1 = .checking .syscall) (by decide +kernel)
  exact ⟨w, hr, ⟨hc.1, suppression_is_private w hr 0⟩, hc.2, suppression_is_private w hr 1⟩

/-- The other call comes between the store and the swap. -/
def stolenRun : List (Nat × Move) :=
  [(0, .run .rtSigreturn), (1, .run .syscall), (0, .next), (1, .next), (1, .next), (0, .next)]

/-- **The suppression goes to the wrong thread**: thread 1, which made another system call, skips
its check, and thread 0, which returns from `rt_sigreturn`, does not. -/
theorem suppression_is_stolen : ∃ w, Reach step Always .initial w ∧
      w.threads.pc 1 = .checked .syscall true ∧ w.threads.pc 0 = .checking .rtSigreturn ∧
      ¬ (w.threads.pc 1).Private ∧ ¬ (w.threads.pc 0).Private := by
  obtain ⟨w, hr, h₁, h₀⟩ := exists_reach step .initial stolenRun
    (fun w => w.threads.pc 1 = .checked .syscall true
      ∧ w.threads.pc 0 = .checking .rtSigreturn) (by decide +kernel)
  refine ⟨w, hr, h₁, h₀, ?_, ?_⟩
  · rw [h₁]
    exact fun h => nomatch h.mp rfl
  · rw [h₀]
    exact fun h => h rfl

end StarryOS.Task.Sigreturn
