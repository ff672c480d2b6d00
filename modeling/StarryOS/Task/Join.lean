/-
  StarryOS.Task.Join — WHAT DOES A JOINER SEE OF AN EXIT?
  (`modules/axtask/src/task.rs`).

      notify_exit     state := Exited;  exit_code := code;  wait_for_exit.wake()
      join            state == Exited?  then load exit_code
                      else wait_for_exit.register(waker), and block

  The state is visible before the code is, the joiner does not test again after it
  has registered, and `wait_for_exit` is an `AtomicWaker`, a slot for one waker
  (`join_returns_the_code`, `join_fails`).
-/
import StarryOS.Lib.Threads
import StarryOS.Lib.Transition

namespace StarryOS.Task

open Lib Function

/-! ## §1. An exit and its joiners. -/

/-- How far `notify_exit` has come.  While `AtomicWaker::wake` is at work (`waking`), a
`register` wakes its own waker instead of storing it. -/
inductive ExitPhase where
  | running | exited | stored | waking | done
  deriving Repr, DecidableEq

/-- The points of `join`, which is a `poll_fn` inside of `block_on`. -/
inductive JoinPoint where
  | idle
  /-- `*woke.lock() = false`. -/
  | clear
  | test
  | load
  | register
  /-- `Pending`: what does `woke` say? -/
  | check
  | blocked
  | returned (code : Int)
  deriving Repr, DecidableEq, Inhabited

/-- Its waker is needed. -/
def JoinPoint.waits : JoinPoint → Bool
  | .check | .blocked => true
  | _ => false

/-- One task, and those that join it. -/
structure Joins where
  phase : ExitPhase
  exitCode : Int
  /-- The argument of `exit`; nobody reads this. -/
  passed : Int
  waitForExit : Option Nat
  woke : Nat → Bool
  threads : Threads JoinPoint

/-- What may happen. -/
inductive JoinStep where
  | exit (code : Int)
  /-- The next step of `notify_exit`. -/
  | notify
  | run (j : Nat)
  /-- Any other waker of the task. -/
  | spurious (j : Nat)

namespace Joins

def initial : Joins := ⟨.running, 0, 0, none, fun _ => false, .initial⟩

variable (w : Joins)

def goto (j : Nat) (p : JoinPoint) : Joins := { w with threads := w.threads.goto j p }

/-- `AxWaker::wake`. -/
def wake (j : Nat) : Joins where
  phase := w.phase
  exitCode := w.exitCode
  passed := w.passed
  waitForExit := w.waitForExit
  woke := update w.woke j true
  threads := if w.threads.pc j = .blocked then w.threads.goto j .clear else w.threads

def advance (j : Nat) : JoinPoint → Joins
  | .idle | .returned _ => w.goto j .clear
  | .clear => { w with woke := update w.woke j false }.goto j .test
  | .test => w.goto j (if w.phase = .running then .register else .load)
  | .load => w.goto j (.returned w.exitCode)
  | .register =>
    if w.phase = .waking then (w.goto j .check).wake j
    else { w with waitForExit := some j }.goto j .check
  | .check => w.goto j (if w.woke j then .clear else .blocked)
  | .blocked => w

/-- `AtomicWaker::wake`. -/
def wakeWaiter : Joins :=
  { w.waitForExit.elim w w.wake with phase := .waking, waitForExit := none }

def step : JoinStep → Option Joins
  | .exit code =>
    if w.phase = .running then some { w with phase := .exited, passed := code } else none
  | .notify =>
    match w.phase with
    | .exited => some { w with phase := .stored, exitCode := w.passed }
    | .stored => some w.wakeWaiter
    | .waking => some { w with phase := .done }
    | _ => none
  | .run j => if w.threads.pc j = .blocked then none else some (w.advance j (w.threads.pc j))
  | .spurious j => some (w.wake j)

/-! ## §2. The property and its condition. -/

/-- A joiner returns by steps of its own. -/
def Returns (j : Nat) (code : Int) : Prop :=
  ∃ n w', runs step w (List.replicate n (.run j)) = some w' ∧ w'.threads.pc j = .returned code

/-- Who has returned has the code.  When the notification is done nobody is parked, and everybody
returns (but for one who is about to register, see `InTurn`). -/
def Joined : Prop :=
  (∀ j code, w.threads.pc j = .returned code → code = w.passed)
    ∧ (w.phase = .done → ∀ j, w.threads.pc j ≠ .blocked
      ∧ (w.threads.pc j ≠ .register → w.Returns j w.passed))

/-- The state is not tested between the two stores; a registration comes before the end of the
wake, and finds no waker of one who waits in the slot. -/
def InTurn : JoinStep → Prop
  | .run j =>
    (w.threads.pc j = .test → w.phase ≠ .exited) ∧ (w.threads.pc j = .register → w.phase ≠ .done
        ∧ ∀ k ≠ j, w.waitForExit = some k → (w.threads.pc k).waits = false)
  | _ => True

end Joins

/-- The code is there. -/
def ExitPhase.settled : ExitPhase → Bool
  | .running | .exited => false
  | _ => true

/-- The wake is still to come. -/
def ExitPhase.early : ExitPhase → Bool
  | .waking | .done => false
  | _ => true

namespace Joins

/-- What a joiner can rely on. -/
def At (w : Joins) (j : Nat) : JoinPoint → Prop
  | .load => w.phase.settled = true
  | .returned code => code = w.passed ∧ w.phase.settled = true
  | .check => w.woke j = true ∨ (w.waitForExit = some j ∧ w.phase.early = true)
  | .blocked => w.waitForExit = some j ∧ w.phase.early = true
  | _ => True

/-- The invariant of a run. -/
structure Tidy (w : Joins) : Prop where
  code : w.phase.settled = true → w.exitCode = w.passed
  each : ∀ j, w.At j (w.threads.pc j)

variable {w w' : Joins} {j : Nat}

/-- The others do not notice. -/
theorem At.frame {p : JoinPoint} (h : w.At j p) (hphase : w'.phase = w.phase)
    (hpassed : w'.passed = w.passed) (hwoke : w.woke j = true → w'.woke j = true)
    (hslot : p.waits = true → w.waitForExit = some j → w'.waitForExit = some j) : w'.At j p := by
  cases p with
  | load =>
    show w'.phase.settled = true
    rw [hphase]
    exact h
  | returned code =>
    show code = w'.passed ∧ w'.phase.settled = true
    rw [hphase, hpassed]
    exact h
  | check =>
    show _ ∨ (_ ∧ w'.phase.early = true)
    rw [hphase]
    exact h.imp hwoke (And.imp_left (hslot rfl))
  | blocked =>
    show _ ∧ w'.phase.early = true
    rw [hphase]
    exact h.imp_left (hslot rfl)
  | _ => trivial

section

variable (h : w.Tidy)
include h

/-- One joiner moves. -/
theorem Tidy.move {p : JoinPoint} (hphase : w'.phase = w.phase)
    (hcode : w'.exitCode = w.exitCode) (hpassed : w'.passed = w.passed)
    (hwoke : ∀ k ≠ j, w.woke k = true → w'.woke k = true)
    (hslot : ∀ k ≠ j, (w.threads.pc k).waits = true → w.waitForExit = some k →
      w'.waitForExit = some k)
    (hthreads : w'.threads = w.threads.goto j p) (hp : w'.At j p) : w'.Tidy := by
  refine ⟨fun hs => ?_, fun k => ?_⟩
  · rw [hcode, hpassed]
    exact h.code (hphase ▸ hs)
  rw [hthreads, Threads.pc_goto]
  split
  next hk =>
    rw [hk]
    exact hp
  next hk => exact (h.each k).frame hphase hpassed (hwoke k hk) (hslot k hk)

theorem Tidy.wake (j : Nat) : (w.wake j).Tidy := by
  refine ⟨h.code, fun k => ?_⟩
  have hwoke : w.woke k = true → (w.wake j).woke k = true := by
    intro hk
    simp [Joins.wake, update_apply, hk]
  have hsame : (w.wake j).At k (w.threads.pc k) := (h.each k).frame rfl rfl hwoke (fun _ => id)
  show (w.wake j).At k (Threads.pc (if _ then _ else _) k)
  split
  · rw [Threads.pc_goto]
    split
    · trivial
    · exact hsame
  · exact hsame

theorem Tidy.advance (hok : w.InTurn (.run j)) : (w.advance j (w.threads.pc j)).Tidy := by
  have hj := h.each j
  generalize hpc : w.threads.pc j = q at hj
  cases q with
  | idle | returned code =>
    exact h.move rfl rfl rfl (fun _ _ => id) (fun _ _ _ => id) rfl trivial
  | clear =>
    refine h.move rfl rfl rfl (fun k hne hk => ?_) (fun _ _ _ => id) rfl trivial
    exact (update_of_ne hne _ _).trans hk
  | test =>
    refine h.move rfl rfl rfl (fun _ _ => id) (fun _ _ _ => id) rfl ?_
    have hbetween := hok.1 hpc
    show w.At j _
    cases hphase : w.phase with
    | running => trivial
    | exited => exact absurd hphase hbetween
    | _ => simp [At, hphase, ExitPhase.settled]
  | load => exact h.move rfl rfl rfl (fun _ _ => id) (fun _ _ _ => id) rfl ⟨h.code hj, hj⟩
  | register =>
    obtain ⟨hlate, halone⟩ := hok.2 hpc
    dsimp only [Joins.advance]
    by_cases hwaking : w.phase = .waking
    · -- its own wake is what it relies on
      rw [if_pos hwaking]
      refine h.move (j := j) (p := .check) rfl rfl rfl (fun k _ hk => ?_) (fun _ _ _ => id) ?_
        (Or.inl ?_)
      · simp [Joins.wake, goto, update_apply, hk]
      · simp [Joins.wake, goto]
      · simp [Joins.wake]
    rw [if_neg hwaking]
    refine h.move rfl rfl rfl (fun _ _ => id) (fun k hne hwaits hk => ?_) rfl (Or.inr ⟨rfl, ?_⟩)
    · rw [halone k hne hk] at hwaits
      cases hwaits
    show w.phase.early = true
    cases hphase : w.phase with
    | waking => exact absurd hphase hwaking
    | done => exact absurd hphase hlate
    | _ => rfl
  | check =>
    refine h.move rfl rfl rfl (fun _ _ => id) (fun _ _ _ => id) rfl ?_
    split
    · trivial
    next hwoke => exact hj.resolve_left hwoke
  | blocked => exact h

/-- The wake reaches the one whose waker is in the slot. -/
theorem Tidy.wakeWaiter (hphase : w.phase = .stored) : w.wakeWaiter.Tidy := by
  have hwoken : (w.waitForExit.elim w w.wake).Tidy ∧ (∀ k, w.waitForExit = some k →
      (w.waitForExit.elim w w.wake).woke k = true
        ∧ (w.waitForExit.elim w w.wake).threads.pc k ≠ .blocked)
      ∧ (w.waitForExit.elim w w.wake).waitForExit = w.waitForExit
      ∧ (w.waitForExit.elim w w.wake).phase = .stored := by
    cases hslot : w.waitForExit with
    | none => exact ⟨h, by simp, hslot, hphase⟩
    | some j =>
      refine ⟨h.wake j, fun k hk => ?_, hslot, hphase⟩
      cases hk
      refine ⟨update_self .., ?_⟩
      show Threads.pc (if _ then _ else _) j ≠ _
      split
      · simp
      next hpc => exact hpc
  unfold Joins.wakeWaiter
  generalize w.waitForExit.elim w w.wake = v at hwoken
  obtain ⟨hv, hout, hslot, hstored⟩ := hwoken
  refine ⟨fun _ => hv.code (by rw [hstored]; rfl), fun k => ?_⟩
  have hk := hv.each k
  show At _ k (v.threads.pc k)
  generalize hp : v.threads.pc k = p at hk
  cases p with
  | load => rfl
  | returned code => exact ⟨hk.1, rfl⟩
  | check => exact Or.inl (hk.elim id (fun hs => (hout k (hslot.symm.trans hs.1)).1))
  | blocked => exact absurd hp (hout k (hslot.symm.trans hk.1)).2
  | _ => trivial

/-- The other steps of `notify_exit`. -/
theorem Tidy.phase {phase : ExitPhase} {code passed : Int}
    (hcode : phase.settled = true → code = passed)
    (hsettled : w.phase.settled = true → phase.settled = true ∧ passed = w.passed)
    (hearly : phase.early = w.phase.early) :
    Tidy { w with phase := phase, exitCode := code, passed := passed } := by
  refine ⟨hcode, fun k => ?_⟩
  have hk := h.each k
  show At _ k (w.threads.pc k)
  generalize hp : w.threads.pc k = q at hk
  cases q with
  | load => exact (hsettled hk).1
  | returned c => exact ⟨hk.1.trans (hsettled hk.2).2.symm, (hsettled hk.2).1⟩
  | check | blocked => simpa only [At, hearly] using hk
  | _ => trivial

theorem Tidy.step {i : JoinStep} (hok : w.InTurn i) (hs : w.step i = some w') : w'.Tidy := by
  cases i with
  | exit code =>
    obtain ⟨hphase, rfl⟩ := guard_eq_some hs
    exact h.phase (by simp [ExitPhase.settled]) (by simp [hphase, ExitPhase.settled])
      (by rw [hphase]; rfl)
  | notify =>
    dsimp only [Joins.step] at hs
    generalize hphase : w.phase = p at hs
    cases p with
    | exited =>
      cases hs
      exact h.phase (fun _ => rfl) (fun _ => ⟨rfl, rfl⟩) (by rw [hphase]; rfl)
    | stored =>
      cases hs
      exact h.wakeWaiter hphase
    | waking =>
      cases hs
      exact h.phase (fun _ => h.code (by rw [hphase]; rfl)) (fun _ => ⟨rfl, rfl⟩)
        (by rw [hphase]; rfl)
    | _ => cases hs
  | run j =>
    obtain ⟨-, rfl⟩ := unless_eq_some hs
    exact h.advance hok
  | spurious j =>
    cases hs
    exact h.wake j

end

/-! ## §3. After the notification. -/

theorem Returns.of_advance {code : Int} (hpc : w.threads.pc j ≠ .blocked)
    (h : (w.advance j (w.threads.pc j)).Returns j code) : w.Returns j code := by
  obtain ⟨n, w', hrun, hw'⟩ := h
  refine ⟨n + 1, w', ?_, hw'⟩
  show Option.bind (if _ then _ else _) _ = _
  rw [if_neg hpc]
  exact hrun

theorem returns_of_load (hpc : w.threads.pc j = .load) : w.Returns j w.exitCode := by
  refine .of_advance (by simp [hpc]) ⟨0, _, rfl, ?_⟩
  simp [hpc, Joins.advance, goto]

theorem returns_of_test (hpc : w.threads.pc j = .test) (hphase : w.phase ≠ .running) :
    w.Returns j w.exitCode := by
  refine .of_advance (by simp [hpc]) ?_
  rw [hpc]
  exact returns_of_load (by simp [Joins.advance, goto, hphase])

theorem returns_of_clear (hpc : w.threads.pc j = .clear) (hphase : w.phase ≠ .running) :
    w.Returns j w.exitCode := by
  refine .of_advance (by simp [hpc]) ?_
  rw [hpc]
  exact returns_of_test (by simp [Joins.advance, goto]) hphase

/-- Who is not parked returns by his own steps. -/
theorem Tidy.returns (h : w.Tidy) (hdone : w.phase = .done) (hreg : w.threads.pc j ≠ .register) :
    w.Returns j w.passed := by
  have hphase : w.phase ≠ .running := by simp [hdone]
  rw [← h.code (by rw [hdone]; rfl)]
  have hj := h.each j
  generalize hpc : w.threads.pc j = p at hj
  cases p with
  | idle =>
    refine .of_advance (by simp [hpc]) ?_
    rw [hpc]
    exact returns_of_clear (by simp [Joins.advance, goto]) hphase
  | clear => exact returns_of_clear hpc hphase
  | test => exact returns_of_test hpc hphase
  | load => exact returns_of_load hpc
  | register => exact absurd hpc hreg
  | check =>
    have hwoke : w.woke j = true := hj.resolve_right (by simp [hdone, ExitPhase.early])
    refine .of_advance (by simp [hpc]) ?_
    rw [hpc]
    exact returns_of_clear (by simp [Joins.advance, goto, hwoke]) hphase
  | blocked => simp [At, hdone, ExitPhase.early] at hj
  | returned code => exact ⟨0, w, rfl, by rw [hpc, hj.1, h.code hj.2]⟩

end Joins

open Joins

/-- **EVERY JOIN RETURNS THE CODE**, in runs that meet `InTurn`. -/
theorem join_returns_the_code {w : Joins} (h : Reach step InTurn .initial w) : w.Joined := by
  have hstart : Joins.initial.Tidy := ⟨by simp [Joins.initial, ExitPhase.settled], fun _ => trivial⟩
  have htidy := h.invariant Tidy hstart (fun _ _ _ ih => ih.step)
  refine ⟨fun j code hpc => ?_, fun hdone j => ⟨fun hpc => ?_, htidy.returns hdone⟩⟩
  · have hj := htidy.each j
    rw [hpc] at hj
    exact hj.1
  · have hj := htidy.each j
    rw [hpc] at hj
    simp [At, hdone, ExitPhase.early] at hj

/-- A condition that can be evaluated: a registration finds the slot empty. -/
def Joins.inTurn (w : Joins) : JoinStep → Bool
  | .run j =>
    (w.threads.pc j != .test || w.phase != .exited)
      && (w.threads.pc j != .register || (w.phase != .done && w.waitForExit.isNone))
  | _ => true

theorem Joins.inTurn_sound (w : Joins) (i : JoinStep) (hi : w.inTurn i = true) : w.InTurn i := by
  cases i with
  | run j =>
    simp only [inTurn, Bool.and_eq_true, Bool.or_eq_true, bne_iff_ne,
      Option.isNone_iff_eq_none] at hi
    refine ⟨fun hpc => hi.1.resolve_left (not_not.mpr hpc), fun hpc => ?_⟩
    obtain ⟨hdone, hnone⟩ := hi.2.resolve_left (not_not.mpr hpc)
    exact ⟨hdone, by simp [hnone]⟩
  | _ => trivial

/-- A joiner blocks, and then there is an exit with code 7. -/
theorem join_returns_seven : ∃ w, Reach step InTurn .initial w
    ∧ (w.phase = .done ∧ w.passed = 7) ∧ w.Joined := by
  obtain ⟨w, hw, hend⟩ :=
    exists_reach_guarded step .initial inTurn
    [.run 0, .run 0, .run 0, .run 0, .run 0, .exit 7, .notify, .notify, .notify]
    (fun w => w.phase = .done ∧ w.passed = 7) (by decide) inTurn_sound
  exact ⟨w, hw, hend, join_returns_the_code hw⟩

/-- **Three joins that fail.**  A test between the two stores returns 0 and not 7; a registration
after the wake is never woken; of two joiners only the second is. -/
theorem join_fails :
    (∃ w, Reach step Always .initial w ∧ w.passed = 7 ∧ w.threads.pc 0 = .returned 0)
      ∧ (∃ w, Reach step Always .initial w ∧ w.phase = .done ∧ w.threads.pc 0 = .blocked)
      ∧ ∃ w, Reach step Always .initial w ∧ w.phase = .done ∧ w.waitForExit = none
        ∧ w.threads.pc 0 = .blocked :=
  ⟨exists_reach step .initial [.exit 7, .run 0, .run 0, .run 0, .run 0]
      (fun w => w.passed = 7 ∧ w.threads.pc 0 = .returned 0) (by decide),
    exists_reach step .initial
      [.run 0, .run 0, .run 0, .exit 7, .notify, .notify, .notify, .run 0, .run 0]
      (fun w => w.phase = .done ∧ w.threads.pc 0 = .blocked) (by decide),
    exists_reach step .initial
      [.run 0, .run 0, .run 0, .run 0, .run 0, .run 1, .run 1, .run 1, .run 1, .exit 7, .notify,
        .notify, .notify]
      (fun w => w.phase = .done ∧ w.waitForExit = none ∧ w.threads.pc 0 = .blocked) (by decide)⟩

end StarryOS.Task
