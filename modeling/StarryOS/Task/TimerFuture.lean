/-
  StarryOS.Task.TimerFuture — DOES A SLEEP END TOO EARLY?
  (`modules/axtask/src/future/time.rs`).

  Every CPU has a timer wheel of its own and hands out keys of its own.  Which
  wheel is meant is decided anew by every access:

      add      the key goes into the wheel of the CPU that makes the first poll
      poll     looks at the wheel of the CPU it runs on: no key there is Ready
      drop     takes the key out of the wheel of the CPU it runs on
      wake     the timer interrupt takes out what has expired

  A task that migrates is awake at once, and its drop takes out the timer of
  another task (`sleep_is_punctual`, `migrated_sleep_is_early`).
-/
import StarryOS.Lib.Transition

namespace StarryOS.Task

open Lib Function

/-! ## §1. One wheel. -/

/-- A place in the wheel. -/
structure TimerKey where
  deadline : Nat
  key : Nat
  deriving Repr, DecidableEq

/-- The derived order. -/
def TimerKey.before (a b : TimerKey) : Bool :=
  a.deadline < b.deadline || (a.deadline == b.deadline && a.key < b.key)

/-- A waker is the task that it wakes; `none` is `Waker::noop()`. -/
structure TimerRuntime where
  key : Nat
  wheel : TimerKey → Option (Option Nat)

namespace TimerRuntime

def new : TimerRuntime := ⟨0, fun _ => none⟩

variable (r : TimerRuntime)

/-- A deadline that has passed gets no key. -/
def add (now deadline : Nat) : Option TimerKey × TimerRuntime :=
  if deadline ≤ now then (none, r)
  else (some ⟨deadline, r.key⟩,
    ⟨(r.key + 1) % 2 ^ 64, update r.wheel ⟨deadline, r.key⟩ (some none)⟩)

/-- Whether the answer is `Ready`. -/
def poll (key : TimerKey) (task : Nat) : Bool × TimerRuntime :=
  if (r.wheel key).isSome then
    (false, { r with wheel := update r.wheel key (some (some task)) })
  else (true, r)

def cancel (key : TimerKey) : TimerRuntime :=
  { r with wheel := update r.wheel key none }

/-- What `wake` splits off: all that is before `(now, u64::MAX)`. -/
def expired (now : Nat) (key : TimerKey) : Bool := key.before ⟨now, 2 ^ 64 - 1⟩

def wake (now : Nat) : TimerRuntime :=
  { r with wheel := fun key => if expired now key then none else r.wheel key }

theorem deadline_le_of_expired {now : Nat} {key : TimerKey} (h : expired now key = true) :
    key.deadline ≤ now := by
  simp only [expired, TimerKey.before, Bool.or_eq_true, Bool.and_eq_true, decide_eq_true_eq,
    beq_iff_eq] at h
  omega

end TimerRuntime

/-! ## §2. Sleeps on several CPUs. -/

/-- The life of a sleep. -/
inductive SleepStage where
  | unused
  /-- Not polled yet. -/
  | created
  /-- There is a `TimerFuture`. -/
  | armed
  /-- The result is there, and the `TimerFuture` is still to be dropped. -/
  | resolved
  | gone
  deriving Repr, DecidableEq

/-- A `sleep_until`, by itself or as the second branch of a `timeout_at`. -/
structure Sleep where
  deadline : Nat
  isTimeout : Bool
  stage : SleepStage
  key : TimerKey
  /-- The CPU where the timer was added; nobody reads this. -/
  home : Nat
  /-- The timer interrupt has taken it out of its wheel; nobody reads this. -/
  fired : Bool
  /-- When it was `Ready`; nobody reads this. -/
  elapsedAt : Option Nat
  deriving Repr, DecidableEq

/-- The `TimerFuture` exists. -/
def Sleep.holdsKey (s : Sleep) : Bool := s.stage = .armed ∨ s.stage = .resolved

/-- `now` is `wall_time()`. -/
structure Timers where
  now : Nat
  runtimes : Nat → TimerRuntime
  sleeps : Nat → Sleep

/-- A task is the number of its sleep. -/
inductive TimerOp where
  | tick (n : Nat)
  | call (i deadline : Nat) (isTimeout : Bool)
  /-- The first poll of `sleep_until`, up to the `await`. -/
  | start (i cpu : Nat)
  | poll (i cpu : Nat)
  /-- The first branch of `timeout_at` is ready. -/
  | inner (i : Nat)
  | drop (i cpu : Nat)
  /-- `check_timer_events`. -/
  | interrupt (cpu : Nat)

namespace Timers

def initial : Timers where
  now := 0
  runtimes _ := .new
  sleeps _ := ⟨0, false, .unused, ⟨0, 0⟩, 0, false, none⟩

variable (w : Timers)

def setSleep (i : Nat) (s : Sleep) : Timers := { w with sleeps := update w.sleeps i s }

def setRuntime (cpu : Nat) (r : TimerRuntime) : Timers :=
  { w with runtimes := update w.runtimes cpu r }

section Fields

variable (i j cpu : Nat) (s : Sleep) (r : TimerRuntime)

theorem sleeps_setSleep : (w.setSleep i s).sleeps j = if j = i then s else w.sleeps j :=
  update_apply _ _ _ _

theorem runtimes_setSleep : (w.setSleep i s).runtimes j = w.runtimes j := rfl

theorem now_setSleep : (w.setSleep i s).now = w.now := rfl

theorem runtimes_setRuntime :
    (w.setRuntime cpu r).runtimes j = if j = cpu then r else w.runtimes j :=
  update_apply _ _ _ _

theorem sleeps_setRuntime : (w.setRuntime cpu r).sleeps j = w.sleeps j := rfl

theorem now_setRuntime : (w.setRuntime cpu r).now = w.now := rfl

theorem setSleep_self : w.setSleep i (w.sleeps i) = w := by
  simp [setSleep, update_eq_self]

theorem setRuntime_self : w.setRuntime cpu (w.runtimes cpu) = w := by
  simp [setRuntime, update_eq_self]

end Fields

def start (i cpu : Nat) (s : Sleep) : Timers :=
  match (w.runtimes cpu).add w.now s.deadline with
  | (none, _) => w.setSleep i { s with stage := .gone, elapsedAt := some w.now }
  | (some key, r) =>
    (w.setRuntime cpu r).setSleep i { s with stage := .armed, key := key, home := cpu }

def poll (i cpu : Nat) (s : Sleep) : Timers :=
  match (w.runtimes cpu).poll s.key i with
  | (true, _) => w.setSleep i { s with stage := .resolved, elapsedAt := some w.now }
  | (false, r) => w.setRuntime cpu r

def drop (i cpu : Nat) (s : Sleep) : Timers :=
  (w.setRuntime cpu ((w.runtimes cpu).cancel s.key)).setSleep i { s with stage := .gone }

/-- The timer is in the wheel and has expired. -/
def fires (cpu : Nat) (s : Sleep) : Bool :=
  s.home == cpu && ((w.runtimes cpu).wheel s.key).isSome && TimerRuntime.expired w.now s.key

def interrupt (cpu : Nat) : Timers :=
  { w.setRuntime cpu ((w.runtimes cpu).wake w.now) with
    sleeps := fun i => { w.sleeps i with
      fired := (w.sleeps i).fired || ((w.sleeps i).stage == .armed && w.fires cpu (w.sleeps i)) } }

/-- A call that is not at its place does nothing. -/
def call : TimerOp → Timers
  | .tick n => { w with now := w.now + n }
  | .call i deadline isTimeout =>
    if (w.sleeps i).stage = .unused then
      w.setSleep i ⟨deadline, isTimeout, .created, ⟨0, 0⟩, 0, false, none⟩
    else w
  | .start i cpu => if (w.sleeps i).stage = .created then w.start i cpu (w.sleeps i) else w
  | .poll i cpu => if (w.sleeps i).stage = .armed then w.poll i cpu (w.sleeps i) else w
  | .inner i =>
    if (w.sleeps i).isTimeout = true ∧ (w.sleeps i).stage = .armed then
      w.setSleep i { w.sleeps i with stage := .resolved }
    else if (w.sleeps i).isTimeout = true ∧ (w.sleeps i).stage = .created then
      w.setSleep i { w.sleeps i with stage := .gone }
    else w
  | .drop i cpu => if (w.sleeps i).holdsKey then w.drop i cpu (w.sleeps i) else w
  | .interrupt cpu => w.interrupt cpu

def step (op : TimerOp) : Option Timers := some (w.call op)

/-! ## §3. The property and its condition. -/

/-- No sleep has ended before its deadline, and no timer that is waited for has gone from its
wheel before it expired. -/
def Punctual : Prop :=
  (∀ i t, (w.sleeps i).elapsedAt = some t → (w.sleeps i).deadline ≤ t)
    ∧ ∀ i, (w.sleeps i).stage = .armed → (w.sleeps i).fired = false →
      ((w.runtimes (w.sleeps i).home).wheel (w.sleeps i).key).isSome = true

/-- Futures are used on the CPU of their timer, and a new key is not in use. -/
def AtHome : TimerOp → Prop
  | .start i cpu => ∀ j, (w.sleeps j).holdsKey = true → (w.sleeps j).home = cpu →
      (w.sleeps j).key ≠ ⟨(w.sleeps i).deadline, (w.runtimes cpu).key⟩
  | .poll i cpu => (w.sleeps i).home = cpu
  | .drop i cpu => (w.sleeps i).home = cpu
  | _ => True

/-- What carries `Punctual` through a run. -/
@[grind cases] structure Kept : Prop where
  onTime : ∀ i t, (w.sleeps i).elapsedAt = some t → (w.sleeps i).deadline ≤ t
  inWheel : ∀ i, (w.sleeps i).stage = .armed → (w.sleeps i).fired = false →
    ((w.runtimes (w.sleeps i).home).wheel (w.sleeps i).key).isSome = true
  due : ∀ i, (w.sleeps i).fired = true → (w.sleeps i).deadline ≤ w.now
  keyed : ∀ i, (w.sleeps i).holdsKey = true → (w.sleeps i).key.deadline = (w.sleeps i).deadline
  apart : ∀ i j, i ≠ j → (w.sleeps i).holdsKey = true → (w.sleeps j).holdsKey = true →
    (w.sleeps i).home = (w.sleeps j).home → (w.sleeps i).key ≠ (w.sleeps j).key

end Timers

open Timers

section Run

variable {w : Timers} {i cpu : Nat}

namespace Timers.Kept

variable (h : w.Kept)
include h

/-- One sleep and the wheel of one CPU change. -/
theorem update {s : Sleep} {r : TimerRuntime} (honTime : ∀ t, s.elapsedAt = some t → s.deadline ≤ t)
    (hinWheel : s.stage = .armed → s.fired = false →
      (((w.setRuntime cpu r).runtimes s.home).wheel s.key).isSome = true)
    (hdue : s.fired = true → s.deadline ≤ w.now)
    (hkeyed : s.holdsKey = true → s.key.deadline = s.deadline)
    (hapart : ∀ j ≠ i, s.holdsKey = true → (w.sleeps j).holdsKey = true →
      s.home = (w.sleeps j).home → s.key ≠ (w.sleeps j).key)
    (hothers : ∀ j ≠ i, (w.sleeps j).holdsKey = true → (w.sleeps j).home = cpu →
      ((w.runtimes cpu).wheel (w.sleeps j).key).isSome = true →
      (r.wheel (w.sleeps j).key).isSome = true) : ((w.setRuntime cpu r).setSleep i s).Kept := by
  refine ⟨fun j => ?_, fun j => ?_, fun j => ?_, fun j => ?_, fun j k hne => ?_⟩ <;>
    simp only [sleeps_setSleep, runtimes_setSleep, now_setSleep, sleeps_setRuntime, now_setRuntime]
  · split
    · exact honTime
    · exact h.onTime j
  · split
    · exact hinWheel
    next hj =>
      intro hstage hfired
      have hin := h.inWheel j hstage hfired
      rw [runtimes_setRuntime]
      split
      next hhome =>
        rw [hhome] at hin
        exact hothers j hj (by simp [Sleep.holdsKey, hstage]) hhome hin
      · exact hin
  · split
    · exact hdue
    · exact h.due j
  · split
    · exact hkeyed
    · exact h.keyed j
  · by_cases hj : j = i
    · have hk : k ≠ i := fun hk => hne (hj.trans hk.symm)
      rw [if_pos hj, if_neg hk]
      exact hapart k hk
    · rw [if_neg hj]
      split
      · exact fun hkj hks hhome heq => hapart j hj hks hkj hhome.symm heq.symm
      · exact h.apart j k hne

/-- Only the one sleep changes, and it holds no other key than before. -/
theorem setSleep {s : Sleep}
    (honTime : ∀ t, s.elapsedAt = some t → s.deadline ≤ t) (hstage : s.stage ≠ .armed)
    (hdue : s.fired = true → s.deadline ≤ w.now)
    (hkey : s.holdsKey = true → (w.sleeps i).holdsKey = true
      ∧ s = { w.sleeps i with stage := s.stage, elapsedAt := s.elapsedAt }) :
    (w.setSleep i s).Kept := by
  rw [← w.setRuntime_self 0]
  refine h.update honTime (fun harmed => absurd harmed hstage) hdue (fun hs => ?_)
    (fun j hj hs hjs hhome => ?_) (fun j _ _ _ hin => hin)
  · obtain ⟨hi, heq⟩ := hkey hs
    rw [heq]
    exact h.keyed i hi
  · obtain ⟨hi, heq⟩ := hkey hs
    rw [heq] at hhome ⊢
    exact h.apart i j hj.symm hi hjs hhome

theorem start (hok : w.AtHome (.start i cpu)) : (w.start i cpu (w.sleeps i)).Kept := by
  unfold Timers.start TimerRuntime.add
  by_cases hdue : (w.sleeps i).deadline ≤ w.now
  · rw [if_pos hdue]
    refine h.setSleep ?_ (by simp) (fun _ => hdue) (fun hs => by simp [Sleep.holdsKey] at hs)
    rintro t ⟨⟩
    exact hdue
  · rw [if_neg hdue]
    refine h.update (h.onTime i) (fun _ _ => ?_) (h.due i) (fun _ => rfl)
      (fun j _ _ hj hhome heq => hok j hj hhome.symm heq.symm) (fun j _ hj hhome hin => ?_)
    · simp [runtimes_setRuntime]
    · dsimp only
      rw [update_of_ne (hok j hj hhome)]
      exact hin

theorem poll (hstage : (w.sleeps i).stage = .armed) (hhome : (w.sleeps i).home = cpu) :
    (w.poll i cpu (w.sleeps i)).Kept := by
  have hkey : (w.sleeps i).holdsKey = true := by simp [Sleep.holdsKey, hstage]
  unfold Timers.poll TimerRuntime.poll
  by_cases hin : ((w.runtimes cpu).wheel (w.sleeps i).key).isSome = true
  · rw [if_pos hin]
    dsimp only
    rw [← Timers.setSleep_self (w.setRuntime _ _) i]
    refine h.update (h.onTime i) (fun _ _ => ?_) (h.due i) (h.keyed i)
      (fun j hj => h.apart i j hj.symm) (fun j hj hjs hjhome hjin => ?_)
    · rw [sleeps_setRuntime, runtimes_setRuntime, if_pos hhome]
      simp
    · dsimp only
      rw [update_of_ne (h.apart j i hj hjs hkey (hjhome.trans hhome.symm))]
      exact hjin
  · -- the timer is gone from its own wheel, so the interrupt has taken it out
    rw [if_neg hin]
    have hdue : (w.sleeps i).deadline ≤ w.now := by
      refine h.due i ?_
      by_contra hfired
      exact hin (hhome ▸ h.inWheel i hstage (by simpa using hfired))
    refine h.setSleep ?_ (by simp) (h.due i) (fun _ => ⟨hkey, rfl⟩)
    rintro t ⟨⟩
    exact hdue

theorem drop (hkey : (w.sleeps i).holdsKey = true) (hhome : (w.sleeps i).home = cpu) :
    (w.drop i cpu (w.sleeps i)).Kept := by
  refine h.update (h.onTime i) (by simp) (h.due i) (by simp [Sleep.holdsKey])
    (fun j _ hs => by simp [Sleep.holdsKey] at hs) (fun j hj hjs hjhome hjin => ?_)
  dsimp only [TimerRuntime.cancel]
  rw [update_of_ne (h.apart j i hj hjs hkey (hjhome.trans hhome.symm))]
  exact hjin

theorem interrupt (cpu : Nat) : (w.interrupt cpu).Kept := by
  have hdue : ∀ i, (w.sleeps i).stage = .armed →
      TimerRuntime.expired w.now (w.sleeps i).key = true → (w.sleeps i).deadline ≤ w.now := by
    intro i hstage hexpired
    rw [← h.keyed i (by simp [Sleep.holdsKey, hstage])]
    exact TimerRuntime.deadline_le_of_expired hexpired
  refine ⟨h.onTime, fun i hstage hfired => ?_, fun i hfired => ?_, h.keyed, h.apart⟩
  · dsimp only [Timers.interrupt] at hstage hfired ⊢
    simp only [Bool.or_eq_false_iff, hstage, beq_self_eq_true, Bool.true_and] at hfired
    have hin := h.inWheel i hstage hfired.1
    rw [runtimes_setRuntime]
    split
    next hhome =>
      -- what is in the wheel and was not taken out has not expired
      have hnot := hfired.2
      rw [hhome] at hin
      simp only [Timers.fires, hhome, beq_self_eq_true, hin, Bool.true_and] at hnot
      simpa [TimerRuntime.wake, hnot] using hin
    · exact hin
  · dsimp only [Timers.interrupt] at hfired ⊢
    simp only [Bool.or_eq_true, Bool.and_eq_true, beq_iff_eq, Timers.fires] at hfired
    rcases hfired with hfired | ⟨hstage, _, hexpired⟩
    · exact h.due i hfired
    · exact hdue i hstage hexpired

theorem call {op : TimerOp} (hok : w.AtHome op) : (w.call op).Kept := by
  cases op with
  | tick n => exact ⟨h.onTime, h.inWheel,
      fun i hfired => (h.due i hfired).trans (by simp [Timers.call]),
      h.keyed, h.apart⟩
  | call i deadline isTimeout =>
    dsimp only [Timers.call]
    split
    · exact h.setSleep (by simp) (by simp) (by simp) (by simp [Sleep.holdsKey])
    · exact h
  | start i cpu =>
    dsimp only [Timers.call]
    split
    · exact h.start hok
    · exact h
  | poll i cpu =>
    dsimp only [Timers.call]
    split
    next hstage => exact h.poll hstage hok
    · exact h
  | inner i =>
    dsimp only [Timers.call]
    split
    next hi =>
      exact h.setSleep (h.onTime i) (by simp) (h.due i)
        (fun _ => ⟨by simp [Sleep.holdsKey, hi.2], rfl⟩)
    · split
      · exact h.setSleep (h.onTime i) (by simp) (h.due i) (by simp [Sleep.holdsKey])
      · exact h
  | drop i cpu =>
    dsimp only [Timers.call]
    split
    next hkey => exact h.drop hkey hok
    · exact h
  | interrupt cpu => exact h.interrupt cpu

end Timers.Kept

/-- **A SLEEP NEVER ENDS EARLY** where its future stays on the CPU of its timer. -/
theorem sleep_is_punctual (h : Reach step AtHome .initial w) : w.Punctual := by
  have hstart : Timers.initial.Kept := by constructor <;> simp [Timers.initial, Sleep.holdsKey]
  have hkept := h.invariant Kept hstart (by
    rintro w op _ hkept hok ⟨⟩
    exact hkept.call hok)
  exact ⟨hkept.onTime, hkept.inWheel⟩

end Run

/-- A sleep until 5 on CPU 0. -/
theorem sleep_ends_at_five : ∃ w, Reach step AtHome .initial w
    ∧ (w.sleeps 0).elapsedAt = some 5 ∧ w.Punctual := by
  have hr : Reach step AtHome .initial _ := .of_runs
    [.call 0 5 false, .start 0 0, .poll 0 0, .tick 5, .interrupt 0, .poll 0 0] (by
      refine ⟨trivial, ?_⟩
      rintro _ ⟨⟩
      refine ⟨?_, ?_⟩
      · intro j hj
        by_cases h0 : j = 0
        · subst h0
          cases hj
        · simp [call, Timers.initial, setSleep, update_of_ne h0, Sleep.holdsKey] at hj
      rintro _ ⟨⟩
      refine ⟨rfl, ?_⟩
      rintro _ ⟨⟩
      refine ⟨trivial, ?_⟩
      rintro _ ⟨⟩
      refine ⟨trivial, ?_⟩
      rintro _ ⟨⟩
      exact ⟨rfl, fun _ _ => trivial⟩) rfl
  exact ⟨_, hr, by decide, sleep_is_punctual hr⟩

/-- **Sleep 0 is added on CPU 0 and polled on CPU 1: it ends at time 0, not 5.**  And the drop of
its future on CPU 1 takes out the timer of sleep 1, which has the same deadline and the same
number there. -/
theorem migrated_sleep_is_early : (∃ w, Reach step Always .initial w ∧ (w.sleeps 0).deadline = 5
        ∧ (w.sleeps 0).elapsedAt = some 0)
      ∧ ∃ w, Reach step Always .initial w ∧ (w.sleeps 1).stage = .armed
        ∧ (w.sleeps 1).fired = false ∧ (w.runtimes 1).wheel (w.sleeps 1).key = none := by
  constructor
  · exact exists_reach step .initial [.call 0 5 false, .start 0 0, .poll 0 1] _
      (by decide)
  · exact exists_reach step .initial
      [.call 0 5 false, .start 0 0, .call 1 5 false, .start 1 1, .drop 0 1] _ (by decide)

end StarryOS.Task
