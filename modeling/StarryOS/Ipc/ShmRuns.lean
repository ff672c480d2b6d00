/-
  StarryOS.Ipc.ShmRuns — SHARED MEMORY IN ALL RUNS of any number of threads and
  processes.

  `Consistent` is the invariant: the kernel runs, every lock has one holder, the
  books are right, every thread is right about what it knows, and a process that
  exits does nothing else.  Every orderly step keeps it.

  `shm_books_hold` reads off what the books promise; `shm_books_break` has a run
  for each kind of step that is not orderly.
-/
import StarryOS.Ipc.ShmSteps

namespace StarryOS.Ipc.Shm

open Lib Mm Threads

/-! ## §1. The invariant. -/

/-- What the list of the manager still says while processes exit. -/
def World.pending (cfg : Config) (w : World) (p : Nat) (s : Int) : Prop :=
  ∀ t, stillCounts (cfg.process t) (w.threads.pc t).exitList p s

/-- **The invariant of all runs.** -/
@[grind cases] structure Consistent (cfg : Config) (w : World) : Prop where
  running : w.halted = false
  exclusive : (w.locking cfg).Exclusive
  book : Book w.tables (w.pending cfg)
  points : ∀ t, PointOk w.tables (cfg.process t) (w.threads.pc t)
  exiting : ∀ t, (w.threads.pc t).exiting = true → cfg.process t ∈ w.exited
  /-- A process that exits makes no other call. -/
  alone : ∀ t, cfg.process t ∈ w.exited →
    (w.threads.pc t).outside = true ∨ (w.threads.pc t).exiting = true

theorem Book.congr {tb : Tables} {pending pending' : Nat → Int → Prop} (h : Book tb pending)
    (hiff : ∀ p s, pending' p s ↔ pending p s) : Book tb pending' :=
  h.relink tb.pidShmidVaddr (fun p s _ => and_congr_right (fun _ => hiff p s))

section Runs

variable {cfg : Config} {w : World}

theorem not_held_of_isFree {l : Lock} (h : w.isFree cfg l = true) (u : Nat) :
    l ∉ (w.locking cfg).held u := by
  intro hheld
  unfold World.isFree at h
  rw [Bool.not_eq_true', List.any_eq_false] at h
  show False
  have hpc : l ∈ (w.threads.pc u).held (cfg.space (cfg.process u)) := hheld
  unfold pc at hpc
  generalize hl : w.threads.points.lookup u = q at hpc
  cases q with
  | none => cases hpc
  | some p => exact h (u, p) ((w.threads.points.lookup_eq_some_iff u p).mp hl) (decide_eq_true hpc)

variable {t : Nat} {p : Point} {w' : World}

theorem outside_of_not_hasCompany (h : w.hasCompany cfg t = false) {u : Nat}
    (hu : cfg.process u = cfg.process t) : (w.threads.pc u).outside = true := by
  unfold World.hasCompany at h
  rw [List.any_eq_false] at h
  by_contra hno
  rw [Bool.not_eq_true] at hno
  have hmem : u ∈ w.threads.those (fun p => !p.outside) := by
    rw [mem_those _ rfl]
    simpa using hno
  exact h u hmem (decide_eq_true hu)

/-- Only a thread that holds the manager is in the loop of an exit. -/
theorem manager_of_exitList {l : List Int} (h : p.exitList = some l) (space : Nat) :
    .manager ∈ p.held space := by
  cases p with
  | exitInner shmid i rest => exact .head _
  | _ => cases h

theorem exiting_of_exitList {l : List Int} (h : p.exitList = some l) : p.exiting = true := by
  cases p with
  | exitInner shmid i rest => rfl
  | _ => cases h

theorem consistent_initial : Consistent cfg .initial where
  running := rfl
  exclusive := fun _ _ _ h => absurd h List.not_mem_nil
  book := book_initial _
  points := fun _ => trivial
  exiting := fun _ h => absurd h (by simp [World.initial, Point.exiting, default])
  alone := fun _ h => absurd h List.not_mem_nil

/-- A thread in the exit has no other one beside it in the loop. -/
theorem Consistent.exit_alone (h : Consistent cfg w)
    (hfree : (∀ u, .manager ∉ (w.locking cfg).held u) ∨ .manager ∈ (w.locking cfg).held t) (u : Nat)
    (hu : u ≠ t) : (w.threads.pc u).exitList = none := by
  cases hl : (w.threads.pc u).exitList with
  | none => rfl
  | some l =>
    have hheld : .manager ∈ (w.locking cfg).held u := manager_of_exitList hl _
    rcases hfree with hfree | hmine
    · exact absurd hheld (hfree u)
    · exact absurd (h.exclusive u t _ hheld hmine) hu

/-- What is pending depends on the only thread that may be in the loop. -/
theorem pending_iff {w : World} (hothers : ∀ u, u ≠ t → (w.threads.pc u).exitList = none) (p : Nat)
    (s : Int) : w.pending cfg p s ↔ stillCounts (cfg.process t) (w.threads.pc t).exitList p s := by
  constructor
  · exact fun h => h t
  intro h u
  by_cases hu : u = t
  · rw [hu]
    exact h
  · rw [hothers u hu]
    exact fun l hl => absurd hl (by simp)

theorem outside_of_request {l : Lock} {space : Nat} (hl : p.request space = some l) :
    p.outside = false := by
  cases p with
  | returned x => cases hl
  | _ => rfl

/-- The books after a thread got its lock, and what it knows then. -/
theorem Consistent.advance (h : Consistent cfg w) {ans : Answers} {l : Lock}
    (hl : (w.threads.pc t).request (cfg.space (cfg.process t)) = some l)
    (hfree : w.isFree cfg l = true)
    (hadm : ans.admissible cfg w.tables (cfg.process t) (w.threads.pc t) = true)
    (hok : orderlyAt w.tables (cfg.process t) ans (w.threads.pc t) = true) :
    ∃ tb p, Shm.advance cfg.overflowChecks w.tables (cfg.process t) ans (w.threads.pc t)
        = some (tb, p)
      ∧ Book tb (World.pending cfg { w with tables := tb, threads := w.threads.goto t p })
      ∧ PointOk tb (cfg.process t) p := by
  by_cases hexit : (w.threads.pc t).exiting = true
  · -- the exit: nobody else is in its loop
    have hmanager : (∀ u, .manager ∉ (w.locking cfg).held u)
        ∨ .manager ∈ (w.locking cfg).held t := by
      cases hp : w.threads.pc t with
      | exit =>
        rw [hp] at hl
        cases hl
        exact .inl (not_held_of_isFree hfree)
      | exitInner shmid i rest =>
        refine .inr ?_
        show Lock.manager ∈ (w.threads.pc t).held _
        rw [hp]
        exact .head _
      | _ =>
        rw [hp] at hexit
        cases hexit
    have hothers := h.exit_alone hmanager
    have hbook : Book w.tables (stillCounts (cfg.process t) (w.threads.pc t).exitList) :=
      h.book.congr (fun p s => (pending_iff hothers p s).symm)
    have hpoint := h.points t
    have hkeeps : KeepsExit (cfg.process t)
        (Shm.advance cfg.overflowChecks w.tables (cfg.process t) ans (w.threads.pc t)) := by
      cases hp : w.threads.pc t with
      | exit =>
        rw [hp] at hbook
        exact advance_exit_keeps hbook _
      | exitInner shmid i rest =>
        rw [hp] at hbook hpoint
        exact advance_exitInner_keeps hbook hpoint _
      | _ =>
        rw [hp] at hexit
        cases hexit
    obtain ⟨tb, p, heq, hbook', hp'⟩ := hkeeps
    refine ⟨tb, p, heq, hbook'.congr ?_, hp'⟩
    intro q s
    have hothers' : ∀ u, u ≠ t → ((w.threads.goto t p).pc u).exitList = none := by
      intro u hu
      rw [pc_goto, if_neg hu]
      exact hothers u hu
    rw [pending_iff hothers']
    simp only [pc_goto, if_true]
  · -- a call: its process does not exit, so all its entries count
    have hnone : (w.threads.pc t).exitList = none := by
      cases hx : (w.threads.pc t).exitList with
      | none => rfl
      | some l => exact absurd (exiting_of_exitList hx) hexit
    have hinside := outside_of_request hl
    have hpending : ∀ s, w.pending cfg (cfg.process t) s := by
      intro s u l hx hpid
      have hgone := h.exiting u (exiting_of_exitList hx)
      grind
    obtain ⟨tb, p, heq, hbook', hp', hnone'⟩ := advance_keeps h.book hpending cfg.overflowChecks
      (h.points t) hok hadm hnone (fun hp => hexit (by rw [hp]; rfl))
    refine ⟨tb, p, heq, hbook'.congr ?_, hp'⟩
    intro q s
    refine forall_congr' (fun u => ?_)
    grind

/-- **A thread that gets its lock keeps the invariant.** -/
theorem consistent_run (h : Consistent cfg w) {ans : Answers}
    (hok : orderly cfg w (.run t ans) = true) (hstep : step cfg w (.run t ans) = some w') :
    Consistent cfg w' := by
  have hrun := h.running
  simp only [step, hrun, Bool.false_eq_true, if_false] at hstep
  split at hstep
  · cases hstep
  rename_i l hl
  split at hstep
  next hguard =>
    rw [Bool.and_eq_true] at hguard
    obtain ⟨tb, p, heq, hbook, hpoint⟩ := h.advance hl hguard.1 hguard.2 hok
    simp only [heq, Option.some.injEq] at hstep
    subst hstep
    have hfree := not_held_of_isFree hguard.1
    obtain ⟨huntouched, hleads⟩ := advance_step hl heq
    refine ⟨rfl, ?_, hbook, ?_, ?_, ?_⟩
    · refine h.exclusive.move t l hfree ?_ ?_
      · grind [World.locking]
      · intro u hu
        simp only [World.locking, pc_goto, if_neg hu]
    · intro u
      simp only [pc_goto]
      split
      next hu =>
        rw [hu]
        exact hpoint
      next hu =>
        refine pointOk_of_untouched huntouched (h.points u) ?_ (congrArg cfg.space)
        intro m hm hin
        rcases List.mem_cons.mp hin with rfl | hin
        · exact hfree u hm
        · exact hu (h.exclusive u t m hm hin)
    · grind
    · intro u hu
      simp only [pc_goto]
      split
      next hut =>
        rw [hut] at hu
        rcases h.alone t hu with hout | hin
        · cases hout.symm.trans (outside_of_request hl)
        · exact hleads.leaving hin
      · exact h.alone u hu
  · cases hstep

theorem start_spec (tb : Tables) (pid space : Nat) {c : Call}
    (h : c.start cfg.overflowChecks = some p) : p.held space = [] ∧ p.exitList = none
      ∧ PointOk tb pid p ∧ (p.exiting = true → c.isExit = true)
      ∧ (c.isExit = true → p.exiting = true) := by
  cases c with
  | shmget a =>
    simp only [Call.start] at h
    split at h
    · cases h
    split at h
    · cases h
      exact ⟨rfl, rfl, trivial, by simp [Point.exiting], by simp [Call.isExit]⟩
    next hpages =>
      cases h
      exact ⟨rfl, rfl, Nat.pos_of_ne_zero hpages, by simp [Point.exiting], by simp [Call.isExit]⟩
  | exit =>
    cases h
    exact ⟨rfl, rfl, trivial, fun _ => rfl, fun _ => rfl⟩
  | _ =>
    cases h
    exact ⟨rfl, rfl, trivial, by simp [Point.exiting], by simp [Call.isExit]⟩

theorem consistent_call (h : Consistent cfg w) {c : Call} (hok : orderly cfg w (.call t c) = true)
    (hstep : step cfg w (.call t c) = some w') : Consistent cfg w' := by
  have hrun := h.running
  simp only [step, hrun, Bool.false_eq_true, if_false] at hstep
  split at hstep
  · cases hstep
  rename_i hguard
  simp only [Bool.or_eq_true, Bool.not_eq_true', Bool.and_eq_true, not_or, not_and,
    Bool.not_eq_false, List.contains_iff_mem, Bool.not_eq_true] at hguard
  obtain ⟨⟨hout, hnew⟩, hcompany⟩ := hguard
  have houtside : ∀ x, w.threads.pc t = x → x.outside = true := by
    intro x hx
    rw [← hx]
    exact hout
  split at hstep
  next hpanic =>
    -- only a size that overflows panics
    cases c with
    | shmget a =>
      simp only [Call.start] at hpanic
      simp only [orderly, Bool.or_eq_true, Bool.not_eq_true', decide_eq_true_eq] at hok
      grind
    | _ => cases hpanic
  next p hstart =>
    cases hstep
    have hold : (w.threads.pc t).held (cfg.space (cfg.process t)) = []
        ∧ (w.threads.pc t).exitList = none ∧ (w.threads.pc t).exiting = false := by
      cases hp : w.threads.pc t with
      | returned x => exact ⟨rfl, rfl, rfl⟩
      | _ => cases (houtside _ hp)
    obtain ⟨hheld, hlist, hpoint, hexiting, hisExit⟩ :=
      start_spec w.tables (cfg.process t) (cfg.space (cfg.process t)) hstart
    refine ⟨rfl, ?_, h.book.congr ?_, ?_, ?_, ?_⟩
    · have hsame : ∀ u, ((w.threads.goto t p).pc u).held (cfg.space (cfg.process u))
          = (w.threads.pc u).held (cfg.space (cfg.process u)) := by grind
      intro u v m hu hv
      simp only [World.locking, hsame] at hu hv
      exact h.exclusive u v m hu hv
    · intro q s
      refine forall_congr' (fun u => ?_)
      grind
    · grind
    · grind
    · intro u hu
      simp only [pc_goto]
      split
      · grind
      generalize hc : c.isExit = y at hu
      cases y with
      | true => grind [outside_of_not_hasCompany]
      | false => exact h.alone u hu

theorem consistent_step (h : Consistent cfg w) (i : Step) (hok : orderly cfg w i = true)
    (hstep : step cfg w i = some w') : Consistent cfg w' := by
  cases i with
  | drawId =>
    have hrun := h.running
    simp only [step, hrun, Bool.false_eq_true, if_false, Option.some.injEq] at hstep
    subst hstep
    exact ⟨rfl, h.exclusive, ⟨h.book.distinct, h.book.named, h.book.sized, h.book.counted,
      h.book.live, h.book.linked⟩, h.points, h.exiting, h.alone⟩
  | call t c => exact consistent_call h hok hstep
  | run t ans => exact consistent_run h hok hstep

theorem consistent_of_reach
    (hw : Reach (step cfg) (fun w i => orderly cfg w i = true) .initial w) : Consistent cfg w :=
  hw.invariant (Consistent cfg) consistent_initial (fun _ i _ h => consistent_step h i)

end Runs

/-! ## §2. What the books promise. -/

/-- The process is not in the middle of its exit, under the lock of the manager. -/
def World.settled (cfg : Config) (w : World) (pid : Nat) : Prop :=
  ∀ t, cfg.process t = pid → (w.threads.pc t).exitList = none

/-- **THE BOOKS HOLD.**  In every state that any number of processes reach by orderly
steps nothing has panicked, `shm_nattch` is the number of processes in `va_range`,
and the manager lists an attachment if and only if the segment does. -/
theorem shm_books_hold (cfg : Config) (w : World)
    (hw : Reach (step cfg) (fun w i => orderly cfg w i = true) .initial w) : w.halted = false
    ∧ (∀ o ∈ w.tables.inners, o.shmidDs.shmNattch.toNat = o.attachCount)
    ∧ ∀ pid, w.settled cfg pid → ∀ shmid addr, w.tables.recorded pid shmid = some addr
      ↔ ∃ o ∈ w.tables.inners, o.shmid = shmid
        ∧ ∃ stop, o.getAddrRange pid = some (addr, stop) := by
  have h := consistent_of_reach hw
  refine ⟨h.running, ?_, ?_⟩
  · intro o ho
    obtain ⟨i, hi, rfl⟩ := Tables.exists_inner_eq ho
    exact h.book.counted i hi
  intro pid hsettled shmid addr
  have hpending : w.pending cfg pid shmid := by
    intro t l hl hpid
    rw [hsettled t hpid.symm] at hl
    cases hl
  constructor
  · intro hrec
    obtain ⟨i, stop, hi, hr⟩ := (h.book.linked pid shmid addr).mpr ⟨hrec, hpending⟩
    obtain ⟨hlt, hs⟩ := h.book.named shmid i hi
    exact ⟨w.tables.inner i, Tables.inner_mem hlt, hs, stop, hr⟩
  · rintro ⟨o, ho, rfl, stop, hr⟩
    obtain ⟨i, hi, rfl⟩ := Tables.exists_inner_eq ho
    exact ((h.book.linked pid _ addr).mp ⟨i, stop, (h.book.live i hi pid _ hr).1, hr⟩).1

/-- Thread `t` is the only one of process `t`, which has a space of its own. -/
def separate (checks : Bool) : Config := ⟨checks, id, id⟩

/-- Every answer is a success; a free area is found at `start`. -/
def granted (start : Nat) : Answers :=
  ⟨some start, .ok (), .ok (), .ok (), .ok (.new 0 0 0 0), 0⟩

def getPrivate : Call := .shmget ⟨IPC_PRIVATE, 4096, 0o600⟩

/-- Thread `t` attaches the segment with an identifier. -/
def attachRun (t : Nat) (shmid : BitVec 32) (ans : Answers) : List Step :=
  [.call t (.shmat shmid), .run t ans, .run t ans, .run t ans, .run t ans]

/-- Thread `t` detaches what it has at an address. -/
def detachRun (t shmaddr : Nat) : List Step :=
  [.call t (.shmdt shmaddr), .run t (granted 0), .run t (granted 0), .run t (granted 0),
    .run t (granted 0), .run t (granted 0)]

/-- Process 0 gets a segment and attaches it. -/
def attachNew (ans : Answers) : List Step :=
  [.call 0 getPrivate, .run 0 (granted 0)] ++ attachRun 0 0 ans

/-- Two processes attach a segment, one detaches it and the other exits. -/
theorem shm_books_hold_run : ∃ w, Reach (step (separate true))
      (fun w i => orderly (separate true) w i = true) .initial w
    ∧ (w.halted = false
      ∧ (∀ o ∈ w.tables.inners, o.shmidDs.shmNattch.toNat = o.attachCount)
      ∧ ∀ pid, w.settled (separate true) pid → ∀ shmid addr,
        w.tables.recorded pid shmid = some addr
          ↔ ∃ o ∈ w.tables.inners, o.shmid = shmid
            ∧ ∃ stop, o.getAddrRange pid = some (addr, stop))
    ∧ w.tables.recorded 1 0 = some 8192 := by
  obtain ⟨w, hw, hc⟩ := exists_reach_guarded (step (separate true)) .initial
    (orderly (separate true))
    (attachNew (granted 4096)
      ++ attachRun 1 0 (granted 8192) ++ attachRun 2 0 (granted 4096) ++ detachRun 0 4096
      ++ [.call 2 .exit, .run 2 (granted 0), .run 2 (granted 0)])
    (fun w => w.tables.recorded 1 0 = some 8192) (by decide +kernel)
  exact ⟨w, hw, shm_books_hold (separate true) w hw, hc⟩

/-- The count of a segment is right. -/
def World.countsRight (w : World) : Bool :=
  w.tables.inners.all (fun o => o.shmidDs.shmNattch.toNat = o.attachCount)

/-- `IPC_SET` writes that there are no attachments. -/
def setNone : List Step :=
  [.call 0 (.shmctl ⟨0, IPC_SET, .aligned⟩), .run 0 (granted 0), .run 0 (granted 0),
    .run 0 (granted 0)]

/-- **The books break**, and the kernel with them.  An unknown identifier and a second
attachment panic.  A mapping that fails leaves an address behind on which the exit
of the process panics.  `IPC_SET` writes the counter: without checks it wraps, with
them the next `shmdt` panics. -/
theorem shm_books_break : (∃ w, Reach (step (separate false)) Always .initial w ∧ w.halted = true
      ∧ w.tables.inners = [])
    ∧ (∃ w, Reach (step (separate false)) Always .initial w ∧ w.halted = true
      ∧ w.tables.recorded 0 0 = some 4096)
    ∧ (∃ w, Reach (step (separate false)) Always .initial w ∧ w.halted = true
      ∧ 0 ∈ w.exited)
    ∧ (∃ w, Reach (step (separate false)) Always .initial w ∧ w.countsRight = false)
    ∧ ∃ w, Reach (step (separate true)) Always .initial w ∧ w.halted = true
      ∧ w.countsRight = false := by
  refine ⟨?_, ?_, ?_, ?_, ?_⟩
  · obtain ⟨w, hw, hhalted, hempty⟩ := exists_reach (step (separate false)) .initial
      [.call 0 (.shmat 7), .run 0 (granted 0)]
      (fun w => w.halted ∧ w.tables.inners.isEmpty) (by decide +kernel)
    exact ⟨w, hw, hhalted, List.isEmpty_iff.mp hempty⟩
  · exact exists_reach (step (separate false)) .initial
      (attachNew (granted 4096)
        ++ [.call 0 (.shmat 0), .run 0 (granted 0), .run 0 (granted 0), .run 0 (granted 0)]) _
      (by decide +kernel)
  · exact exists_reach (step (separate false)) .initial
      (attachNew { granted 4096 with map := .error .noMemory }
        ++ [.call 0 .exit, .run 0 (granted 0), .run 0 (granted 0)]) _ (by decide +kernel)
  · exact exists_reach (step (separate false)) .initial
      (attachNew (granted 4096) ++ setNone) _
      (by decide +kernel)
  · exact exists_reach (step (separate true)) .initial
      (attachNew (granted 4096) ++ setNone ++ detachRun 0 4096) _ (by decide +kernel)

end StarryOS.Ipc.Shm
