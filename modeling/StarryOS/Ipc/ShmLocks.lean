/-
  StarryOS.Ipc.ShmLocks — THE LOCKS OF SHARED MEMORY HAVE NO ORDER.

  `shmat` and `shmdt` go from a segment to the address space and on to the
  manager.  `shmget` with a known key and the exit of a process hold the manager
  and go to a segment.

  All the other requests ascend: segment, space, manager.  So every deadlock has a
  thread that holds the manager and waits for a segment that somebody has
  (`World.Clear`).  A step can only lead there in two ways: a thread takes the
  manager on its way to a segment that is locked, or locks the segment for which
  the one with the manager is about to ask.  `meetsNobody` excludes both.
-/
import StarryOS.Ipc.ShmRuns

namespace StarryOS.Ipc.Shm

open Lib Mm

/-- The segment that a thread asks for while it holds the manager. -/
def Point.awaits : Point → Option Nat
  | .shmgetInner _ i | .exitInner _ i _ => some i
  | _ => none

/-- The segment that a thread without the manager asks for. -/
def Point.enters : Point → Option Nat
  | .shmatInner i | .shmdtInner _ _ i | .shmctlInner _ i => some i
  | _ => none

/-- The segments that a thread of process `pid` locks under the manager, once it gets
its lock: that of a known key, or those that the process still has to give back. -/
def Point.segmentsAhead (tb : Tables) (pid : Nat) : Point → List Nat
  | .shmget a =>
    ((if a.key ≠ IPC_PRIVATE then tb.getShmidByKey a.key.toInt else none).bind
      tb.getInnerByShmid).toList
  | .exit => ((tb.getShmidsByPid pid).getD []).filterMap tb.getInnerByShmid
  | .exitInner _ _ rest => rest.filterMap tb.getInnerByShmid
  | _ => []

/-- **The condition on a step**: where a thread goes on from the manager to segments,
nobody has one of them, and where it locks a segment without the manager, the one
who has the manager does not ask for that segment. -/
def meetsNobody (cfg : Config) (w : World) : Step → Bool
  | .run t _ =>
    ((w.threads.pc t).segmentsAhead w.tables (cfg.process t)).all
        (fun i => w.isFree cfg (.inner i))
      && (w.threads.pc t).enters.all (fun i => !w.threads.any (fun p => p.awaits == some i))
  | _ => true

/-- Nobody has the segment that the holder of the manager asks for. -/
def World.Clear (cfg : Config) (w : World) : Prop :=
  ∀ t i, (w.threads.pc t).awaits = some i → ∀ u, .inner i ∉ (w.locking cfg).held u

/-- Segment, address space, manager. -/
def Lock.rank : Lock → Nat
  | .inner _ => 0
  | .space _ => 1
  | .manager => 2

section Order

variable {cfg : Config} {w : World}

/-- Whoever has an address space asks for the manager. -/
theorem request_of_space {p : Point} {s s' : Nat} (h : .space s ∈ p.held s') :
    p.request s' = some .manager := by
  cases p with
  | shmatManager i start => rfl
  | shmdtManager shmaddr shmid i => rfl
  | _ => exact absurd h (by simp [Point.held])

/-- Whoever has a segment asks for the address space or the manager. -/
theorem request_of_inner {p : Point} {i s : Nat} (h : .inner i ∈ p.held s) :
    p.request s = some (.space s) ∨ p.request s = some .manager := by
  cases p with
  | shmatSpace i | shmdtSpace shmaddr shmid i | shmctlSpace a i => exact .inl rfl
  | shmatManager i start | shmdtManager shmaddr shmid i => exact .inr rfl
  | _ => exact absurd h (by simp [Point.held])

/-- Whoever has the manager awaits a segment. -/
theorem request_of_manager {p : Point} {s : Nat} (h : .manager ∈ p.held s) :
    ∃ i, p.awaits = some i ∧ p.request s = some (.inner i) := by
  cases p with
  | shmgetInner a i | exitInner shmid i rest => exact ⟨i, rfl, rfl⟩
  | _ => exact absurd h (by simp [Point.held])

/-- **No deadlock while the segment awaited is free**: the other requests ascend. -/
theorem World.Clear.not_deadlocked (h : w.Clear cfg) (ts : Finset Nat) :
    ¬ (w.locking cfg).Deadlocked ts := by
  refine Locking.not_deadlocked_of_rank Lock.rank (fun t u l hreq hheld m hm => ?_) ts
  cases m with
  | manager =>
    obtain ⟨i, hi, hreq'⟩ := request_of_manager hm
    cases hreq'.symm.trans hreq
    exact absurd hheld (h t i hi u)
  | space s =>
    cases (request_of_space hm).symm.trans hreq
    exact Nat.lt_succ_self 1
  | inner i =>
    rcases request_of_inner hm with hup | hup
    · cases hup.symm.trans hreq
      exact Nat.zero_lt_one
    · cases hup.symm.trans hreq
      exact Nat.zero_lt_two

end Order

section Steps

variable {checks : Bool} {tb tb' : Tables} {pid i : Nat} {ans : Answers} {p p' : Point}

theorem mem_of_awaits_exitLoop : ∀ l : List Int, (exitLoop tb pid l).2.awaits = some i →
    i ∈ l.filterMap tb.getInnerByShmid := by
  intro l
  induction l with
  | nil => exact fun h => absurd h (by simp [exitLoop, Point.awaits])
  | cons shmid rest ih =>
    intro h
    cases hi : tb.getInnerByShmid shmid with
    | none =>
      rw [List.filterMap_cons_none hi]
      exact ih (by simpa only [exitLoop, hi] using h)
    | some j =>
      rw [List.filterMap_cons_some hi]
      simp only [exitLoop, hi, Point.awaits, Option.some.injEq] at h
      exact h ▸ .head _

/-- What is found after the detachment was there before. -/
theorem getInnerByShmid_of_removeIfUnused {shmid s : Int} {o : ShmInner} {j : Nat}
    (h : ((tb.setInner i o).removeIfUnused shmid o).getInnerByShmid s = some j) :
    tb.getInnerByShmid s = some j := by
  unfold Tables.removeIfUnused at h
  split at h
  · simp only [Tables.getInnerByShmid, Tables.removeShmid, OrdMap.lookup_alter] at h
    split at h
    · cases h
    · exact h
  · exact h

/-- A thread that comes to await a segment knew it from the tables. -/
theorem mem_of_awaits (h : advance checks tb pid ans p = some (tb', p'))
    (hawaits : p'.awaits = some i) : i ∈ p.segmentsAhead tb pid := by
  cases p with
  | exit =>
    simp only [advance] at h
    unfold Point.segmentsAhead
    split at h
    · cases h
      cases hawaits
    · next shmids hshmids =>
      rw [hshmids]
      have hloop : (exitLoop tb pid shmids).2.awaits = some i := by
        rw [Option.some.inj h]
        exact hawaits
      exact mem_of_awaits_exitLoop shmids hloop
  | exitInner shmid j rest =>
    obtain ⟨o, -, ho⟩ := Option.map_eq_some_iff.mp h
    have hloop : (exitLoop ((tb.setInner j o).removeIfUnused shmid o) pid rest).2.awaits
        = some i := by
      rw [ho]
      exact hawaits
    obtain ⟨s, hs, hi⟩ := List.mem_filterMap.mp (mem_of_awaits_exitLoop rest hloop)
    exact List.mem_filterMap.mpr ⟨s, hs, getInnerByShmid_of_removeIfUnused hi⟩
  | _ => grind [advance, shmget, shmatAttach, shmdtDetach, shmctlCommand, shmctlBuffer,
      Option.map_eq_some_iff, Point.awaits, Point.segmentsAhead]

/-- A thread that comes to hold a segment entered it without the manager. -/
theorem enters_of_held {s : Nat} (h : advance checks tb pid ans p = some (tb', p'))
    (hheld : .inner i ∈ p'.held s) : p.enters = some i ∨ .inner i ∈ p.held s := by
  cases hl : p.request s with
  | none =>
    cases p with
    | returned x =>
      cases h
      cases hheld
    | _ => cases hl
  | some l =>
    obtain ⟨-, hleads⟩ := advance_step hl h
    rcases hleads.held _ hheld with hreq | hold
    · cases p with
      | shmatInner j | shmdtInner shmaddr shmid j | shmctlInner a j =>
        cases hreq
        exact .inl rfl
      | exitInner shmid j rest =>
        -- the loop goes on or is over
        cases p' with
        | returned x | exit | exitInner shmid' j' rest' =>
          exact absurd hheld (by simp [Point.held])
        | _ => exact absurd (hleads.leaving rfl) (by simp [Point.outside, Point.exiting])
      | shmgetInner a j => grind [advance, Point.held]
      | _ => cases hreq
    · exact .inr hold

end Steps

/-- **A thread moves**: what it awaits is free, and what it takes nobody awaits. -/
theorem World.Clear.goto {cfg : Config} {w w' : World} {t : Nat} {p : Point} (h : w.Clear cfg)
    (hthreads : w'.threads = w.threads.goto t p)
    (hawaits : ∀ i, p.awaits = some i → ∀ u, .inner i ∉ (w.locking cfg).held u)
    (htakes : ∀ i, .inner i ∈ p.held (cfg.space (cfg.process t)) →
      .inner i ∈ (w.locking cfg).held t ∨ ∀ u, (w.threads.pc u).awaits ≠ some i) :
    w'.Clear cfg := by
  intro u i hu v hv
  simp only [World.locking, hthreads, Threads.pc_goto] at hu hv
  split at hu
  next hut =>
    split at hv
    · -- whoever awaits a segment has only the manager
      cases p with
      | shmgetInner a j | exitInner shmid j rest => exact absurd hv (by simp [Point.held])
      | _ => cases hu
    · exact hawaits i hu v hv
  · split at hv
    next hvt =>
      rw [hvt] at hv
      rcases htakes i hv with hold | hnone
      · exact h u i hu t hold
      · exact hnone u hu
    · exact h u i hu v hv

/-- **A step that meets nobody keeps the segment awaited free.** -/
theorem World.Clear.step {cfg : Config} {w w' : World} {i : Step} (h : w.Clear cfg)
    (hok : meetsNobody cfg w i = true) (hs : Shm.step cfg w i = some w') : w'.Clear cfg := by
  unfold Shm.step at hs
  split at hs
  · cases hs
  cases i with
  | drawId =>
    cases hs
    exact h
  | call t c =>
    simp only at hs
    split at hs
    · cases hs
    split at hs
    · cases hs
      exact h
    next p hstart =>
      cases hs
      refine h.goto rfl ?_ ?_
      · intro i hi
        cases c <;> grind [Call.start, Point.awaits]
      · intro i hi
        rw [(start_spec w.tables (cfg.process t) _ hstart).1] at hi
        cases hi
  | run t ans =>
    simp only at hs
    split at hs
    · cases hs
    split at hs
    · split at hs
      · cases hs
        exact h
      next tb p hadvance =>
        cases hs
        rw [meetsNobody, Bool.and_eq_true, List.all_eq_true] at hok
        refine h.goto rfl ?_ ?_
        · intro i hi
          exact not_held_of_isFree (hok.1 i (mem_of_awaits hadvance hi))
        · intro i hi
          refine (enters_of_held hadvance hi).symm.imp_right ?_
          intro henters u hu
          have hnone := hok.2
          rw [henters, Option.all_some, Bool.not_eq_true'] at hnone
          have hfalse := Threads.eq_false_of_any rfl hnone u
          rw [hu, beq_self_eq_true] at hfalse
          cases hfalse
    · cases hs

/-- **NO DEADLOCK WITHOUT AN ENCOUNTER.**  In every run in which no `shmget` and no exit
meets a segment that is locked while it holds the manager, no set of threads is
deadlocked. -/
theorem shm_locks_never_deadlock (cfg : Config) (w : World)
    (hw : Reach (step cfg) (fun w i => meetsNobody cfg w i = true) .initial w) (ts : Finset Nat) :
    ¬ (w.locking cfg).Deadlocked ts := by
  have hclear : w.Clear cfg := by
    refine hw.invariant (World.Clear cfg) ?_ (fun _ _ _ h => h.step)
    intro t i hawaits
    cases hawaits
  exact hclear.not_deadlocked ts

/-- Thread 1 has the manager and asks for the segment of a known key, and thread 0 asks
for the manager. -/
theorem shm_locks_never_deadlock_run : ∃ w, Reach (step (separate true))
      (fun w i => meetsNobody (separate true) w i = true) .initial w
    ∧ (∀ ts, ¬ (w.locking (separate true)).Deadlocked ts)
    ∧ (w.locking (separate true)).request 0 = some .manager
    ∧ (w.locking (separate true)).held 1 = [.manager]
    ∧ (w.locking (separate true)).request 1 = some (.inner 0) := by
  obtain ⟨w, hw, hc⟩ := exists_reach_guarded (step (separate true)) .initial
    (meetsNobody (separate true))
    ([.call 0 (.shmget ⟨5, 4096, 0o600⟩), .run 0 (granted 0)] ++ attachRun 0 0 (granted 4096)
      ++ [.call 0 .exit, .call 1 (.shmget ⟨5, 4096, 0o600⟩), .run 1 (granted 0)])
    (fun w => (w.locking (separate true)).request 0 = some .manager
      ∧ (w.locking (separate true)).held 1 = [.manager]
      ∧ (w.locking (separate true)).request 1 = some (.inner 0)) (by decide +kernel)
  exact ⟨w, hw, shm_locks_never_deadlock (separate true) w hw, hc⟩

/-- Thread 0 has the segment and waits for the manager, thread 1 the other way round. -/
def World.isCrossed (cfg : Config) (w : World) : Bool :=
  decide ((w.locking cfg).held 0 = [.inner 0, .space 0])
    && decide ((w.locking cfg).request 0 = some .manager)
    && decide ((w.locking cfg).held 1 = [.manager])
    && decide ((w.locking cfg).request 1 = some (.inner 0))

theorem deadlocked_of_isCrossed {cfg : Config} {w : World} (h : w.isCrossed cfg = true) :
    (w.locking cfg).Deadlocked {0, 1} := by
  simp only [World.isCrossed, Bool.and_eq_true, decide_eq_true_eq] at h
  obtain ⟨⟨⟨hheld, hreq⟩, hheld'⟩, hreq'⟩ := h
  exact Locking.deadlocked_pair hreq hreq' (by rw [hheld']; simp) (by rw [hheld]; simp)

/-- **A deadlock.**  Thread 0 has attached its way to the segment and its address space
and asks for the manager; thread 1 has it, in a `shmget` with the key of this
segment, and asks for the segment.  The same with the exit of a process that has
the segment, for another thread that attaches it. -/
theorem shm_locks_deadlock : (∃ w, Reach (step (separate true)) Always .initial w
      ∧ (w.locking (separate true)).Deadlocked {0, 1} ∧ w.exited = [])
    ∧ ∃ w, Reach (step (separate true)) Always .initial w
      ∧ (w.locking (separate true)).Deadlocked {0, 1} ∧ 1 ∈ w.exited := by
  refine ⟨?_, ?_⟩
  · obtain ⟨w, hw, hcrossed, hnone⟩ := exists_reach (step (separate true)) .initial
      [.call 0 (.shmget ⟨5, 4096, 0o600⟩), .run 0 (granted 0), .call 0 (.shmat 0),
        .run 0 (granted 0), .run 0 (granted 0), .run 0 (granted 4096),
        .call 1 (.shmget ⟨5, 4096, 0o600⟩), .run 1 (granted 0)]
      (fun w => w.isCrossed (separate true) ∧ w.exited = []) (by decide +kernel)
    exact ⟨w, hw, deadlocked_of_isCrossed hcrossed, hnone⟩
  · obtain ⟨w, hw, hcrossed, hexited⟩ := exists_reach (step (separate true)) .initial
      ([.call 0 getPrivate, .run 0 (granted 0)] ++ attachRun 1 0 (granted 4096)
        ++ [.call 0 (.shmat 0), .run 0 (granted 0), .run 0 (granted 0), .run 0 (granted 4096),
          .call 1 .exit, .run 1 (granted 0)])
      (fun w => w.isCrossed (separate true) ∧ 1 ∈ w.exited) (by decide +kernel)
    exact ⟨w, hw, deadlocked_of_isCrossed hcrossed, hexited⟩

end StarryOS.Ipc.Shm
