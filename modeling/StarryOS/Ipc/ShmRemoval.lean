/-
  StarryOS.Ipc.ShmRemoval — REMOVED SEGMENTS.

  `IPC_RMID` only marks a segment.  The manager forgets it when the last process
  detaches it, so a segment that nobody has at the time of the mark stays for
  ever; and until the last process is gone `shmget` finds it under its key.

  When every segment that is marked is attached, and no `shmget` looks for its key
  before the last process is gone, removed segments disappear
  (`removed_segments_disappear`, `removed_segment_stays`).
-/
import StarryOS.Ipc.ShmRuns

namespace StarryOS.Ipc.Shm

open Lib Mm Tables

/-! ## §1. Marked segments in the tables. -/

/-- **A marked segment in the manager is in use.** -/
@[grind cases] structure Marks (tb : Tables) : Prop where
  attached : ∀ i < tb.inners.length, (tb.inner i).rmid = true →
    tb.shmidInner.lookup (tb.inner i).shmid = some i → 0 < (tb.inner i).attachCount
  /-- A key leads to a segment of the manager. -/
  keys : ∀ k s, tb.keyShmid.getByKey k = some s → ∃ i, tb.shmidInner.lookup s = some i

/-- `IPC_RMID` on segment `i`. -/
def Point.removes (i : Nat) : Point → Bool
  | .shmctlInner a j => j == i && a.cmd = IPC_RMID
  | _ => false

/-- The segment that a `shmget` has found under its key. -/
def Point.found : Point → Option Nat
  | .shmgetInner _ i => some i
  | _ => none

/-- Marked are only segments that are attached and that no `shmget` is about to return,
and no `shmget` looks for the key of a marked one. -/
def removesInUse (w : World) : Point → Bool
  | .shmctlInner a i => a.cmd ≠ IPC_RMID || decide (0 < (w.tables.inner i).attachCount)
      && !w.threads.any (fun p => p.found == some i)
  | .shmget a => ((if a.key ≠ IPC_PRIVATE then w.tables.getShmidByKey a.key.toInt else none).bind
      w.tables.getInnerByShmid).all (fun i => !(w.tables.inner i).rmid)
  | _ => true

section Tables

variable {tb : Tables} {pending : Nat → Int → Prop} {pid i : Nat} {ans : Answers} {o : ShmInner}

theorem marks_initial : Marks .initial where
  attached := fun i hi => absurd hi (Nat.not_lt_zero i)
  keys := fun _ _ h => absurd h (by simp [initial, BiMap.empty, BiMap.getByKey, OrdMap.empty])

theorem Marks.vaddr (h : Marks tb) (table : OrdMap Nat (BiMap Int Nat)) :
    Marks { tb with pidShmidVaddr := table } := ⟨h.attached, h.keys⟩

section

variable (h : Marks tb) (hi : i < tb.inners.length)
include h hi

theorem Marks.setInner (hshmid : o.shmid = (tb.inner i).shmid)
    (hattached : o.rmid = true → tb.shmidInner.lookup (tb.inner i).shmid = some i →
      0 < o.attachCount) : Marks (tb.setInner i o) := by
  refine ⟨?_, h.keys⟩
  intro j hj
  rw [length_setInner] at hj
  rw [inner_setInner hi]
  split
  next hji =>
    rw [hji, hshmid]
    exact hattached
  · exact h.attached j hj

theorem Marks.written (ds : ShmidDs) : Marks (tb.setInner i { tb.inner i with shmidDs := ds }) :=
  h.setInner hi rfl (h.attached i hi)

/-- **A process loses a segment**: the last one takes a marked segment with it. -/
theorem Marks.detach (hshmid : o.shmid = (tb.inner i).shmid) :
    Marks ((tb.setInner i o).removeIfUnused (tb.inner i).shmid o) := by
  refine ⟨?_, ?_⟩
  · intro j hj
    rw [inners_removeIfUnused, length_setInner] at hj
    rw [inner_removeIfUnused, lookup_removeIfUnused, inner_setInner hi]
    split
    · grind
    · intro hm hlookup
      split at hlookup
      · cases hlookup
      · exact h.attached j hj hm hlookup
  · intro k s hk
    rw [getByKey_removeIfUnused] at hk
    split at hk
    · cases hk
    next hne =>
      obtain ⟨j, hj⟩ := h.keys k s hk
      refine ⟨j, ?_⟩
      rw [lookup_removeIfUnused, if_neg]
      · exact hj
      · intro hgone
        exact hne ⟨hgone.1, by rw [← hgone.2]; exact hk⟩

end

theorem Marks.create (h : Marks tb) (hrmid : o.rmid = false)
    (hnew : ∀ o' ∈ tb.inners, o'.shmid ≠ o.shmid) (key : Int) (next : BitVec 32) :
    Marks { tb with
      keyShmid := tb.keyShmid.insert key o.shmid
      shmidInner := tb.shmidInner.alter o.shmid (fun _ => some tb.inners.length)
      inners := tb.inners ++ [o]
      nextIpcId := next } := by
  have hold : ∀ j, j < tb.inners.length → (tb.inners ++ [o]).getD j default = tb.inner j :=
    fun _ => getD_append_old
  have hlast : (tb.inners ++ [o]).getD tb.inners.length default = o := getD_append_new
  have hid : ∀ j, j < tb.inners.length → (tb.inner j).shmid ≠ o.shmid :=
    fun _ hj => hnew _ (inner_mem hj)
  -- a marked segment is an old one
  have hmarked : ∀ j, j < (tb.inners ++ [o]).length →
      ((tb.inners ++ [o]).getD j default).rmid = true → j < tb.inners.length := by grind
  refine ⟨?_, ?_⟩
  · grind [Tables.inner]
  · intro k s hk
    rw [BiMap.getByKey_insert] at hk
    grind

theorem Marks.exitLoop (h : Marks tb) : ∀ l : List Int, Marks (exitLoop tb pid l).1 := by
  intro l
  induction l with
  | nil => exact h.vaddr _
  | cons shmid rest ih =>
    simp only [Shm.exitLoop]
    split
    · exact ih
    · exact h

theorem attachCount_of_attachProcess {o o' : ShmInner} {checks : Bool} {r : Nat × Nat} {now : Nat}
    (h : o.attachProcess checks pid r now = some o') : 0 < o'.attachCount := by
  unfold ShmInner.attachProcess at h
  split at h
  · cases h
  next hno =>
    split at h
    · cases h
    cases h
    have hlength := o.vaRange.length_alter pid (fun _ => some r)
    have hnone : (o.vaRange.lookup pid).isSome = false := by simpa [ShmInner.getAddrRange] using hno
    rw [hnone] at hlength
    simp only [Option.isSome_some, Bool.toNat_false, Bool.toNat_true] at hlength
    show 0 < (o.vaRange.alter pid (fun _ => some r)).entries.length
    omega

/-- **Every step keeps marked segments in use or takes them out.** -/
theorem Marks.advance (h : Marks tb) (hbook : Book tb pending) {checks : Bool} {p : Point}
    (hp : PointOk tb pid p) (hok : orderlyAt tb pid ans p = true)
    (huse : ∀ i, p.removes i = true → 0 < (tb.inner i).attachCount) {r : Tables × Point}
    (heq : Shm.advance checks tb pid ans p = some r) : Marks r.1 := by
  have hsame : ∀ x : Point, some (tb, x) = some r → Marks r.1 := by
    intro x hx
    cases hx
    exact h
  cases p with
  | returned x | shmatInner i => exact hsame _ heq
  | shmget a =>
    cases heq
    unfold Shm.shmget
    split
    · split
      · exact h
      · exact h
    next hkey =>
      exact h.create (o := .new a.key tb.nextIpcId.toInt a.size a.mappingFlags pid) rfl
        (fresh_of_orderly hok hkey) _ _
  | shmgetInner a i =>
    simp only [Shm.advance] at heq
    unfold ShmInner.tryUpdate at heq
    split at heq
    · exact hsame _ heq
    next o ho =>
      split at ho
      · cases ho
      · obtain rfl := Except.ok.inj ho
        cases heq
        exact h.written hp _
  | shmat shmid =>
    obtain ⟨i, -, hx⟩ := Option.map_eq_some_iff.mp heq
    exact hsame _ (congrArg some hx)
  | shmatSpace i => grind [Shm.advance]
  | shmatManager i start =>
    have hi := hp.1
    have hinserted : Marks (tb.insertShmidVaddr pid (tb.inner i).shmid start) := h.vaddr _
    simp only [Shm.advance, shmatAttach] at heq
    split at heq
    · cases heq
      exact hinserted
    · cases heq
      exact hinserted
    obtain ⟨o, ho, rfl⟩ := Option.map_eq_some_iff.mp heq
    exact hinserted.setInner hi (of_attachProcess ho).1
      (fun _ _ => attachCount_of_attachProcess ho)
  | shmdt shmaddr | shmdtShmid shmaddr shmid | shmdtInner shmaddr shmid i
  | shmdtSpace shmaddr shmid i | shmctl a => grind [Shm.advance]
  | shmdtManager shmaddr shmid i =>
    obtain ⟨hi, rfl, -⟩ := hp
    obtain ⟨o, ho, rfl⟩ := Option.map_eq_some_iff.mp heq
    exact (h.vaddr (tb.removeShmaddr pid shmaddr).pidShmidVaddr).detach hi (of_detachProcess ho).1
  | shmctlInner a i =>
    cases heq
    unfold shmctlCommand
    split
    · split
      · exact h
      · exact h
    split
    · split
      · exact h.written hp _
      · exact h
      · exact h
    split
    next hcmd =>
      exact h.setInner hp rfl (fun _ _ => huse i (by simp [Point.removes, hcmd]))
    · exact h
  | shmctlSpace a i =>
    cases heq
    unfold shmctlBuffer
    split
    · exact h
    · exact h.written hp _
  | exit =>
    simp only [Shm.advance] at heq
    split at heq
    · cases heq
      exact h.vaddr _
    · cases heq
      exact h.exitLoop _
  | exitInner shmid i rest =>
    obtain ⟨hi, rfl⟩ := hbook.named shmid i hp.1
    obtain ⟨o, ho, rfl⟩ := Option.map_eq_some_iff.mp heq
    exact (h.detach hi (of_detachProcess ho).1).exitLoop rest

theorem inner_exitLoop : ∀ l : List Int, (exitLoop tb pid l).1.inner i = tb.inner i := by
  intro l
  induction l with
  | nil => rfl
  | cons shmid rest ih =>
    simp only [exitLoop]
    split
    · exact ih
    · rfl

/-- **Only `IPC_RMID` marks a segment**, and nothing takes a mark away. -/
theorem rmid_advance {checks : Bool} {p : Point} {r : Tables × Point} (hi : i < tb.inners.length)
    (heq : Shm.advance checks tb pid ans p = some r) :
    (r.1.inner i).rmid = ((tb.inner i).rmid || p.removes i) := by
  -- a segment that is put back is the only one that changes
  have hset : ∀ (tb' : Tables) j o, tb'.inners = tb.inners →
      (tb'.setInner j o).inner i = if i = j then o else tb.inner i := by
    intro tb' j o hinners
    unfold Tables.setInner Tables.inner
    grind
  have hsame : ∀ (tb' : Tables) j o, tb'.inners = tb.inners → o.rmid = (tb.inner j).rmid →
      ((tb'.setInner j o).inner i).rmid = ((tb.inner i).rmid || false) := by
    intro tb' j o hinners ho
    rw [hset tb' j o hinners]
    grind
  cases p with
  | shmget a =>
    cases heq
    unfold shmget
    split
    · grind [Point.removes]
    · exact (congrArg ShmInner.rmid (getD_append_old hi)).trans (Bool.or_false _).symm
  | shmgetInner a j => grind [Shm.advance, ShmInner.tryUpdate, Point.removes]
  | shmatManager j start =>
    simp only [Shm.advance, shmatAttach] at heq
    split at heq
    · cases heq
      exact (Bool.or_false _).symm
    · cases heq
      exact (Bool.or_false _).symm
    · obtain ⟨o, ho, rfl⟩ := Option.map_eq_some_iff.mp heq
      exact hsame _ j o rfl (of_attachProcess ho).2
  | shmdtManager shmaddr shmid j =>
    obtain ⟨o, ho, rfl⟩ := Option.map_eq_some_iff.mp heq
    rw [inner_removeIfUnused]
    exact hsame _ j o rfl (of_detachProcess ho).2
  | shmctlInner a j =>
    cases heq
    have hcmds : IPC_SET ≠ IPC_RMID ∧ IPC_STAT ≠ IPC_RMID := by decide
    simp only [Point.removes]
    unfold shmctlCommand
    split
    · grind
    split
    · grind
    · grind
  | shmctlSpace a j => grind [Shm.advance, shmctlBuffer, Point.removes]
  | exit =>
    simp only [Shm.advance] at heq
    split at heq
    · cases heq
      exact (Bool.or_false _).symm
    · cases heq
      rw [inner_exitLoop]
      exact (Bool.or_false _).symm
  | exitInner shmid j rest =>
    obtain ⟨o, ho, rfl⟩ := Option.map_eq_some_iff.mp heq
    rw [inner_exitLoop, inner_removeIfUnused]
    exact hsame _ j o rfl (of_detachProcess ho).2
  | _ => grind [Shm.advance, Point.removes, Option.map_eq_some_iff]

end Tables

/-! ## §2. Whole runs. -/

/-- An orderly step that marks only segments in use. -/
def removesOrderly (cfg : Config) (w : World) (i : Step) : Bool :=
  orderly cfg w i && (match i with
    | .run t _ => removesInUse w (w.threads.pc t)
    | _ => true)

section Runs

variable {cfg : Config} {w w' : World}

/-- A `shmget` goes on to a segment only by its key. -/
theorem shmget_found {tb : Tables} {pid i : Nat} {a b : GetArgs}
    (h : (shmget tb pid a).2 = .shmgetInner b i) : (shmget tb pid a).1 = tb
      ∧ a.key ≠ IPC_PRIVATE ∧ ∃ shmid, tb.getShmidByKey a.key.toInt = some shmid
        ∧ tb.getInnerByShmid shmid = some i := by
  unfold shmget at h ⊢
  split
  · grind
  next hkey =>
    simp only [hkey] at h
    cases h

/-- A `shmget` finds no marked segment. -/
theorem rmid_of_found {pid i : Nat} {ans : Answers} {checks : Bool} {p : Point}
    {r : Tables × Point} {l : Lock} {space : Nat} (hl : p.request space = some l)
    (huse : removesInUse w p = true) (heq : advance checks w.tables pid ans p = some r)
    (hfound : r.2.found = some i) : (r.1.inner i).rmid = false := by
  obtain ⟨-, hleads⟩ := advance_step hl heq
  cases hr : r.2 with
  | shmgetInner a j =>
    rw [hr] at hfound
    cases hfound
    obtain rfl := hleads.found a i hr
    cases heq
    obtain ⟨htables, hprivate, shmid, hkey, hi⟩ := shmget_found hr
    rw [htables]
    simpa [removesInUse, hprivate, hkey, hi] using huse
  | _ =>
    rw [hr] at hfound
    cases hfound

theorem lt_of_found {tb : Tables} {pid i : Nat} {p : Point} (hp : PointOk tb pid p)
    (hfound : p.found = some i) : i < tb.inners.length := by
  cases p with
  | shmgetInner a j =>
    cases hfound
    exact hp
  | _ => cases hfound

/-- A segment that is marked is attached, and no `shmget` has found it. -/
theorem inUse_of_removes {p : Point} {i : Nat} (huse : removesInUse w p = true)
    (hi : p.removes i = true) :
    0 < (w.tables.inner i).attachCount ∧ ∀ u, (w.threads.pc u).found ≠ some i := by
  cases p with
  | shmctlInner a j =>
    simp only [Point.removes, Bool.and_eq_true, beq_iff_eq, decide_eq_true_eq] at hi
    obtain ⟨rfl, hcmd⟩ := hi
    simp only [removesInUse, hcmd, ne_eq, not_true_eq_false, decide_false, Bool.false_or,
      Bool.and_eq_true, decide_eq_true_eq, Bool.not_eq_true'] at huse
    exact ⟨huse.1, fun u => beq_eq_false_iff_ne.mp (Threads.eq_false_of_any rfl huse.2 u)⟩
  | _ => cases hi

/-- The invariant with removals. -/
structure Removable (cfg : Config) (w : World) : Prop extends Consistent cfg w where
  marks : Marks w.tables
  found : ∀ t i, (w.threads.pc t).found = some i → (w.tables.inner i).rmid = false

theorem removable_step (h : Removable cfg w) (i : Step) (hok : removesOrderly cfg w i = true)
    (hstep : step cfg w i = some w') : Removable cfg w' := by
  unfold removesOrderly at hok
  rw [Bool.and_eq_true] at hok
  have hconsistent := consistent_step h.toConsistent i hok.1 hstep
  have hrun := h.running
  cases i with
  | drawId =>
    simp only [step, hrun, Bool.false_eq_true, if_false, Option.some.injEq] at hstep
    subst hstep
    exact ⟨hconsistent, ⟨h.marks.attached, h.marks.keys⟩, h.found⟩
  | call t c =>
    simp only [step, hrun, Bool.false_eq_true, if_false] at hstep
    split at hstep
    · cases hstep
    split at hstep
    · cases hstep
      exact ⟨hconsistent, h.marks, h.found⟩
    next p hstart =>
      cases hstep
      refine ⟨hconsistent, h.marks, ?_⟩
      intro u
      simp only [Threads.pc_goto]
      split
      · -- a call begins without the manager
        have hheld := (start_spec w.tables (cfg.process t) 0 hstart).1
        cases p with
        | shmgetInner a i => cases hheld
        | _ => exact fun _ hi => absurd hi (by simp [Point.found])
      · exact h.found u
  | run t ans =>
    simp only [step, hrun, Bool.false_eq_true, if_false] at hstep
    split at hstep
    · cases hstep
    rename_i l hl
    split at hstep
    next hguard =>
      rw [Bool.and_eq_true] at hguard
      obtain ⟨tb, p, heq, -, -⟩ := h.advance hl hguard.1 hguard.2 hok.1
      simp only [heq, Option.some.injEq] at hstep
      subst hstep
      refine ⟨hconsistent, h.marks.advance h.book (h.points t) hok.1 ?_ heq, ?_⟩
      · exact fun i hi => (inUse_of_removes hok.2 hi).1
      intro u i hu
      simp only [Threads.pc_goto] at hu
      split at hu
      · exact rmid_of_found hl hok.2 heq hu
      · have hkept : (w.threads.pc t).removes i = false := by
          by_contra hi
          exact (inUse_of_removes hok.2 (Bool.not_eq_false _ ▸ hi)).2 u hu
        rw [rmid_advance (lt_of_found (h.points u) hu) heq, h.found u i hu, hkept]
        rfl
    · cases hstep

theorem removable_of_reach
    (hw : Reach (step cfg) (fun w i => removesOrderly cfg w i = true) .initial w) :
    Removable cfg w := by
  refine hw.invariant (Removable cfg) ⟨consistent_initial, marks_initial, ?_⟩
    (fun _ i _ h => removable_step h i)
  intro t i hi
  cases hi

theorem marked_step {j : Step} (hstep : step cfg w j = some w') {i : Nat}
    (hi : i < w.tables.inners.length) (hm : (w.tables.inner i).rmid = true) :
    (w'.tables.inner i).rmid = true := by
  unfold step at hstep
  split at hstep
  · cases hstep
  split at hstep
  · cases hstep
    exact hm
  · grind
  split at hstep
  · cases hstep
  next l hl =>
    split at hstep
    · split at hstep
      · cases hstep
        exact hm
      next tb p heq =>
        cases hstep
        show (tb.inner i).rmid = true
        rw [rmid_advance hi heq, hm, Bool.true_or]
    · cases hstep

end Runs

/-! ## §3. What becomes of a removed segment. -/

/-- Segment `i` is in none of the tables of the manager. -/
structure Forgotten (tb : Tables) (i : Nat) : Prop where
  shmidInner : ∀ s, tb.shmidInner.lookup s ≠ some i
  keyShmid : ∀ k, tb.keyShmid.getByKey k ≠ some (tb.inner i).shmid
  pidShmidVaddr : ∀ pid, tb.recorded pid (tb.inner i).shmid = none

/-- **REMOVED SEGMENTS DISAPPEAR.**  In every run of orderly steps that marks only
segments in use, and looks for no key of a marked one: a marked segment without a process is
in none of the tables, whenever no process is in the middle of its exit; a mark stays; and no
`shmget` is about to return a marked segment. -/
theorem removed_segments_disappear (cfg : Config) (w : World)
    (hw : Reach (step cfg) (fun w i => removesOrderly cfg w i = true) .initial w) :
    (∀ i < w.tables.inners.length, (w.tables.inner i).rmid = true →
      (w.tables.inner i).attachCount = 0 → (∀ pid, w.settled cfg pid) → Forgotten w.tables i)
    ∧ (∀ j w', step cfg w j = some w' → ∀ i < w.tables.inners.length,
      (w.tables.inner i).rmid = true → (w'.tables.inner i).rmid = true)
    ∧ ∀ t a i, w.threads.pc t = .shmgetInner a i → (w.tables.inner i).rmid = false := by
  have h := removable_of_reach hw
  refine ⟨?_, ?_, ?_⟩
  · intro i hi hm hzero hsettled
    have hgone : w.tables.shmidInner.lookup (w.tables.inner i).shmid ≠ some i := by
      intro hlookup
      have hpos := h.marks.attached i hi hm hlookup
      omega
    -- the identifier is nobody else's
    have hnone : w.tables.shmidInner.lookup (w.tables.inner i).shmid = none := by
      cases hl : w.tables.shmidInner.lookup (w.tables.inner i).shmid with
      | none => rfl
      | some j =>
        obtain ⟨hj, hs⟩ := h.book.named _ j hl
        rw [h.book.distinct j i hj hi hs] at hl
        exact absurd hl hgone
    refine ⟨?_, ?_, ?_⟩
    · intro s hs
      obtain ⟨-, rfl⟩ := h.book.named s i hs
      exact hgone hs
    · intro k hk
      obtain ⟨j, hj⟩ := h.marks.keys k _ hk
      rw [hnone] at hj
      cases hj
    · intro pid
      cases hrec : w.tables.recorded pid (w.tables.inner i).shmid with
      | none => rfl
      | some a =>
        have hpending : w.pending cfg pid (w.tables.inner i).shmid := by
          intro t l hl hpid
          rw [hsettled pid t hpid.symm] at hl
          cases hl
        obtain ⟨j, -, hj, -⟩ := (h.book.linked pid _ a).mpr ⟨hrec, hpending⟩
        rw [hnone] at hj
        cases hj
  · intro j w' hstep i hi hm
    exact marked_step hstep hi hm
  · intro t a i hp
    exact h.found t i (by rw [hp]; rfl)

/-- `shmget` with key 5. -/
def getKey5 (t : Nat) : List Step :=
  [.call t (.shmget ⟨5, 4096, 0o600⟩), .run t (granted 0)]

/-- Thread `t` removes the segment with identifier 0. -/
def removeRun (t : Nat) : List Step :=
  [.call t (.shmctl ⟨0, IPC_RMID, .null⟩), .run t (granted 0), .run t (granted 0)]

/-- A segment with a key is marked while it is attached, and is gone once it is detached:
the key gives a new one. -/
theorem removed_segments_disappear_run : ∃ w, Reach (step (separate true))
      (fun w i => removesOrderly (separate true) w i = true) .initial w
    ∧ ((∀ i < w.tables.inners.length, (w.tables.inner i).rmid = true →
        (w.tables.inner i).attachCount = 0 → (∀ pid, w.settled (separate true) pid) →
          Forgotten w.tables i)
      ∧ (∀ j w', step (separate true) w j = some w' → ∀ i < w.tables.inners.length,
        (w.tables.inner i).rmid = true → (w'.tables.inner i).rmid = true)
      ∧ ∀ t a i, w.threads.pc t = .shmgetInner a i → (w.tables.inner i).rmid = false)
    ∧ w.tables.inners.length = 2 ∧ (w.tables.inner 0).rmid = true
    ∧ (w.tables.inner 0).attachCount = 0 := by
  obtain ⟨w, hw, hc⟩ := exists_reach_guarded (step (separate true)) .initial
    (removesOrderly (separate true))
    (getKey5 0 ++ attachRun 0 0 (granted 4096) ++ removeRun 0 ++ detachRun 0 4096 ++ getKey5 1)
    (fun w => w.tables.inners.length = 2 ∧ (w.tables.inner 0).rmid
      ∧ (w.tables.inner 0).attachCount = 0) (by decide +kernel)
  exact ⟨w, hw, removed_segments_disappear (separate true) w hw, hc.1, hc.2.1, hc.2.2⟩

/-- The last call of process 1 returned `n`. -/
def returns (w : World) (n : Int) : Bool :=
  match w.threads.pc 1 with
  | .returned (.ok m) => m = n
  | _ => false

/-- **A removed segment stays.**  Nobody has attached it, and yet the manager keeps it
after `IPC_RMID`, and `shmget` returns it under its key.  A segment that is attached
is returned as well. -/
theorem removed_segment_stays :
    (∃ w, Reach (step (separate true)) Always .initial w ∧ (w.tables.inner 0).rmid = true
      ∧ (w.tables.inner 0).attachCount = 0 ∧ w.tables.inners.length = 1
      ∧ w.tables.getInnerByShmid 0 = some 0
      ∧ ∃ n, w.threads.pc 1 = .returned (.ok n) ∧ n = (w.tables.inner 0).shmid)
    ∧ ∃ w, Reach (step (separate true)) Always .initial w ∧ (w.tables.inner 0).rmid = true
      ∧ (w.tables.inner 0).attachCount = 1 ∧ w.tables.inners.length = 1
      ∧ ∃ n, w.threads.pc 1 = .returned (.ok n) ∧ n = (w.tables.inner 0).shmid := by
  have hreturned : ∀ (w : World) (n : Int), returns w n = true →
      ∃ m, w.threads.pc 1 = .returned (.ok m) ∧ m = n := by
    intro w n hret
    unfold returns at hret
    split at hret
    next m hpc => exact ⟨m, hpc, of_decide_eq_true hret⟩
    · cases hret
  refine ⟨?_, ?_⟩
  · obtain ⟨w, hw, hrmid, hcount, hone, hfound, hret⟩ :=
      exists_reach (step (separate true)) .initial
      (getKey5 0 ++ removeRun 0 ++ getKey5 1 ++ [.run 1 (granted 0)])
      (fun w => (w.tables.inner 0).rmid ∧ (w.tables.inner 0).attachCount = 0
        ∧ w.tables.inners.length = 1 ∧ w.tables.getInnerByShmid 0 = some 0
        ∧ returns w (w.tables.inner 0).shmid) (by decide +kernel)
    exact ⟨w, hw, hrmid, hcount, hone, hfound, hreturned w _ hret⟩
  · obtain ⟨w, hw, hrmid, hcount, hone, hret⟩ :=
      exists_reach (step (separate true)) .initial
      (getKey5 0 ++ attachRun 0 0 (granted 4096) ++ removeRun 0 ++ getKey5 1
        ++ [.run 1 (granted 0)])
      (fun w => (w.tables.inner 0).rmid ∧ (w.tables.inner 0).attachCount = 1
        ∧ w.tables.inners.length = 1 ∧ returns w (w.tables.inner 0).shmid) (by decide +kernel)
    exact ⟨w, hw, hrmid, hcount, hone, hreturned w _ hret⟩

end StarryOS.Ipc.Shm
