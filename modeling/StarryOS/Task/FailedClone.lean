/-
  StarryOS.Task.FailedClone — WHAT A FAILED `clone` LEAVES BEHIND.

  `failsOnlyEarly` reads the guards of `do_clone` off the call and the system:
  the call is refused before its first entry, or no guard after it fails.
  `failed_clone_leaves_no_trace` shows that this is EXACTLY the condition under
  which an error leaves the books as they were.

  The argument needs that the identifier of the new task is in use nowhere, as it
  is until the counter of tasks passes 2^32.
-/
import StarryOS.Task.Clone

namespace StarryOS.Task.Clone

open Lib Function

/-! ## §1. Traces. -/

def System.childrenOf (sys : System) (pid : Nat) : Option (List Nat) :=
  (sys.processes pid).map (·.children)

def System.threadsOf (sys : System) (pid : Nat) : Option (List Nat) :=
  (sys.processes pid).map (·.threads)

/-- The caller's children, the thread sets of all processes and all descriptor
tables are those of before. -/
def NoTrace (me : Caller) (sys sys' : System) : Prop :=
  sys'.childrenOf me.pid = sys.childrenOf me.pid
    ∧ (∀ pid, sys'.threadsOf pid = sys.threadsOf pid)
    ∧ sys'.fdTables = sys.fdTables

/-- The call gets as far as its first entry. -/
def registers (sys : System) (me : Caller) (a : CloneArgs) : Bool :=
  a.validate.isOk && a.exitSigno.isOk
    && (a.childFlags .thread || !a.childFlags .parent || (sys.parentOf me.pid).isSome)

/-- The address space can be cloned, if that is needed. -/
def spaceClones (env : CloneEnv) (a : CloneArgs) : Bool :=
  a.childFlags .thread || a.childFlags .vm || env.tryClone.isOk

/-- The pidfd gets a descriptor, and the pointer for it can be written, if that is
needed. -/
def pidfdFits (env : CloneEnv) (sys : System) (me : Caller) (a : CloneArgs) : Bool :=
  !(a.childFlags .pidfd && a.pidfd ≠ 0)
    || ((sys.freeSlot me.pid).isSome && env.writable a.pidfd)

/-- **Nothing fails once the child is entered.** -/
def failsOnlyEarly (env : CloneEnv) (sys : System) (me : Caller) (a : CloneArgs) : Bool :=
  !registers sys me a || (spaceClones env a && pidfdFits env sys me a)

/-- The identifier that is given out next is neither that of a process nor that of
one of its threads. -/
structure WellFormed (sys : System) : Prop where
  pids : sys.processes sys.nextTid = none
  tids : ∀ pid p, sys.processes pid = some p → sys.nextTid ∉ p.threads

/-! ## §2. What the steps do. -/

/-- Process tree, process data and descriptor tables are the same. -/
def SameBooks (sys sys' : System) : Prop :=
  sys'.processes = sys.processes ∧ sys'.data = sys.data ∧ sys'.fdTables = sys.fdTables

variable {env : CloneEnv} {me : Caller} {a : CloneArgs}

section Steps

variable {sys sys' : System} (exitSignal : Option Nat) (tid : Nat)

theorem SameBooks.parentOf (h : SameBooks sys sys') (pid : Nat) :
    sys'.parentOf pid = sys.parentOf pid := by
  unfold System.parentOf
  rw [h.1]

theorem freeSlot_congr (hdata : sys'.data = sys.data) (hfds : sys'.fdTables = sys.fdTables)
    (pid : Nat) : sys'.freeSlot pid = sys.freeSlot pid := by
  unfold System.freeSlot System.fdTableOf
  rw [hdata, hfds]

theorem pidfdFits_congr (hdata : sys'.data = sys.data) (hfds : sys'.fdTables = sys.fdTables) :
    pidfdFits env sys' me a = pidfdFits env sys me a := by
  unfold pidfdFits
  rw [freeSlot_congr hdata hfds]

theorem wp_ofExcept {α : Type} (x : AxResult α) {Q : α → System → Prop}
    {E : AxError → System → Prop} : wp (ofExcept x) sys Q E ↔ match x with
      | .ok b => Q b sys
      | .error e => E e sys := by
  cases x <;> exact Iff.rfl

theorem storeParentTid_spec :
    wp (storeParentTid env a tid) sys (fun _ sys' => SameBooks sys sys') NoError := by
  unfold storeParentTid
  split
  · exact ⟨rfl, rfl, rfl⟩
  · exact ⟨rfl, rfl, rfl⟩

theorem set_eq_self {α : Type} {l : List α} {i : Nat} {x : α} (h : l[i]? = some x) :
    l.set i x = l := by
  obtain ⟨hlt, rfl⟩ := getElem?_eq_some_iff.mp h
  exact List.set_getElem_self hlt

/-- A descriptor that is closed again was never there. -/
theorem setSlot_setSlot {pid fd : Nat} (hfree : sys.freeSlot pid = some fd)
    (x : Option FileDescriptor) : SameBooks sys ((sys.setSlot pid fd x).setSlot pid fd none) := by
  refine ⟨rfl, rfl, ?_⟩
  obtain ⟨i, hi⟩ : ∃ i, i = (sys.data pid).fdTable := ⟨_, rfl⟩
  obtain ⟨table, htable⟩ : ∃ t, t = sys.fdTableOf pid := ⟨_, rfl⟩
  -- the slot is an empty one of the table
  have hslot : table[fd]? = some none := by
    unfold System.freeSlot at hfree
    rw [← htable] at hfree
    split at hfree
    · cases hfree
    · obtain ⟨hlt, hnone, -⟩ := List.findIdx?_eq_some_iff_getElem.mp hfree
      rw [List.getElem?_eq_getElem hlt, Option.isNone_iff_eq_none.mp hnone]
  have hlookup : sys.fdTables[i]? = some table := by
    unfold System.fdTableOf at htable
    grind
  have hlt : i < sys.fdTables.length := (getElem?_eq_some_iff.mp hlookup).1
  have htable' : (sys.setSlot pid fd x).fdTableOf pid = table.set fd x := by
    unfold System.fdTableOf System.setSlot
    rw [← hi, ← htable, List.getElem?_set_self hlt]
    rfl
  show ((sys.fdTables.set (sys.data pid).fdTable ((sys.fdTableOf pid).set fd x)).set
    (sys.data pid).fdTable (((sys.setSlot pid fd x).fdTableOf pid).set fd none)) = sys.fdTables
  -- the second store overwrites the first, in the slot and in the list of tables
  rw [htable', List.set_set, List.set_set, ← hi, set_eq_self hslot, set_eq_self hlookup]

/-- `CLONE_PIDFD` succeeds where the pidfd fits. -/
theorem storePidfd_fits (f : FileLike) (hfits : pidfdFits env sys me a = true) :
    wp (storePidfd env me a f) sys (fun _ _ => True) NoError := by
  unfold storePidfd
  apply wp_ite
  · intro hneeded
    unfold pidfdFits at hfits
    rw [hneeded, Bool.not_true, Bool.false_or, Bool.and_eq_true, Option.isSome_iff_exists] at hfits
    grind [addFileLike, wp_bind, wp_get, wp_modify, wp_pure]
  · intro _
    trivial

/-- Where it does not fit, `CLONE_PIDFD` fails and leaves the books as they were. -/
theorem storePidfd_fails (f : FileLike) (hfits : pidfdFits env sys me a = false) :
    wp (storePidfd env me a f) sys (fun _ _ => False) (fun _ sys' => SameBooks sys sys') := by
  unfold pidfdFits at hfits
  rw [Bool.or_eq_false_iff, Bool.not_eq_false'] at hfits
  obtain ⟨hneeded, hfits⟩ := hfits
  unfold storePidfd addFileLike
  rw [if_pos hneeded]
  simp only [wp_bind, wp_get]
  cases hfree : sys.freeSlot me.pid with
  | none => exact ⟨rfl, rfl, rfl⟩
  | some fd =>
    rw [hfree, Option.isSome_some, Bool.true_and] at hfits
    simp only [wp_bind, wp_modify, wp_pure, hfits, Bool.false_eq_true, if_false]
    exact setSlot_setSlot hfree _

/-- `chooseParent` fails only for `CLONE_PARENT` without a parent. -/
theorem chooseParent_spec : wp (chooseParent me a) sys (fun _ sys' => sys' = sys)
      (fun _ sys' => sys' = sys ∧ a.childFlags .parent = true
        ∧ (sys.parentOf me.pid).isSome = false) := by
  apply wp_ite
  · intro hparent
    rw [wp_bind, wp_get]
    cases h : sys.parentOf me.pid with
    | some pid => rfl
    | none => exact ⟨rfl, hparent, rfl⟩
  · intro _
    rfl

theorem childSpace_spec : wp (childSpace env me a) sys
      (fun _ sys' => sys' = sys ∧ (a.childFlags .vm || env.tryClone.isOk))
      (fun _ sys' => sys' = sys ∧ (a.childFlags .vm || env.tryClone.isOk) = false) := by
  apply wp_ite
  · intro hvm
    rw [hvm]
    exact ⟨rfl, rfl⟩
  intro hvm
  rw [Bool.not_eq_true] at hvm
  rw [hvm]
  cases env.tryClone with
  | ok n | error e => exact ⟨rfl, rfl⟩

/-- **A new process is entered before its address space is cloned.** -/
theorem newProcess_spec : wp (newProcess env me a exitSignal tid) sys
      (fun _ sys' => (a.childFlags .vm || env.tryClone.isOk) = true
        ∧ ∃ parent, sys' = sys.fork parent tid)
      (fun _ sys' => (sys' = sys ∧ a.childFlags .parent = true
          ∧ (sys.parentOf me.pid).isSome = false)
        ∨ (a.childFlags .vm || env.tryClone.isOk) = false
          ∧ ∃ parent, sys' = sys.fork parent tid) := by
  unfold newProcess
  rw [wp_bind]
  refine wp_mono chooseParent_spec ?_ (fun _ _ => .inl)
  intro parent sys₁ hsame
  subst hsame
  rw [wp_bind, wp_modify, wp_bind]
  refine wp_mono childSpace_spec ?_ ?_
  · rintro aspace sys₂ ⟨rfl, hspace⟩
    exact ⟨hspace, parent, rfl⟩
  · rintro e sys₂ ⟨rfl, hspace⟩
    exact .inr ⟨hspace, parent, rfl⟩

/-- `CLONE_THREAD`, where the pidfd fits. -/
theorem cloneThread_fits (hfits : pidfdFits env sys me a = true) :
    wp (cloneThread env me a tid) sys (fun _ _ => True) NoError := by
  unfold cloneThread
  rw [wp_bind, wp_modify, wp_bind]
  exact wp_mono_ok (storePidfd_fits _ hfits) (fun _ _ _ => trivial)

/-- `CLONE_THREAD`, where it does not: the thread stays entered. -/
theorem cloneThread_fails (hfits : pidfdFits env sys me a = false) :
    wp (cloneThread env me a tid) sys (fun _ _ => False)
      (fun _ sys' => sys'.processes = (sys.addThread me.pid tid).processes) := by
  unfold cloneThread
  rw [wp_bind, wp_modify, wp_bind]
  exact wp_mono (storePidfd_fails _ hfits) (fun _ _ hf => absurd hf id) (fun _ _ hsame => hsame.1)

theorem cloneProcess_fits
    (hparent : a.childFlags .parent = true → (sys.parentOf me.pid).isSome = true)
    (hspace : (a.childFlags .vm || env.tryClone.isOk) = true)
    (hfits : pidfdFits env sys me a = true) :
    wp (cloneProcess env me a exitSignal tid) sys (fun _ _ => True) NoError := by
  unfold cloneProcess
  rw [wp_bind]
  refine wp_mono (newProcess_spec exitSignal tid) ?_ ?_
  · rintro new sys₁ ⟨-, parent, rfl⟩
    rw [wp_bind, wp_modify, wp_bind]
    exact wp_mono_ok (storePidfd_fits _ hfits) (fun _ _ _ => trivial)
  · grind

/-- `CLONE_PARENT` without a parent. -/
theorem cloneProcess_refused
    (hflag : a.childFlags .parent = true) (hnone : sys.parentOf me.pid = none) :
    wp (cloneProcess env me a exitSignal tid) sys (fun _ _ => False)
      (fun _ sys' => sys' = sys) := by
  unfold cloneProcess newProcess chooseParent
  simp only [wp_bind, hflag, if_true, wp_get, hnone, wp_throw]

/-- A new process, where something fails after it was entered: it stays entered. -/
theorem cloneProcess_fails
    (hparent : a.childFlags .parent = true → (sys.parentOf me.pid).isSome = true)
    (hlate : ((a.childFlags .vm || env.tryClone.isOk) && pidfdFits env sys me a) = false) :
    wp (cloneProcess env me a exitSignal tid) sys (fun _ _ => False)
      (fun _ sys' => ∃ parent, sys'.processes = (sys.fork parent tid).processes
        ∨ sys'.processes = ((sys.fork parent tid).addThread tid tid).processes) := by
  unfold cloneProcess
  rw [wp_bind]
  refine wp_mono (newProcess_spec exitSignal tid) ?_ ?_
  · rintro new sys₁ ⟨hspace, parent, rfl⟩
    rw [hspace] at hlate
    rw [wp_bind, wp_modify, wp_bind]
    exact wp_mono (storePidfd_fails _ hlate) (fun _ _ hf => absurd hf id)
      (fun _ _ hsame => ⟨parent, .inr hsame.1⟩)
  · grind

end Steps

/-! ## §3. Failed clones. -/

section Clones

variable {sys : System}

/-- Before the first entry only the counter of tasks and user memory change. -/
theorem wp_doClone {Q : Nat → System → Prop} {E : AxError → System → Prop}
    (hearly : ∀ e, (a.validate.isOk && a.exitSigno.isOk) = false → E e sys)
    (henter : ∀ exitSignal sys', a.validate.isOk = true → a.exitSigno = .ok exitSignal →
      SameBooks sys sys' →
      wp (if a.childFlags .thread then cloneThread env me a sys.nextTid
        else cloneProcess env me a exitSignal sys.nextTid) sys' Q E) :
    wp (doClone env me a) sys Q E := by
  unfold doClone
  cases hvalid : a.validate with
  | error e =>
    apply hearly
    rw [hvalid]
    rfl
  | ok u =>
    simp only [wp_bind, wp_ofExcept]
    cases hsigno : a.exitSigno with
    | error e =>
      apply hearly
      rw [hvalid, hsigno]
      rfl
    | ok exitSignal =>
      unfold newUserTask
      simp only [wp_modifyGet]
      refine wp_mono (storeParentTid_spec sys.nextTid) ?_ (fun _ _ hf => absurd hf id)
      intro _ sys₁ hsame
      exact henter exitSignal sys₁ (by rw [hvalid]; rfl) hsigno hsame

/-- A call that does not get to its first entry enters nothing. -/
theorem doClone_early (h : registers sys me a = false) :
    wp (doClone env me a) sys (fun _ _ => False) (fun _ sys' => NoTrace me sys sys') := by
  have hsame : ∀ sys', SameBooks sys sys' → NoTrace me sys sys' := by
    intro sys' hbooks
    unfold NoTrace System.childrenOf System.threadsOf
    rw [hbooks.1]
    exact ⟨rfl, fun _ => rfl, hbooks.2.2⟩
  refine wp_doClone (fun _ _ => hsame sys ⟨rfl, rfl, rfl⟩) ?_
  intro exitSignal sys' hvalid hsigno hbooks
  unfold registers at h
  rw [hvalid, hsigno] at h
  simp only [Except.isOk, Except.toBool, Bool.true_and, Bool.or_eq_false_iff,
    Bool.not_eq_false', Option.isSome_eq_false_iff, Option.isNone_iff_eq_none] at h
  -- what is left is `CLONE_PARENT` of a process that has no parent
  obtain ⟨⟨hthread, hparent⟩, hnone⟩ := h
  rw [hthread]
  refine wp_mono_err (cloneProcess_refused exitSignal sys.nextTid hparent
    ((hbooks.parentOf me.pid).trans hnone)) ?_
  intro e sys₁ heq
  rw [heq]
  exact hsame sys' hbooks

theorem parent_of_registers (h : registers sys me a = true) (hthread : a.childFlags .thread = false)
    (hflag : a.childFlags .parent = true) : (sys.parentOf me.pid).isSome = true := by
  unfold registers at h
  rw [Bool.and_eq_true, hthread, hflag] at h
  exact h.2

theorem doClone_returns (h : registers sys me a = true)
    (hlate : (spaceClones env a && pidfdFits env sys me a) = true) :
    wp (doClone env me a) sys (fun _ _ => True) NoError := by
  rw [Bool.and_eq_true] at hlate
  obtain ⟨hspace, hfits⟩ := hlate
  refine wp_doClone ?_ ?_
  · intro e hno
    unfold registers at h
    rw [hno] at h
    cases h
  intro exitSignal sys' _ _ hbooks
  have hfits' : pidfdFits env sys' me a = true :=
    (pidfdFits_congr hbooks.2.1 hbooks.2.2).trans hfits
  refine wp_exit (cloneThread_fits _ hfits') fun hthread => ?_
  rw [Bool.not_eq_true] at hthread
  unfold spaceClones at hspace
  rw [hthread] at hspace
  refine cloneProcess_fits exitSignal _ ?_ hspace hfits'
  intro hflag
  rw [hbooks.parentOf]
  exact parent_of_registers h hthread hflag

theorem processes_fork (sys : System) (parent tid : Nat) :
    (sys.fork parent tid).processes tid = some ⟨some parent, [], []⟩ := by
  unfold System.fork
  simp only [update_self]

theorem threadsOf_addThread (sys : System) (pid tid : Nat) (p : Process)
    (hp : sys.processes pid = some p) : (sys.addThread pid tid).threadsOf pid
      = some (if tid ∈ p.threads then p.threads else tid :: p.threads) := by
  unfold System.threadsOf System.addThread System.withProcess
  simp only [update_self]
  rw [hp]
  rfl

theorem threadsOf_eq {sys sys' : System} (h : sys'.processes = sys.processes) (pid : Nat) :
    sys'.threadsOf pid = sys.threadsOf pid := by
  unfold System.threadsOf
  rw [h]

/-- **A call that fails after its first entry leaves a trace**: a thread that does
not exist, or a process without one. -/
theorem doClone_late (hwf : WellFormed sys) {p : Process} (hp : sys.processes me.pid = some p)
    (h : registers sys me a = true)
    (hlate : (spaceClones env a && pidfdFits env sys me a) = false) :
    wp (doClone env me a) sys (fun _ _ => False)
      (fun _ sys' => ∃ pid, sys'.threadsOf pid ≠ sys.threadsOf pid) := by
  -- no process has the identifier that is given out
  have hnew : sys.threadsOf sys.nextTid = none := by
    unfold System.threadsOf
    rw [hwf.pids]
    rfl
  refine wp_doClone ?_ ?_
  · intro e hno
    unfold registers at h
    rw [hno] at h
    cases h
  intro exitSignal sys' _ _ hbooks
  have hfits' : pidfdFits env sys' me a = pidfdFits env sys me a :=
    pidfdFits_congr hbooks.2.1 hbooks.2.2
  apply wp_ite
  · intro hthread
    unfold spaceClones at hlate
    rw [hthread, Bool.true_or, Bool.true_or, ← hfits'] at hlate
    refine wp_mono_err (cloneThread_fails sys.nextTid hlate) ?_
    intro e sys₁ hprocs
    have hfresh : sys.nextTid ∉ p.threads := hwf.tids _ p hp
    refine ⟨me.pid, ?_⟩
    rw [threadsOf_eq hprocs, threadsOf_addThread sys' me.pid sys.nextTid p
      (by rw [hbooks.1]; exact hp)]
    unfold System.threadsOf
    grind
  · intro hthread
    rw [Bool.not_eq_true] at hthread
    unfold spaceClones at hlate
    rw [hthread, ← hfits'] at hlate
    refine wp_mono_err (cloneProcess_fails exitSignal sys.nextTid ?_ hlate) ?_
    · intro hflag
      rw [hbooks.parentOf]
      exact parent_of_registers h hthread hflag
    rintro e sys₁ ⟨parent, hprocs⟩
    refine ⟨sys.nextTid, ?_⟩
    rw [hnew]
    rcases hprocs with hprocs | hprocs
    · rw [threadsOf_eq hprocs, System.threadsOf, processes_fork]
      simp
    · rw [threadsOf_eq hprocs, threadsOf_addThread _ _ _ _ (processes_fork _ _ _)]
      simp

/-- **A FAILED `clone` LEAVES NO TRACE** exactly when it fails before its first
entry, if it fails. -/
theorem failed_clone_leaves_no_trace (hwf : WellFormed sys) (p : Process)
    (hp : sys.processes me.pid = some p) :
    (∀ e sys', doClone env me a sys = .error e sys' → NoTrace me sys sys')
      ↔ failsOnlyEarly env sys me a = true := by
  unfold failsOnlyEarly
  cases hreg : registers sys me a with
  | false =>
    refine ⟨fun _ => rfl, fun _ e sys' hrun => ?_⟩
    have hpost := wp_of_error hrun (@doClone_early env me a sys hreg)
    exact hpost
  | true =>
    cases hlate : spaceClones env a && pidfdFits env sys me a with
    | true =>
      refine ⟨fun _ => rfl, fun _ e sys' hrun => ?_⟩
      have hpost := wp_of_error hrun (@doClone_returns env me a sys hreg hlate)
      exact hpost.elim
    | false =>
      refine ⟨fun hall => ?_, fun hf => absurd hf (by simp)⟩
      obtain ⟨e, sys', hrun, pid, hne⟩ := exists_error_of_wp (doClone_late hwf hp hreg hlate)
      exact absurd ((hall e sys' hrun).2.1 pid) hne

end Clones

/-! ## §4. Clones that fail. -/

/-- One process, one thread, and one descriptor, which is all that the process is
allowed. -/
def initSystem : System where
  processes pid := if pid = 1 then some ⟨none, [], [1]⟩ else none
  data _ := ⟨[], [], 0, 0, none, 0o022, 0x40000000, 0, 0, 1⟩
  tasks tid := if tid = 1 then some ⟨1, [], 0, ⟨0, 0, 0, 0⟩, 0, 0⟩ else none
  fdTables := [[some ⟨.file 0, false⟩, none]]
  actionTables := [[]]
  fsContexts := [⟨0, 0⟩]
  stored := []
  nextTaskId := 2

def initTask : Caller := ⟨1, [], ⟨0, 0, 0, 0⟩⟩

theorem initSystem_wellFormed : WellFormed initSystem := by
  refine ⟨rfl, ?_⟩
  intro pid p hp
  by_cases hpid : pid = 1
  · subst hpid
    rw [← Option.some.inj hp]
    decide
  · cases ((if_neg hpid).symm.trans hp)

/-- The flags of a call, as a list. -/
def cloneArgs (flags : List CloneFlag) : CloneArgs :=
  ⟨fun f => decide (f ∈ flags), 0, 0, 0, 0, 0, 0x10000⟩

/-- The error of a call, and the children and threads of process 1 after it. -/
def outcome (env : CloneEnv) (a : CloneArgs) :
    Option (AxError × Option (List Nat) × Option (List Nat)) :=
  match doClone env initTask a initSystem with
  | .error e sys' => some (e, sys'.childrenOf 1, sys'.threadsOf 1)
  | .ok _ _ => none

theorem exists_of_outcome {env : CloneEnv} {a : CloneArgs} {e : AxError}
    {children threads : Option (List Nat)} (h : outcome env a = some (e, children, threads)) :
    ∃ sys', doClone env initTask a initSystem = .error e sys'
      ∧ sys'.childrenOf 1 = children ∧ sys'.threadsOf 1 = threads := by
  unfold outcome at h
  grind

/-- Process 1 has no parent: `CLONE_PARENT` is refused, and nothing was entered. -/
theorem orphan_clone_leaves_no_trace :
    ∃ sys', doClone ⟨.ok 1, fun _ => true⟩ initTask (cloneArgs [.parent]) initSystem
      = .error .invalidInput sys' ∧ NoTrace initTask initSystem sys' := by
  have hfails : outcome ⟨.ok 1, fun _ => true⟩ (cloneArgs [.parent])
      = some (.invalidInput, some [], some [1]) := by
    decide +kernel
  obtain ⟨sys', hrun, -⟩ := exists_of_outcome hfails
  refine ⟨sys', hrun, ?_⟩
  exact (failed_clone_leaves_no_trace initSystem_wellFormed ⟨none, [], [1]⟩ rfl).mpr
    (by decide +kernel) .invalidInput sys' hrun

/-- **A failed clone leaves its child behind.**  A fork whose address space cannot
be cloned: process 1 has child 2, which has no thread and never exits.  A thread
whose pidfd finds no descriptor: process 1 has thread 2, which does not run. -/
theorem failed_clone_leaves_its_child :
    (∃ sys', doClone ⟨.error .noMemory, fun _ => true⟩ initTask (cloneArgs []) initSystem
      = .error .noMemory sys' ∧ ¬ NoTrace initTask initSystem sys')
    ∧ ∃ sys', doClone ⟨.ok 1, fun _ => true⟩ initTask
        (cloneArgs [.vm, .sighand, .thread, .pidfd]) initSystem
      = .error .tooManyOpenFiles sys' ∧ ¬ NoTrace initTask initSystem sys' := by
  have hfork : outcome ⟨.error .noMemory, fun _ => true⟩ (cloneArgs [])
      = some (.noMemory, some [2], some [1]) := by
    decide +kernel
  have hthread : outcome ⟨.ok 1, fun _ => true⟩ (cloneArgs [.vm, .sighand, .thread, .pidfd])
      = some (.tooManyOpenFiles, some [], some [2, 1]) := by
    decide +kernel
  obtain ⟨sys₁, hrun₁, hchildren, -⟩ := exists_of_outcome hfork
  obtain ⟨sys₂, hrun₂, -, hthreads⟩ := exists_of_outcome hthread
  refine ⟨⟨sys₁, hrun₁, ?_⟩, ⟨sys₂, hrun₂, ?_⟩⟩
  · intro hsame
    exact absurd (hchildren.symm.trans hsame.1) (by decide)
  · intro hsame
    exact absurd (hthreads.symm.trans (hsame.2.1 1)) (by decide)

end StarryOS.Task.Clone
