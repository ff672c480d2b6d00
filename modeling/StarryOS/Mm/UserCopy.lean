/-
  StarryOS.Mm.UserCopy — COPIES TO AND FROM USER MEMORY under the page-cache lock
  (`CachedFile::with_pages`, `kernel/src/mm/access.rs`,
  `AddrSpace::handle_page_fault`, `FileBackend::populate`).

  `read()` and `write()` copy between a cached page and the user buffer while
  they hold the `page_cache` mutex of the file.  A user page that is not there
  traps; the handler takes the mutex of the ADDRESS SPACE and, for a mapping of
  a file, the `page_cache` mutex of THAT file (`locks_are_ordered`,
  `copy_fault_breaks_the_order`).

  The model keeps what decides which mutex is asked for: the area and the
  page-table entry of every user page.  Evict listeners lock address spaces with
  `try_lock`, which waits for nobody, and are not steps of their own.
-/
import StarryOS.Lib.LockOrder
import StarryOS.Lib.Threads
import StarryOS.Lib.Transition
import StarryOS.Mm.Paging

namespace StarryOS.Mm.UserCopy

open Lib Function

/-! ## §1. Pages and `populate`. -/

/-- The two locks. -/
inductive Mutex where
  | aspace (p : Nat)
  | pageCache (f : Nat)
  deriving Repr, DecidableEq

/-- The backends, as far as they differ in the mutexes they take.  The frame of a
private file mapping is read with `read_at`, which visits `rounds` pages of the
file. -/
inductive Backend where
  | anonymous
  | privateFile (f rounds : Nat)
  | sharedFile (f : Nat)
  deriving Repr, DecidableEq

structure Area where
  flags : MappingFlags
  backend : Backend
  deriving Repr, DecidableEq

/-- `BackendOps::populate` of one page with entry `pte`: the page caches that it
locks one after the other, and the new entry if the fault is handled. -/
def populate (inMemory : Nat → Bool) (area : Area) (pte : Option MappingFlags)
    (access : MappingFlags) : List Nat × Option MappingFlags :=
  match pte with
  | some flags =>
    if access.write && !flags.write then
      match area.backend with
      | .sharedFile f => ([f], some area.flags)
      | _ => ([], some area.flags)
    else
      ([], if flags.contains access then some flags else none)
  | none =>
    match area.backend with
    | .sharedFile f => ([f], some (if inMemory f then area.flags else area.flags.withoutWrite))
    | .privateFile f rounds => (List.replicate rounds f, some area.flags)
    | .anonymous => ([], some area.flags)

/-! ## §2. The system. -/

/-- A `read()` or `write()`: the user pages that each round of `with_pages` still
to come will touch, and how. -/
structure Copy where
  file : Nat
  access : MappingFlags
  rounds : List (List Nat)

/-- Where a thread is.  A trap remembers the copy it interrupted. -/
inductive Code where
  | user
  /-- Before `page_cache.lock()` of the next round, or at the end. -/
  | nextRound (io : Copy)
  /-- Inside the round, with these user pages to copy. -/
  | copying (io : Copy) (touch : List Nat)
  /-- Before `aspace.lock()`. -/
  | trapped (resume : Option (Copy × List Nat)) (v : Nat) (access : MappingFlags)
  /-- In `AddrSpace::handle_page_fault`. -/
  | handling (resume : Option (Copy × List Nat)) (v : Nat) (access : MappingFlags)
  /-- In `populate`, before the next `page_cache.lock()` or at the end. -/
  | populating (resume : Option (Copy × List Nat)) (v : Nat) (caches : List Nat)
      (pte : Option MappingFlags)
  /-- In `populate`, with the `page_cache` of `f`. -/
  | inCache (resume : Option (Copy × List Nat)) (v f : Nat) (caches : List Nat)
      (pte : Option MappingFlags)
  | handled (resume : Option (Copy × List Nat)) (ok : Bool)

/-- A task of the kernel. -/
structure Task where
  code : Code
  held : List Mutex

instance : Inhabited Task := ⟨⟨.user, []⟩⟩

/-- The mutex that a thread of process `p` asks for next. -/
def Code.request (p : Nat) : Code → Option Mutex
  | .nextRound ⟨f, _, _ :: _⟩ => some (.pageCache f)
  | .trapped _ _ _ => some (.aspace p)
  | .populating _ _ (f :: _) _ => some (.pageCache f)
  | _ => none

/-- Where it is once it has the mutex. -/
def Code.acquired : Code → Code
  | .nextRound ⟨f, access, touch :: rounds⟩ => .copying ⟨f, access, rounds⟩ touch
  | .trapped resume v access => .handling resume v access
  | .populating resume v (f :: caches) pte => .inCache resume v f caches pte
  | code => code

/-- The kernel: which process a thread belongs to, which files are in memory, the
areas and page-table entries of every process, the threads, and every pair
(held, asked for) that occurred. -/
structure Kernel where
  proc : Nat → Nat
  inMemory : Nat → Bool
  areas : Nat × Nat → Option Area
  ptes : Nat × Nat → Option MappingFlags
  tasks : Threads Task
  order : List (Mutex × Mutex)

variable (w : Kernel)

/-- Thread `t` goes on at `task` and, if it asks for a mutex there, asks for it. -/
def Kernel.move (t : Nat) (task : Task) : Kernel :=
  { w with
    tasks := w.tasks.goto t task
    order := w.order ++ match task.code.request (w.proc t) with
      | some l => task.held.map (·, l)
      | none => [] }

/-- After the trap: back into the copy, or out of it with an error, which leaves
the loop of `with_pages`. -/
def resumeAt : Option (Copy × List Nat) → Bool → Code
  | none, _ => .user
  | some (io, touch), true => .copying io touch
  | some (io, _), false => .copying { io with rounds := [] } []

/-- A step of thread `t` that takes no mutex. -/
def Kernel.proceed (t : Nat) : Option Kernel :=
  let p := w.proc t
  let held := (w.tasks.pc t).held
  match (w.tasks.pc t).code with
  | .nextRound _ => some (w.move t ⟨.user, held⟩)
  | .copying io [] => some (w.move t ⟨.nextRound io, held.erase (.pageCache io.file)⟩)
  | .copying io (v :: touch) =>
    if (w.ptes (p, v)).any (fun flags => flags.contains io.access) then
      some (w.move t ⟨.copying io touch, held⟩)
    else
      -- `user_copy` traps, and will be tried again
      some (w.move t ⟨.trapped (some (io, v :: touch)) v io.access, held⟩)
  | .handling resume v access =>
    match w.areas (p, v) with
    | some area =>
      if area.flags.contains access then
        let r := populate w.inMemory area (w.ptes (p, v)) access
        some (w.move t ⟨.populating resume v r.1 r.2, held⟩)
      else
        some (w.move t ⟨.handled resume false, held⟩)
    | none => some (w.move t ⟨.handled resume false, held⟩)
  | .populating resume v [] (some flags) =>
    some (Kernel.move { w with ptes := update w.ptes (p, v) (some flags) } t
      ⟨.handled resume true, held⟩)
  | .populating resume _ [] none => some (w.move t ⟨.handled resume false, held⟩)
  | .inCache resume v f caches pte =>
    some (w.move t ⟨.populating resume v caches pte, held.erase (.pageCache f)⟩)
  | .handled resume ok => some (w.move t ⟨resumeAt resume ok, held.erase (.aspace p)⟩)
  | _ => none

/-- A step of thread `t`: it takes the mutex it asks for as soon as it is free. -/
def Kernel.run (t : Nat) : Option Kernel :=
  match (w.tasks.pc t).code.request (w.proc t) with
  | some l =>
    if w.tasks.any (fun task => decide (l ∈ task.held)) then none
    else some (w.move t ⟨(w.tasks.pc t).code.acquired, l :: (w.tasks.pc t).held⟩)
  | none => w.proceed t

/-- An error of the page cache, of the page tables or of an allocation. -/
def Code.failed : Code → Option Code
  | .copying io _ => some (.copying { io with rounds := [] } [])
  | .populating resume v _ _ => some (.populating resume v [] none)
  | .inCache resume v f _ _ => some (.inCache resume v f [] none)
  | _ => none

/-- What may happen. -/
inductive Step where
  /-- `read()` or `write()` of a cached file. -/
  | io (t : Nat) (copy : Copy)
  /-- A page fault in user mode. -/
  | fault (t v : Nat) (access : MappingFlags)
  | run (t : Nat)
  | fail (t : Nat)
  /-- `mmap`, `munmap` and `mprotect`, evictions, faults on other backends. -/
  | setArea (p v : Nat) (area : Option Area)
  | setPte (p v : Nat) (pte : Option MappingFlags)

def step : Step → Option Kernel
  | .io t copy =>
    match (w.tasks.pc t).code with
    | .user => some (w.move t ⟨.nextRound copy, (w.tasks.pc t).held⟩)
    | _ => none
  | .fault t v access =>
    match (w.tasks.pc t).code with
    | .user => some (w.move t ⟨.trapped none v access, (w.tasks.pc t).held⟩)
    | _ => none
  | .run t => w.run t
  | .fail t => (w.tasks.pc t).code.failed.map (fun code => w.move t ⟨code, (w.tasks.pc t).held⟩)
  | .setArea p v area => some { w with areas := update w.areas (p, v) area }
  | .setPte p v pte => some { w with ptes := update w.ptes (p, v) pte }

/-- All threads are in user mode. -/
def inUserMode (proc : Nat → Nat) (inMemory : Nat → Bool) (areas : Nat × Nat → Option Area)
    (ptes : Nat × Nat → Option MappingFlags) : Kernel where
  proc := proc
  inMemory := inMemory
  areas := areas
  ptes := ptes
  tasks := .initial
  order := []

/-- Who holds what and asks for what. -/
def Kernel.locking : Locking Nat Mutex where
  held t := (w.tasks.pc t).held
  request t := (w.tasks.pc t).code.request (w.proc t)

/-- **The mutexes are in order**: nobody asks for one it holds, the order in
which they were asked for so far has no cycle, and nobody is deadlocked. -/
structure LocksOrdered : Prop where
  noSelf : w.locking.NoSelfRequest
  acyclic : AcyclicOrder (fun a b => (a, b) ∈ w.order)
  live : ∀ ts, ¬ w.locking.Deadlocked ts

/-- A user page that is copied under the `page_cache` mutex is present. -/
def copiesPresent : Step → Bool
  | .run t =>
    match (w.tasks.pc t).code with
    | .copying io (v :: _) => (w.ptes (w.proc t, v)).any (fun flags => flags.contains io.access)
    | _ => true
  | _ => true

/-! ## §3. What a thread holds where. -/

/-- Address spaces come before page caches. -/
def rank : Mutex → Nat
  | .aspace _ => 0
  | .pageCache _ => 1

/-- The mutexes held at a place in the code, if no trap interrupts a copy. -/
def Code.holds (p : Nat) : Code → Option (List Mutex)
  | .user | .nextRound _ | .trapped none _ _ => some []
  | .copying io _ => some [.pageCache io.file]
  | .handling none _ _ | .populating none _ _ _ | .handled none _ => some [.aspace p]
  | .inCache none _ f _ _ => some [.pageCache f, .aspace p]
  | _ => none

/-- Every thread holds what its place in the code says, and every pair so far
goes up. -/
structure Disciplined : Prop where
  tasks : ∀ t, (w.tasks.pc t).code.holds (w.proc t) = some (w.tasks.pc t).held
  order : ∀ e ∈ w.order, rank e.1 < rank e.2

/-- **Requests go up**: what is held where a mutex is asked for ranks below it, and the thread
goes on with both. -/
theorem request_spec {p : Nat} {code : Code} {held : List Mutex} {l : Mutex}
    (hholds : code.holds p = some held) (hreq : code.request p = some l) :
    (∀ m ∈ held, rank m < rank l) ∧ code.acquired.holds p = some (l :: held) := by
  cases code with
  | nextRound io =>
    cases hholds
    obtain ⟨f, access, rounds⟩ := io
    cases rounds with
    | nil => cases hreq
    | cons touch rounds =>
      cases hreq
      exact ⟨nofun, rfl⟩
  | trapped resume v access =>
    cases resume with
    | some from' => cases hholds
    | none =>
      cases hholds
      cases hreq
      exact ⟨nofun, rfl⟩
  | populating resume v caches pte =>
    cases resume with
    | some from' => cases hholds
    | none =>
      cases hholds
      cases caches with
      | nil => cases hreq
      | cons f rest =>
        cases hreq
        refine ⟨?_, rfl⟩
        intro m hm
        obtain rfl := List.mem_singleton.mp hm
        exact Nat.zero_lt_one
  | _ => cases hreq

section Invariant

variable {w w' : Kernel} {t : Nat}

section

variable (h : Disciplined w)
include h

theorem Disciplined.ascending : w.locking.Ascending rank := by
  intro t l hreq m hm
  exact (request_spec (h.tasks t) hreq).1 m hm

theorem Disciplined.locksOrdered : LocksOrdered w where
  noSelf := h.ascending.noSelfRequest
  acyclic := acyclicOrder_of_rank rank (fun a b => h.order (a, b))
  live := h.ascending.not_deadlocked

/-- A thread moves to a place where it holds what it should. -/
theorem Disciplined.move {task : Task}
    (htask : task.code.holds (w.proc t) = some task.held) : Disciplined (w.move t task) where
  tasks u := by
    show ((w.tasks.goto t task).pc u).code.holds (w.proc u) = some ((w.tasks.goto t task).pc u).held
    rw [Threads.pc_goto]
    split
    next hu =>
      rw [hu]
      exact htask
    · exact h.tasks u
  order e he := by
    rcases List.mem_append.mp he with hold | hnew
    · exact h.order e hold
    split at hnew
    next l hreq =>
      obtain ⟨m, hm, rfl⟩ := List.mem_map.mp hnew
      exact (request_spec htask hreq).1 m hm
    · cases hnew

theorem Disciplined.advance {code old : Code} (hold : (w.tasks.pc t).code = old)
    (hcode : code.holds (w.proc t) = old.holds (w.proc t)) :
    Disciplined (w.move t ⟨code, (w.tasks.pc t).held⟩) :=
  h.move (hcode.trans (hold ▸ h.tasks t))

theorem Disciplined.release {code old : Code} {l : Mutex} {held : List Mutex}
    (hold : (w.tasks.pc t).code = old) (hheld : old.holds (w.proc t) = some (l :: held))
    (hcode : code.holds (w.proc t) = some held) :
    Disciplined (w.move t ⟨code, (w.tasks.pc t).held.erase l⟩) := by
  have hheld : (w.tasks.pc t).held = l :: held := by
    have htask := h.tasks t
    rw [hold, hheld] at htask
    exact (Option.some.inj htask).symm
  apply h.move
  rw [hheld, List.erase_cons_head]
  exact hcode

end

theorem holds_failed {p : Nat} {code code' : Code} (h : code.failed = some code') :
    code'.holds p = code.holds p := by
  cases code with
  | copying io touch =>
    cases h
    rfl
  | populating resume v caches pte | inCache resume v f caches pte =>
    cases h
    cases resume <;> rfl
  | _ => cases h

/-- **One step between two requests.**  A copy whose page is present does not
trap, so a trap never interrupts one. -/
theorem proceed_disciplined (h : Disciplined w) (hok : copiesPresent w (.run t) = true)
    (hs : w.proceed t = some w') : Disciplined w' := by
  have htask := h.tasks t
  unfold Kernel.proceed at hs
  generalize hcode : (w.tasks.pc t).code = code at hs htask
  simp only at hs
  split at hs
  next io =>
    cases hs
    exact h.advance hcode rfl
  next io =>
    cases hs
    exact h.release hcode rfl rfl
  next io v touch =>
    -- the page is present, so the copy does not trap
    simp only [copiesPresent, hcode] at hok
    rw [if_pos hok] at hs
    cases hs
    exact h.advance hcode rfl
  -- in the handler: a fault that interrupted a copy is not disciplined
  next resume v access =>
    cases resume with
    | some from' => cases htask
    | none =>
      split at hs
      · split at hs
        · cases hs
          exact h.advance hcode rfl
        · cases hs
          exact h.advance hcode rfl
      · cases hs
        exact h.advance hcode rfl
  next resume v flags =>
    cases resume with
    | some from' => cases htask
    | none =>
      cases hs
      have hset : Disciplined { w with
          ptes := update w.ptes (w.proc t, v) (some flags) } := ⟨h.tasks, h.order⟩
      exact hset.advance hcode rfl
  next resume v =>
    cases resume with
    | some from' => cases htask
    | none =>
      cases hs
      exact h.advance hcode rfl
  next resume v f caches pte =>
    cases resume with
    | some from' => cases htask
    | none =>
      cases hs
      exact h.release hcode rfl rfl
  next resume ok =>
    cases resume with
    | some from' => cases htask
    | none =>
      cases hs
      exact h.release hcode rfl rfl
  · cases hs

theorem step_disciplined {i : Step} (h : Disciplined w) (hok : copiesPresent w i = true)
    (hs : step w i = some w') : Disciplined w' := by
  cases i with
  | io t copy | fault t v access =>
    simp only [step] at hs
    split at hs
    next hcode =>
      cases hs
      exact h.advance hcode rfl
    · cases hs
  | run t =>
    simp only [step, Kernel.run] at hs
    split at hs
    next l hreq =>
      split at hs
      · cases hs
      · cases hs
        exact h.move (request_spec (h.tasks t) hreq).2
    · exact proceed_disciplined h hok hs
  | fail t =>
    simp only [step, Option.map_eq_some_iff] at hs
    obtain ⟨code, hfail, rfl⟩ := hs
    exact h.advance rfl (holds_failed hfail)
  | setArea p v area | setPte p v pte =>
    cases hs
    exact ⟨h.tasks, h.order⟩

end Invariant

/-! ## §4. Whole runs. -/

/-- **THE MUTEXES ARE TAKEN IN ORDER in every run that copies only user pages
that are present.** -/
theorem locks_are_ordered (proc : Nat → Nat) (inMemory : Nat → Bool)
    (areas : Nat × Nat → Option Area) (ptes : Nat × Nat → Option MappingFlags) (w : Kernel)
    (hw : Reach step (fun w i => copiesPresent w i = true)
      (inUserMode proc inMemory areas ptes) w) : LocksOrdered w := by
  have hinit : Disciplined (inUserMode proc inMemory areas ptes) :=
    ⟨fun _ => rfl, fun _ he => absurd he List.not_mem_nil⟩
  exact (hw.invariant Disciplined hinit (fun _ _ _ => step_disciplined)).locksOrdered

/-- One process: page 5 is anonymous memory, page 6 maps file 7. -/
def oneProcess (present : Bool) : Kernel :=
  inUserMode (fun _ => 0) (fun _ => false)
    (fun key => if key = (0, 5) then some ⟨.rw, .anonymous⟩
      else if key = (0, 6) then some ⟨.rw, .sharedFile 7⟩ else none)
    (fun key => if key = (0, 5) ∧ present then some .rw else none)

/-- A store. -/
def storeAccess : MappingFlags := ⟨false, true, false, false⟩

/-- While a thread reads file 7 into a page that is present, another one faults
on a mapping of it and asks for the page cache. -/
theorem present_buffer_keeps_the_order :
    ∃ w, Reach step (fun w i => copiesPresent w i = true) (oneProcess true) w
      ∧ w.locking.request 2 = some (.pageCache 7) ∧ w.locking.held 1 = [.pageCache 7]
      ∧ LocksOrdered w := by
  obtain ⟨w, hw, hc⟩ := exists_reach_guarded step (oneProcess true) copiesPresent
    [.io 1 ⟨7, storeAccess, [[5]]⟩, .run 1, .run 1, .fault 2 6 storeAccess, .run 2, .run 2]
    (fun w => w.locking.request 2 = some (.pageCache 7)
      ∧ w.locking.held 1 = [.pageCache 7]) (by decide +kernel)
  exact ⟨w, hw, hc.1, hc.2, locks_are_ordered _ _ _ _ w hw⟩

/-- **A copy that faults breaks the order.**  A buffer in a mapping of the file
itself makes the thread ask for the `page_cache` mutex it holds; any absent
buffer page makes two threads wait for each other. -/
theorem copy_fault_breaks_the_order :
    (∃ w, Reach step Always (oneProcess false) w ∧ ¬ w.locking.NoSelfRequest)
    ∧ ∃ w, Reach step Always (oneProcess false) w
      ∧ ¬ AcyclicOrder (fun a b => (a, b) ∈ w.order) ∧ w.locking.Deadlocked {1, 2} := by
  refine ⟨?_, ?_⟩
  · obtain ⟨w, hw, hc⟩ := exists_reach step (oneProcess false)
      [.io 1 ⟨7, storeAccess, [[6]]⟩, .run 1, .run 1, .run 1, .run 1]
      (fun w => w.locking.request 1 = some (.pageCache 7)
        ∧ .pageCache 7 ∈ w.locking.held 1) (by decide +kernel)
    exact ⟨w, hw, fun hno => hno 1 _ hc.1 hc.2⟩
  obtain ⟨w, hw, hreq1, hheld2, hreq2, hheld1, hdown, hup⟩ :=
    exists_reach step (oneProcess false)
    [.io 1 ⟨7, storeAccess, [[5]]⟩, .run 1, .run 1, .fault 2 6 storeAccess, .run 2, .run 2]
    (fun w => w.locking.request 1 = some (.aspace 0) ∧ .aspace 0 ∈ w.locking.held 2
      ∧ w.locking.request 2 = some (.pageCache 7) ∧ .pageCache 7 ∈ w.locking.held 1
      ∧ (.pageCache 7, .aspace 0) ∈ w.order ∧ (.aspace 0, .pageCache 7) ∈ w.order)
    (by decide +kernel)
  refine ⟨w, hw, ?_, by simp, ?_⟩
  · intro hacyclic
    exact hacyclic _ (.tail (.single hdown) hup)
  intro t ht
  simp only [Finset.mem_insert, Finset.mem_singleton] at ht
  rcases ht with rfl | rfl
  · exact ⟨_, hreq1, 2, by simp, hheld2⟩
  · exact ⟨_, hreq2, 1, by simp, hheld1⟩

end StarryOS.Mm.UserCopy
