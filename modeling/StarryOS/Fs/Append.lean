/-
  StarryOS.Fs.Append — CONCURRENT APPENDS (`CachedFile::append`,
  `write_at_locked`).

  An append reads the length, grows the node and copies page by page; only the
  copy of one page is under the `page_cache` lock.  What should hold the pieces
  together is `append_lock`, and that lock belongs to the HANDLE: every open and
  every clone makes a new one (`appends_are_atomic`,
  `concurrent_appends_lose_a_buffer`).

  A thread inside `append` is at a STAGE.  `advance` is the code between two
  accesses to shared state, `remaining` is all the code that is left, and
  `remaining_eq_advance` says that the pieces make up the sequential `append`.
-/
import Mathlib.Data.List.Perm.Basic
import StarryOS.Fs.CachedRefinement
import StarryOS.Fs.Volume
import StarryOS.Lib.Threads
import StarryOS.Lib.Transition

namespace StarryOS.Fs

open Lib Threads Function

/-! ## §1. `append` in pieces. -/

/-- How far an append has come. -/
inductive AppendStage where
  /-- It holds `append_lock`. -/
  | locked
  /-- `append` has read the length. -/
  | sized (len : Nat)
  /-- `write_at_locked` has compared its end with the length. -/
  | compared (len : Nat) (grow : Bool)
  /-- The pages that `with_pages` has still to visit. -/
  | copying (len : Nat) (pages : List Nat) (pageOffset : Nat) (acc : Nat × Bytes)

/-- The length has been read. -/
def AppendStage.started : AppendStage → Bool
  | .locked => false
  | _ => true

section Pieces

variable (env : Env) (buf : Bytes)

/-- Where the copy of an append at `len` begins. -/
def AppendStage.copyFrom (len : Nat) : AppendStage :=
  let startPage := u32 (len / pageSize)
  let endPage := u32 ((u64 (len + buf.length) + (pageSize - 1)) / pageSize)
  .copying len (List.range' startPage (endPage - startPage)) (len % pageSize) (0, buf)

/-- One access to the shared state. -/
def advance : AppendStage → FsM AppendStage
  | .locked => do
    let len ← nodeLen env
    return .sized len
  | .sized len => do
    let fileLen ← nodeLen env
    return .compared len (decide (fileLen < u64 (len + buf.length)))
  | .compared len grow =>
    if grow then do
      nodeSetLen env (u64 (len + buf.length))
      return .copyFrom buf len
    else
      return .copyFrom buf len
  | .copying len (pn :: rest) pageOffset acc => do
    let acc ← onePage env (u64 (len + buf.length)) (writeEach env) pn pageOffset acc
    return .copying len rest 0 acc
  | .copying len [] pageOffset acc => return .copying len [] pageOffset acc

/-- What `append` returns once every page is copied. -/
def AppendStage.result : AppendStage → Option (Nat × Nat)
  | .copying len [] _ acc => some (acc.1, len + acc.1)
  | _ => none

/-- The code that is left. -/
def remaining : AppendStage → FsM (Nat × Nat)
  | .locked => append env buf
  | .sized len => do
    let written ← writeAtLocked env buf len
    return (written, len + written)
  | .compared len grow => do
    if grow then
      nodeSetLen env (u64 (len + buf.length))
    let r ← withPagesLoop env (u64 (len + buf.length)) (writeEach env)
      (List.range' (u32 (len / pageSize))
        (u32 ((u64 (len + buf.length) + (pageSize - 1)) / pageSize) - u32 (len / pageSize)))
      (len % pageSize) (0, buf)
    return (r.1, len + r.1)
  | .copying len pages pageOffset acc => do
    let r ← withPagesLoop env (u64 (len + buf.length)) (writeEach env) pages pageOffset acc
    return (r.1, len + r.1)

/-- **The pieces make up the code.** -/
theorem remaining_eq_advance (stage : AppendStage) :
    remaining env buf stage = advance env buf stage >>= remaining env buf := by
  cases stage with
  | locked => simp only [remaining, advance, append, bind_assoc, pure_bind]
  | sized len =>
    simp only [remaining, advance, writeAtLocked, withPages, growNode, bind_assoc, pure_bind]
    congr 1
    funext fileLen
    -- the comparison is made now and acted on later
    by_cases hgrow : fileLen < u64 (len + buf.length)
    · simp only [hgrow, if_true, decide_true, bind_assoc, pure_bind]
    · simp only [hgrow, if_false, decide_false, pure_bind, Bool.false_eq_true]
  | compared len grow =>
    cases grow with
    | true => simp only [remaining, advance, if_true, bind_assoc, pure_bind, AppendStage.copyFrom]
    | false =>
      simp only [remaining, advance, Bool.false_eq_true, if_false, pure_bind, AppendStage.copyFrom]
  | copying len pages pageOffset acc =>
    cases pages with
    | nil => simp only [remaining, advance, pure_bind]
    | cons pn rest => simp only [remaining, advance, withPagesLoop_cons, bind_assoc, pure_bind]

theorem remaining_of_result {stage : AppendStage} {r : Nat × Nat} (h : stage.result = some r) :
    remaining env buf stage = pure r := by
  cases stage with
  | copying len pages pageOffset acc =>
    cases pages with
    | nil =>
      cases h
      simp only [remaining, withPagesLoop, pure_bind]
    | cons pn rest => cases h
  | locked | sized len | compared len grow => cases h

end Pieces

/-! ## §2. The system. -/

/-- Where a thread is. -/
inductive AppendPoint where
  | idle
  | inside (handle : Nat) (buf : Bytes) (stage : AppendStage)

instance : Inhabited AppendPoint := ⟨.idle⟩

/-- An append that has returned. -/
structure Appended where
  buf : Bytes
  result : AxResult (Nat × Nat)

/-- The thread has read the length of the file. -/
def AppendPoint.started : AppendPoint → Bool
  | .idle => false
  | .inside _ _ stage => stage.started

def AppendPoint.isInside : AppendPoint → Bool
  | .idle => false
  | .inside _ _ _ => true

/-- One file, the `append_lock` of each of its handles, the threads, and the
appends that have returned, oldest first. -/
structure Appending where
  file : FileState
  appendLock : Nat → Option Nat
  threads : Threads AppendPoint
  finished : List Appended

/-- What may happen. -/
inductive AppendStep where
  /-- Thread `t` enters `append` and takes the lock of its handle. -/
  | enter (t handle : Nat) (buf : Bytes)
  /-- Thread `t` goes on to its next access. -/
  | run (t : Nat)

/-- Thread `t` returns from `append` and lets go of the lock. -/
def Appending.leave (w : Appending) (t handle : Nat) (done : Appended) : Appending :=
  { w with
    appendLock := update w.appendLock handle none
    threads := w.threads.goto t .idle
    finished := w.finished ++ [done] }

/-- An `append` step by step, in any thread. -/
def appendStep (env : Env) (w : Appending) : AppendStep → Option Appending
  | .enter t handle buf =>
    match w.threads.pc t, w.appendLock handle with
    | .idle, none => some { w with
        appendLock := update w.appendLock handle (some t)
        threads := w.threads.goto t (.inside handle buf .locked) }
    | _, _ => none
  | .run t =>
    match w.threads.pc t with
    | .idle => none
    | .inside handle buf stage =>
      match stage.result with
      | some r => some (w.leave t handle ⟨buf, .ok r⟩)
      | none =>
        match advance env buf stage w.file with
        | .ok stage' st => some { w with
            file := st
            threads := w.threads.goto t (.inside handle buf stage') }
        | .error e st => some (Appending.leave { w with file := st } t handle ⟨buf, .error e⟩)

/-- A file that nobody appends to. -/
def notAppending (st : FileState) : Appending where
  file := st
  appendLock _ := none
  threads := .initial
  finished := []

/-- An append through another handle than `handle` is in progress. -/
def AppendPoint.busyElsewhere (handle : Nat) : AppendPoint → Bool
  | .idle => false
  | .inside handle' _ stage => decide (handle' ≠ handle) && stage.started

/-- When an append reads the length, no append through another handle is in
progress, and the file stays below the last page number. -/
def appendsAlone (w : Appending) : AppendStep → Bool
  | .enter _ _ _ => true
  | .run t =>
    match w.threads.pc t with
    | .inside handle buf .locked =>
      !w.threads.any (AppendPoint.busyElsewhere handle)
        && decide (w.file.node.length + buf.length ≤ maxEnd)
    | _ => true

/-! ## §3. The result of a run. -/

/-- The file after the appends of a list. -/
def contentAfter (old : Bytes) (order : List Appended) : Bytes :=
  old ++ order.flatMap Appended.buf

/-- Every append returned the bytes and the end offset of its own buffer. -/
def ReturnsEnds (old : Bytes) : List Appended → Prop
  | [] => True
  | done :: rest => done.result = .ok (done.buf.length, old.length + done.buf.length)
      ∧ ReturnsEnds (old ++ done.buf) rest

/-- **The appends happened one after the other**, in some order. -/
def AppendedInOrder (env : Env) (old : Bytes) (w : Appending) : Prop :=
  ∃ order, order.Perm w.finished ∧ ReturnsEnds old order ∧
    ∀ n off, off + n < 2 ^ 64 → execResult env w.file (.readAt n off)
      = .ok (.read (slice (contentAfter old order) off n))

theorem contentAfter_append (old : Bytes) (order : List Appended) (done : Appended) :
    contentAfter old (order ++ [done]) = contentAfter old order ++ done.buf := by
  unfold contentAfter
  rw [List.flatMap_append, List.flatMap_singleton, List.append_assoc]

theorem returnsEnds_append {done : Appended} : ∀ {order : List Appended} {old : Bytes},
    ReturnsEnds old order →
    done.result = .ok (done.buf.length, (contentAfter old order).length + done.buf.length) →
    ReturnsEnds old (order ++ [done]) := by
  intro order
  induction order with
  | nil =>
    intro old _ hdone
    unfold contentAfter at hdone
    rw [List.flatMap_nil, List.append_nil] at hdone
    exact ⟨hdone, trivial⟩
  | cons first rest ih =>
    intro old h hdone
    refine ⟨h.1, ih h.2 ?_⟩
    unfold contentAfter at hdone ⊢
    rw [List.flatMap_cons, ← List.append_assoc] at hdone
    exact hdone

/-! ## §4. The invariant. -/

/-- The append of `buf` to the string `s` is finished correctly by what is left
of it. -/
def WillFinish (env : Env) (st : FileState) (s buf : Bytes) (stage : AppendStage) : Prop :=
  wp (remaining env buf stage) st (fun r st' => Shows env st' (s ++ buf) 0 0
    ∧ r = (buf.length, s.length + buf.length)) NoError

/-- Nobody is in progress and the file shows `s`, or one thread is and will
finish. -/
def AtMostOne (env : Env) (w : Appending) (s : Bytes) : Prop :=
  (∀ t, (w.threads.pc t).started = false) ∧ Shows env w.file s 0 0
  ∨ ∃ t handle buf stage, w.threads.pc t = .inside handle buf stage ∧ stage.started = true
    ∧ (∀ u, u ≠ t → (w.threads.pc u).started = false)
    ∧ s.length + buf.length ≤ maxEnd ∧ WillFinish env w.file s buf stage

/-- The appends take effect one by one. -/
@[grind cases] structure Serial (env : Env) (old : Bytes) (w : Appending) : Prop where
  /-- A thread inside `append` holds the lock of its handle. -/
  locks : ∀ (t handle : Nat) (buf : Bytes) (stage : AppendStage),
    w.threads.pc t = .inside handle buf stage → w.appendLock handle = some t
  results : ReturnsEnds old w.finished
  small : (contentAfter old w.finished).length ≤ maxEnd
  progress : AtMostOne env w (contentAfter old w.finished)

section Invariant

variable {env : Env} {old : Bytes} {w w' : Appending} {t handle : Nat} {buf : Bytes}
  {stage : AppendStage}

theorem advance_started (env : Env) (buf : Bytes) (stage : AppendStage) (st : FileState) :
    wp (advance env buf stage) st (fun stage' _ => stage'.started = true) (fun _ _ => True) := by
  cases stage with
  | locked | sized len =>
    simp only [advance, wp_bind, wp_pure]
    exact wp_of_forall (fun _ _ => rfl) (fun _ _ => trivial)
  | compared len grow =>
    cases grow with
    | true =>
      simp only [advance, if_true, wp_bind, wp_pure]
      exact wp_of_forall (fun _ _ => rfl) (fun _ _ => trivial)
    | false => exact rfl
  | copying len pages pageOffset acc =>
    cases pages with
    | nil => exact rfl
    | cons pn rest =>
      simp only [advance, wp_bind, wp_pure]
      exact wp_of_forall (fun _ _ => rfl) (fun _ _ => trivial)

/-- **Who may run.**  The lock of the handle keeps the appends through the same
handle out, the condition those through other handles: a thread that moves is
the one that is in progress. -/
theorem Serial.runnable (hf : env.Faultless) (h : Serial env old w)
    (hpc : w.threads.pc t = .inside handle buf stage) (hok : appendsAlone w (.run t) = true) :
    (∀ u, u ≠ t → (w.threads.pc u).started = false)
      ∧ (contentAfter old w.finished).length + buf.length ≤ maxEnd
      ∧ WillFinish env w.file (contentAfter old w.finished) buf stage := by
  cases hstarted : stage.started with
  | true =>
    rcases h.progress with ⟨hquiet, -⟩ | ⟨u, handle', buf', stage', hu, -, hothers, hrest⟩
    · have hnot := hquiet t
      rw [hpc] at hnot
      cases hstarted.symm.trans hnot
    have heq : t = u := by
      by_contra hne
      have hnot := hothers t hne
      rw [hpc] at hnot
      cases hstarted.symm.trans hnot
    grind
  | false =>
    have hlocked : stage = .locked := by
      cases stage with
      | locked => rfl
      | _ => cases hstarted
    subst hlocked
    simp only [appendsAlone, hpc, Bool.and_eq_true, Bool.not_eq_true', decide_eq_true_eq] at hok
    have hquiet : ∀ u, (w.threads.pc u).started = false := by
      intro u
      cases hu : w.threads.pc u with
      | idle => rfl
      | inside handle' buf' stage' =>
        by_cases hsame : handle' = handle
        · -- the same handle, hence the same thread
          subst hsame
          have heq : u = t := Option.some.inj
            ((h.locks u _ _ _ hu).symm.trans (h.locks t _ _ _ hpc))
          subst heq
          rw [hpc] at hu
          obtain ⟨-, -, rfl⟩ := AppendPoint.inside.inj hu
          rfl
        · have hbusy := eq_false_of_any rfl hok.1 u
          rw [hu] at hbusy
          simpa [AppendPoint.busyElsewhere, AppendPoint.started, hsame] using hbusy
    rcases h.progress with ⟨-, hshows⟩ | ⟨u, handle', buf', stage', hu, hstart, -⟩
    · have hroom : (contentAfter old w.finished).length + buf.length ≤ maxEnd := by
        rw [← hshows.len]
        exact hok.2
      refine ⟨fun u _ => hquiet u, hroom, ?_⟩
      have happend := append_shows hf hshows hroom
      rw [overwrite_at_end] at happend
      exact happend
    · have hnot := hquiet u
      rw [hu] at hnot
      cases hstart.symm.trans hnot

theorem enter_serial (h : Serial env old w) (hpc : w.threads.pc t = .idle)
    (hfree : w.appendLock handle = none) :
    Serial env old { w with
      appendLock := update w.appendLock handle (some t)
      threads := w.threads.goto t (.inside handle buf .locked) } := by
  -- entering starts nothing
  have hstart : ∀ u, ((w.threads.goto t (.inside handle buf .locked)).pc u).started
      = (w.threads.pc u).started := by
    intro u
    rw [pc_goto]
    split
    next hu =>
      rw [hu, hpc]
      rfl
    · rfl
  refine ⟨?_, h.results, h.small, ?_⟩
  · grind
  rcases h.progress with ⟨hquiet, hshows⟩ | ⟨u, handle', buf', stage', hu, hst, hothers, hrest⟩
  · exact .inl ⟨fun u => (hstart u).trans (hquiet u), hshows⟩
  · refine .inr ⟨u, handle', buf', stage', ?_, hst, fun v hv => (hstart v).trans (hothers v hv),
      hrest⟩
    show (w.threads.goto t _).pc u = _
    grind

variable (hf : env.Faultless) (h : Serial env old w)
include hf h

/-- **One piece of the append in progress.** -/
theorem advance_serial
    (hpc : w.threads.pc t = .inside handle buf stage) (hok : appendsAlone w (.run t) = true)
    {stage' : AppendStage} {st : FileState} (hrun : advance env buf stage w.file = .ok stage' st) :
    Serial env old { w with
      file := st
      threads := w.threads.goto t (.inside handle buf stage') } := by
  obtain ⟨hothers, hroom, hfinish⟩ := h.runnable hf hpc hok
  unfold WillFinish at hfinish
  rw [remaining_eq_advance, wp_bind] at hfinish
  have hnext := wp_of_run hrun hfinish
  have hstarted := wp_of_run hrun (advance_started env buf stage w.file)
  refine ⟨?_, h.results, h.small, .inr ⟨t, handle, buf, stage', ?_, hstarted, ?_, hroom, hnext⟩⟩
  · grind
  · show (w.threads.goto t _).pc t = _
    rw [pc_goto, if_pos rfl]
  · grind

/-- **An append that returns** has added its buffer at the end. -/
theorem leave_serial
    (hpc : w.threads.pc t = .inside handle buf stage) (hok : appendsAlone w (.run t) = true)
    {r : Nat × Nat} (hres : stage.result = some r) :
    Serial env old (w.leave t handle ⟨buf, .ok r⟩) := by
  obtain ⟨hothers, hroom, hfinish⟩ := h.runnable hf hpc hok
  unfold WillFinish at hfinish
  rw [remaining_of_result env buf hres] at hfinish
  obtain ⟨hshows, hr⟩ := hfinish
  have hcontent : contentAfter old (w.leave t handle ⟨buf, .ok r⟩).finished
      = contentAfter old w.finished ++ buf := contentAfter_append old w.finished ⟨buf, .ok r⟩
  refine ⟨?_, returnsEnds_append h.results (congrArg Except.ok hr), ?_, .inl ⟨?_, ?_⟩⟩
  · intro u handle' buf' stage' hu
    show update w.appendLock handle none handle' = some u
    rw [show (w.leave t handle ⟨buf, .ok r⟩).threads = w.threads.goto t .idle from rfl] at hu
    grind
  · rw [hcontent, List.length_append]
    exact hroom
  · intro u
    show ((w.threads.goto t .idle).pc u).started = false
    rw [pc_goto]
    split
    · rfl
    next hne => exact hothers u hne
  · rw [hcontent]
    exact hshows

theorem appendStep_serial {i : AppendStep}
    (hok : appendsAlone w i = true) (hs : appendStep env w i = some w') : Serial env old w' := by
  cases i with
  | enter t handle buf =>
    simp only [appendStep] at hs
    split at hs
    next hpc hfree =>
      cases hs
      exact enter_serial h hpc hfree
    · cases hs
  | run t =>
    simp only [appendStep] at hs
    split at hs
    · cases hs
    next handle buf stage hpc =>
      generalize hres : stage.result = p at hs
      cases p with
      | some r =>
        cases hs
        exact leave_serial hf h hpc hok hres
      | none =>
        -- what is left of the append cannot fail, so neither can its first piece
        obtain ⟨-, -, hfinish⟩ := h.runnable hf hpc hok
        unfold WillFinish at hfinish
        rw [remaining_eq_advance, wp_bind] at hfinish
        obtain ⟨stage', st, hrun, -⟩ := exists_of_wp hfinish
        simp only [hrun] at hs
        cases hs
        exact advance_serial hf h hpc hok hrun

end Invariant

/-! ## §5. Whole runs. -/

/-- **APPENDS ARE ATOMIC in every run in which no append reads the length while
one through another handle is in progress**: whenever all threads have returned,
the file is the old content and the buffers one after the other, and every
append returned the end of its own buffer. -/
theorem appends_are_atomic (env : Env) (hf : env.Faultless) (st : FileState) (old : Bytes)
    (hold : Shows env st old 0 0) (hsmall : old.length ≤ maxEnd) (w : Appending)
    (hw : Reach (appendStep env) (fun w i => appendsAlone w i = true) (notAppending st) w)
    (hidle : ∀ t, w.threads.pc t = .idle) : AppendedInOrder env old w := by
  have hstart : Serial env old (notAppending st) := by
    refine ⟨?_, trivial, ?_, .inl ⟨fun _ => rfl, ?_⟩⟩
    · intro t handle buf stage hpc
      cases hpc
    · simpa [contentAfter, notAppending] using hsmall
    · simpa [contentAfter, notAppending] using hold
  have hinv := hw.invariant (Serial env old) hstart
    (fun _ _ _ h hok hs => appendStep_serial hf h hok hs)
  have hshows : Shows env w.file (contentAfter old w.finished) 0 0 := by
    rcases hinv.progress with ⟨-, hshows⟩ | ⟨t, handle, buf, stage, hpc, -⟩
    · exact hshows
    · rw [hidle t] at hpc
      cases hpc
  refine ⟨w.finished, List.Perm.refl _, hinv.results, ?_⟩
  intro n off hn
  obtain ⟨r, st', hexec, -, hres⟩ := exists_of_wp
    (exec_shows hf hshows hinv.small (show StepSafe w.file (.readAt n off) from hn))
  unfold execResult
  rw [hexec, hres]
  rfl

theorem idle_of_not_inside {ts : Threads AppendPoint} (h : ts.any AppendPoint.isInside = false)
    (t : Nat) : ts.pc t = .idle := by
  have hout := eq_false_of_any rfl h t
  cases hpc : ts.pc t with
  | idle => rfl
  | inside handle buf stage =>
    rw [hpc] at hout
    cases hout

/-- Two threads append one byte each, through two handles, and the second
waits for the first. -/
theorem waiting_appends_are_atomic :
    ∃ w, Reach (appendStep (faultless false)) (fun w i => appendsAlone w i = true)
        (notAppending (opened 64 (by decide) [])) w
      ∧ w.finished.map Appended.buf = [[65], [66]] ∧ AppendedInOrder (faultless false) [] w := by
  obtain ⟨w, hw, hc⟩ := exists_reach_guarded (appendStep (faultless false))
    (notAppending (opened 64 (by decide) [])) appendsAlone
    ([.enter 1 3 [65], .enter 2 4 [66]] ++ List.replicate 5 (.run 1) ++ List.replicate 5 (.run 2))
    (fun w => w.finished.map Appended.buf = [[65], [66]]
      ∧ w.threads.any AppendPoint.isInside = false) (by decide +kernel)
  refine ⟨w, hw, hc.1, appends_are_atomic (faultless false) ⟨fun _ => rfl, fun _ => rfl⟩ _ []
    ((opened_represents 64 (by decide) []).shows rfl) (by decide) w hw
    (idle_of_not_inside hc.2)⟩

/-- **Two handles, one byte each, one byte lost**: both threads read length 0,
the second overwrites the first, and both are told that the file ends at 1. -/
theorem concurrent_appends_lose_a_buffer :
    ∃ w, Reach (appendStep (faultless false)) Always (notAppending (opened 64 (by decide) [])) w
      ∧ (∀ t, w.threads.pc t = .idle) ∧ ¬ AppendedInOrder (faultless false) [] w := by
  obtain ⟨w, hw, hbufs, hidle, hread⟩ := exists_reach (appendStep (faultless false))
    (notAppending (opened 64 (by decide) []))
    ([.enter 1 3 [65], .enter 2 4 [66], .run 1, .run 2] ++ List.replicate 4 (.run 1)
      ++ List.replicate 4 (.run 2))
    (fun w => w.finished.map Appended.buf = [[65], [66]]
      ∧ w.threads.any AppendPoint.isInside = false
      ∧ execResult (faultless false) w.file (.readAt 2 0) = .ok (.read [66])) (by decide +kernel)
  refine ⟨w, hw, idle_of_not_inside hidle, ?_⟩
  rintro ⟨order, hperm, -, hreads⟩
  -- whatever the order, two bytes were appended
  have htwo : (contentAfter [] order).length = 2 := by
    have hlen := (hperm.map Appended.buf).flatten.length_eq
    rw [hbufs] at hlen
    exact hlen
  have hbytes := hreads 2 0 (by decide)
  rw [hread] at hbytes
  have hslice : [66] = slice (contentAfter [] order) 0 2 := by
    injection hbytes with hbytes
    injection hbytes
  have hone := congrArg List.length hslice
  rw [show slice (contentAfter [] order) 0 2 = (contentAfter [] order).take 2 from rfl,
      List.length_take, htwo] at hone
  cases hone

end StarryOS.Fs
