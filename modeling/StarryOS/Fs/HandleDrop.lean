/-
  StarryOS.Fs.HandleDrop — CLOSING CACHED FILES, interleaved at the steps of
  `Drop`.

  Every `CachedFile` handle of a disk-backed file holds one strong reference to
  the shared cache; the file's user data holds only a weak one.  Dropping a
  handle is THREE steps that other threads can separate:

      test     `Arc::strong_count(&self.shared) > 1` — another handle flushes
      sync     only when the test saw no other reference
      release  the `shared` field itself is dropped, the count goes down

  The count is still up between a test and its release, so two handles can each
  take the other for the one that flushes.  `SomeoneElseStays` says that a test
  which skips the flush really leaves a handle behind that has not begun to drop
  (`close_keeps_written_data`, `both_drops_skip_the_flush`).
-/
import StarryOS.Fs.CachedRefinement
import StarryOS.Lib.Transition

namespace StarryOS.Fs

open Lib

/-! ## §1. Handles and their steps. -/

/-- How far a handle is in its `Drop`. -/
inductive HandlePhase where
  /-- In use. -/
  | live
  /-- The test saw another reference; only the release is left. -/
  | skipped
  /-- The test saw no other reference; the flush is still to come. -/
  | mustSync
  /-- Flushed; only the release is left. -/
  | synced
  deriving Repr, DecidableEq

/-- The file and the strong references to its shared cache, one per handle. -/
structure Handles where
  file : FileState
  refs : List HandlePhase

/-- One step of one thread. -/
inductive HandleStep where
  /-- `CachedFile::get_or_create`. -/
  | getOrCreate
  /-- `clone` of handle `k`. -/
  | clone (k : Nat)
  /-- A call through handle `k`. -/
  | call (k : Nat) (op : FileOp)
  /-- A page fault through handle `k` (`with_page_or_insert`). -/
  | faultIn (k pn : Nat)
  /-- A write fault through handle `k` (`with_page`, then `mark_dirty`). -/
  | markDirty (k pn : Nat)
  | dropTest (k : Nat)
  | dropSync (k : Nat)
  | dropRelease (k : Nat)

/-- Destroying `CachedFileShared` drops every page; the next `get_or_create`
starts with an empty cache. -/
def destroyShared (st : FileState) : FileState :=
  let dropped := st.pageCache.entries.foldl (fun st e => st.dropPage e.1 e.2) st
  { dropped with pageCache := .empty 64 (Nat.succ_pos 63) }

/-- The step function.  A step is enabled when handle `k` is in the phase the
step starts from. -/
def handleStep (env : Env) (w : Handles) : HandleStep → Option Handles
  -- a successful upgrade and a fresh `CachedFileShared` both add one reference
  | .getOrCreate => some { w with refs := w.refs ++ [.live] }
  | .clone k => if w.refs[k]? = some .live then some { w with refs := w.refs ++ [.live] } else none
  | .call k op =>
    if w.refs[k]? = some .live then
      some { w with file := execState env w.file op } else none
  | .faultIn k pn =>
    if w.refs[k]? = some .live then
      some { w with file := stateAfter (pageOrInsert env pn) w.file } else none
  | .markDirty k pn =>
    if w.refs[k]? = some .live then
      some { w with file := { w.file with
        pageCache := w.file.pageCache.getMut pn (fun page => { page with dirty := true }) } }
    else none
  | .dropTest k =>
    if w.refs[k]? = some .live then
      some { w with
        refs := w.refs.set k (if 1 < w.refs.length then .skipped else .mustSync) }
    else none
  | .dropSync k =>
    if w.refs[k]? = some .mustSync then
      some { file := stateAfter (sync env false) w.file, refs := w.refs.set k .synced }
    else none
  | .dropRelease k =>
    if w.refs[k]? = some .skipped ∨ w.refs[k]? = some .synced then
      some { file := if w.refs.length = 1 then destroyShared w.file else w.file
             refs := w.refs.eraseIdx k }
    else none

/-- A test that skips the flush leaves another handle behind that has not begun
to drop. -/
def SomeoneElseStays (w : Handles) : HandleStep → Prop
  | .dropTest k => 1 < w.refs.length → ∃ j, j ≠ k ∧ w.refs[j]? = some .live
  | _ => True

/-- Nothing that was written has been thrown away: no page was ever dropped
while dirty. -/
def NothingLost (w : Handles) : Prop := w.file.dirtyDrops = []

/-- No handle yet; the node holds `node`, nothing is cached. -/
def unopened (node : Bytes) : Handles where
  file := opened 64 (Nat.succ_pos 63) node
  refs := []

/-! ## §2. Without I/O errors only the release of the last handle drops pages. -/

section Drops

variable {env : Env} (hio : env.NodeOk)

include hio

/-- No cache step of a disk-backed file drops a dirty page. -/
theorem trace_drops {st st' : FileState} (h : Trace env (fun _ => True) st st') :
    st'.dirtyDrops = st.dirtyDrops := by
  refine h.preserves (fun s => s.dirtyDrops = st.dirtyDrops) ?_ rfl
  intro s s' hs hstep
  cases hstep with
  | node bytes ios allocs => exact hs
  | use pn f hf => exact hs
  | insert pn page hnew hroom => exact hs
  | evict pn rest lost hrest hlost =>
    have hnil : lost = [] := by grind
    rw [hnil]
    show s.dirtyDrops ++ [] = _
    rw [List.append_nil, hs]
  | discard pn rest lost hmem _ hrest =>
    rw [hio.disk] at hmem
    cases hmem

theorem stateAfter_sync {dataOnly : Bool} {st : FileState} :
    (stateAfter (sync env dataOnly) st).pageCache.entries = [] := by
  obtain ⟨_, st', he, hempty⟩ := exists_of_wp (sync_returns hio.io dataOnly st)
  unfold stateAfter
  rw [he]
  exact hempty hio.disk

/-! ## §3. The invariant and its steps. -/

omit hio in
/-- Destroying a cache without dirty pages loses nothing. -/
theorem destroyShared_drops (st : FileState) (h : ∀ e ∈ st.pageCache.entries, e.2.dirty = false) :
    (destroyShared st).dirtyDrops = st.dirtyDrops := by
  have hfold : ∀ (es : List (Nat × PageCache)) (st' : FileState), (∀ e ∈ es, e.2.dirty = false) →
      (es.foldl (fun st e => st.dropPage e.1 e.2) st').dirtyDrops = st'.dirtyDrops := by
    intro es
    induction es with
    | nil =>
      intro st' _
      rfl
    | cons e es ih =>
      intro st' hes
      rw [List.foldl_cons, ih _ (fun e' he' => hes e' (.tail _ he'))]
      unfold FileState.dropPage
      rw [if_neg (by rw [hes e (.head _)]; simp)]
  exact hfold st.pageCache.entries st h

/-- Somebody will still flush: a handle in use, or one on its way to `sync`. -/
def WillFlush (refs : List HandlePhase) : Prop := .live ∈ refs ∨ .mustSync ∈ refs

/-- Nothing is lost, and while a page is dirty somebody will flush it. -/
@[grind cases] structure DirtyIsGuarded (w : Handles) : Prop where
  nothingLost : NothingLost w
  guarded : (∃ e ∈ w.file.pageCache.entries, e.2.dirty = true) → WillFlush w.refs

omit hio in
theorem willFlush_of_live {refs : List HandlePhase} {k : Nat} (h : refs[k]? = some .live) :
    WillFlush refs := Or.inl (List.mem_of_getElem? h)

omit hio in
/-- Releasing a reference that does not flush leaves the ones that do. -/
theorem willFlush_eraseIdx {refs : List HandlePhase} {k : Nat}
    (hk : refs[k]? = some .skipped ∨ refs[k]? = some .synced) (h : WillFlush refs) :
    WillFlush (refs.eraseIdx k) := by
  have hother : ∀ phase, phase ∈ refs → phase ≠ .skipped → phase ≠ .synced →
      phase ∈ refs.eraseIdx k := by
    intro phase hmem hs hy
    obtain ⟨j, hj⟩ := List.getElem?_of_mem hmem
    refine List.mem_eraseIdx_iff_getElem?.mpr ⟨j, ?_, hj⟩
    grind
  rcases h with hl | hm
  · exact .inl (hother _ hl (by decide) (by decide))
  · exact .inr (hother _ hm (by decide) (by decide))

omit hio in
/-- **The release step.**  If it destroys the cache, nobody was left to flush,
so no page was dirty. -/
theorem dropRelease_guarded {w : Handles} {k : Nat} (h : DirtyIsGuarded w)
    (hk : w.refs[k]? = some .skipped ∨ w.refs[k]? = some .synced) :
    DirtyIsGuarded { file := if w.refs.length = 1 then destroyShared w.file else w.file
                     refs := w.refs.eraseIdx k } := by
  by_cases hlast : w.refs.length = 1
  · have hklt : k < w.refs.length := by grind
    have hnil : w.refs.eraseIdx k = [] := by
      apply List.eq_nil_of_length_eq_zero
      rw [List.length_eraseIdx_of_lt hklt]
      omega
    have hclean : ∀ e ∈ w.file.pageCache.entries, e.2.dirty = false := by
      intro e he
      cases hd : e.2.dirty with
      | false => rfl
      | true =>
        have hf := willFlush_eraseIdx hk (h.guarded ⟨e, he, hd⟩)
        rw [hnil] at hf
        rcases hf with hm | hm
        · cases hm
        · cases hm
    simp only [if_pos hlast]
    refine ⟨(destroyShared_drops w.file hclean).trans h.nothingLost, ?_⟩
    rintro ⟨e, he, -⟩
    cases he
  · simp only [if_neg hlast]
    exact ⟨h.nothingLost, fun hd => willFlush_eraseIdx hk (h.guarded hd)⟩

/-- **One step keeps the invariant** when every skipped flush leaves somebody
behind. -/
theorem handleStep_guarded {w w' : Handles} {i : HandleStep} (h : DirtyIsGuarded w)
    (hok : SomeoneElseStays w i) (hs : handleStep env w i = some w') : DirtyIsGuarded w' := by
  cases i with
  | getOrCreate =>
    simp only [handleStep, Option.some.injEq] at hs
    subst hs
    exact ⟨h.nothingLost, fun _ => .inl (by simp)⟩
  | clone k =>
    obtain ⟨-, rfl⟩ := guard_eq_some hs
    exact ⟨h.nothingLost, fun _ => .inl (by simp)⟩
  | call k op =>
    obtain ⟨hlive, rfl⟩ := guard_eq_some hs
    have htrace := (stateAfter_of_ends (exec_trace op (fun _ _ => trivial) (.refl env _ w.file))).1
    exact ⟨(trace_drops hio htrace).trans h.nothingLost, fun _ => willFlush_of_live hlive⟩
  | faultIn k pn =>
    obtain ⟨hlive, rfl⟩ := guard_eq_some hs
    have htraced : Traced env (fun _ => True) w.file w.file (pageOrInsert env pn) :=
      wp_mono (pageOrInsert_trace pn (.refl env _ w.file)) (fun _ _ hq => hq.1)
        (fun _ _ he => he.1.1)
    exact ⟨(trace_drops hio (stateAfter_of_ends htraced)).trans h.nothingLost,
      fun _ => willFlush_of_live hlive⟩
  | markDirty k pn =>
    obtain ⟨hlive, rfl⟩ := guard_eq_some hs
    exact ⟨h.nothingLost, fun _ => willFlush_of_live hlive⟩
  | dropTest k =>
    obtain ⟨hlive, rfl⟩ := guard_eq_some hs
    refine ⟨h.nothingLost, fun _ => ?_⟩
    by_cases hmany : 1 < w.refs.length
    · -- the handle that stays is not the one that moved
      obtain ⟨j, hjk, hj⟩ := hok hmany
      refine willFlush_of_live (k := j) ?_
      show (w.refs.set k _)[j]? = some .live
      rw [List.getElem?_set_ne hjk.symm]
      exact hj
    · simp only [if_neg hmany]
      exact .inr (List.mem_set (getElem?_eq_some_iff.mp hlive).1 _)
  | dropSync k =>
    obtain ⟨-, rfl⟩ := guard_eq_some hs
    have htrace := stateAfter_of_ends (sync_trace false (.refl env (fun _ => True) w.file))
    refine ⟨(trace_drops hio htrace.1).trans h.nothingLost, ?_⟩
    rintro ⟨e, he, -⟩
    simp only [stateAfter_sync hio] at he
    cases he
  | dropRelease k =>
    obtain ⟨hphase, rfl⟩ := guard_eq_some hs
    exact dropRelease_guarded h hphase

end Drops

/-! ## §4. Closing loses nothing, and the race that does. -/

/-- **CLOSING NEVER LOSES WRITTEN DATA in any interleaving in which every drop
that skips the flush leaves a handle behind that has not begun to drop.** -/
theorem close_keeps_written_data (env : Env) (hio : env.NodeOk) (node : Bytes)
    (w : Handles) (hw : Reach (handleStep env) SomeoneElseStays (unopened node) w) :
    NothingLost w := by
  have hinit : DirtyIsGuarded (unopened node) := ⟨rfl, fun ⟨e, he, _⟩ => absurd he List.not_mem_nil⟩
  exact (hw.invariant DirtyIsGuarded hinit (fun s i s' => handleStep_guarded hio)).nothingLost

/-- Two handles closed one after the other: the byte is on disk at the end. -/
theorem closing_in_turn_keeps_the_byte :
    ∃ w, Reach (handleStep dirtyPages) SomeoneElseStays (unopened []) w
      ∧ w.file.node = [65] ∧ w.refs = [] ∧ NothingLost w := by
  obtain ⟨w, hw, hnode, hrefs⟩ : ∃ w, Reach (handleStep dirtyPages) SomeoneElseStays
      (unopened []) w ∧ w.file.node = [65] ∧ w.refs = [] := by
    refine ⟨_, .next (.dropRelease 0) (.next (.dropSync 0) (.next (.dropTest 0)
      (.next (.dropRelease 1) (.next (.dropTest 1) (.next (.call 1 (.writeAt [65] 0))
      (.next (.clone 0) (.next .getOrCreate .start trivial rfl) trivial rfl) trivial rfl)
      (fun _ => ⟨0, by decide, rfl⟩) rfl) trivial rfl) (fun h => absurd h (by decide)) rfl)
      trivial rfl) trivial rfl, rfl, rfl⟩
  exact ⟨w, hw, hnode, hrefs,
    close_keeps_written_data dirtyPages dirtyPages_reliable.toNodeOk [] w hw⟩

/-- **Two handles that are dropped at the same time both skip the flush**: the
byte written through one of them is destroyed with the cache. -/
theorem both_drops_skip_the_flush :
    ∃ w, Reach (handleStep dirtyPages) Always (unopened []) w ∧ ¬ NothingLost w := by
  obtain ⟨w, hw, hc⟩ := exists_reach (handleStep dirtyPages) (unopened [])
    [.getOrCreate, .clone 0, .call 0 (.writeAt [65] 0), .dropTest 0, .dropTest 1,
      .dropRelease 1, .dropRelease 0]
    (fun w => !w.file.dirtyDrops.isEmpty) (by decide)
  refine ⟨w, hw, ?_⟩
  intro hn
  rw [NothingLost] at hn
  rw [hn] at hc
  cases hc

end StarryOS.Fs
