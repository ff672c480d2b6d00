/-
  StarryOS.Fs.TruncatingOpen — OPENING A FILE WITH `truncate(true)`
  (`OpenOptions::_open`).

  The open path cuts the NODE to length zero and only then looks up the page
  cache.  `CachedFile::set_len(0)` would also have discarded the cached pages
  beyond the first; here they stay, beyond the end of the file, and show their
  old bytes again as soon as the file grows over them.  On disk that needs a
  handle that keeps the cache alive; on tmpfs the cache never goes away
  (`truncating_open_truncates`, `stale_page_returns_after_truncating_open`).
-/
import StarryOS.Fs.CachedRefinement
import StarryOS.Fs.Volume
import StarryOS.Lib.Transition

namespace StarryOS.Fs

open Lib Function

/-! ## §1. The system. -/

/-- `OpenOptions::_open` of the file of entry `k`. -/
def openEntry (env : Env) (v : Volume) (k : Nat) (truncate : Bool) : Option Volume := do
  let e ← v.entries[k]?
  if truncate then
    -- `loc.entry().as_file()?.set_len(0)?`, past the cache
    match nodeSetLen env 0 (v.file e.ino (e.shared.getD (newShared env.inMemory))) with
    | .ok _ st => getOrCreate env { v with
        inodes := update v.inodes e.ino st.node
        ios := st.ios } k
    | .error _ st => return { v with ios := st.ios }
  else
    getOrCreate env v k

/-- One file of a volume and the string it should show. -/
structure Reopened where
  vol : Volume
  ref : Bytes

/-- What may happen. -/
inductive ReopenStep where
  | open (truncate : Bool)
  | call (op : FileOp)
  | drop

def reopenStep (env : Env) (w : Reopened) : ReopenStep → Option Reopened
  | .open truncate => do
    let vol ← openEntry env w.vol 0 truncate
    let cut := truncate && !(env.io w.vol.ios).isErr
    return { vol := vol, ref := if cut then [] else w.ref }
  | .call op => do
    let vol ← callEntry env w.vol 0 op
    return { vol := vol, ref := (refExec w.ref op).2 }
  | .drop => do
    let vol ← dropHandle env w.vol 0
    return { w with vol := vol }

/-- The file of inode `ino`, not opened yet.  A tmpfs node has a length and no
bytes of its own. -/
def notOpened (inMemory : Bool) (inodes : Nat → Bytes) (ino : Nat) : Reopened where
  vol := {
    inodes := inodes
    entries := [⟨ino, true, 0, none, 0⟩]
    allocs := 0
    ios := 0 }
  ref := if inMemory then List.replicate (inodes ino).length 0 else inodes ino

/-- Every handle reads the reference. -/
def ReadsReference (env : Env) (w : Reopened) : Prop :=
  ∀ e st, openFile w.vol 0 = some (e, st) → ∀ n off, off + n < 2 ^ 64 →
    execResult env st (.readAt n off) = .ok (.read (slice w.ref off n))

/-- No page beyond the first is cached when the file is truncated, and the calls
are safe in the sense of `StepSafe`. -/
def truncatesClean (w : Reopened) : ReopenStep → Prop
  | .open truncate => truncate = true → ∀ e ∈ w.vol.entries[0]?, ∀ cache ∈ e.shared,
      ∀ pn ∈ cache.keys, pn = 0
  | .call op => ∀ p ∈ openFile w.vol 0, StepSafe p.2 op
  | .drop => True

instance (w : Reopened) : (i : ReopenStep) → Decidable (truncatesClean w i)
  | .open truncate => inferInstanceAs (Decidable (truncate = true → ∀ e ∈ w.vol.entries[0]?,
      ∀ cache ∈ e.shared, ∀ pn ∈ cache.keys, pn = 0))
  | .call op => inferInstanceAs (Decidable (∀ p ∈ openFile w.vol 0, StepSafe p.2 op))
  | .drop => inferInstanceAs (Decidable True)

/-! ## §2. The invariant. -/

/-- The entry shows the reference: through its cache, or through a new one. -/
structure ShowsReference (env : Env) (w : Reopened) : Prop where
  small : w.ref.length ≤ maxEnd
  shows : ∀ e, w.vol.entries[0]? = some e →
    Shows env (w.vol.file e.ino (e.shared.getD (newShared env.inMemory))) w.ref 0 0

section Invariant

variable {env : Env} {w w' : Reopened}

/-- **A truncating open with nothing cached beyond the first page does what
`set_len(0)` does.** -/
theorem truncated_resized {st : FileState} {ios : Nat}
    (hclean : ∀ pn page, st.pageCache.peek pn = some page → pn = 0) :
    Resized 0 st { st with node := resize 0 0 st.node, ios := ios } where
  length := length_resize _ _ _
  node j hj := absurd hj (Nat.not_lt_zero j)
  cap := rfl
  grown hlt := absurd hlt (Nat.not_lt_zero _)
  cut _ pn := by
    split
    next hbeyond =>
      cases hp : st.pageCache.peek pn with
      | none => rfl
      | some page =>
        have hzero := hclean pn page hp
        rw [Nat.zero_div] at hbeyond
        omega
    · rfl

/-- `get_or_create` shows what was shown before. -/
theorem getOrCreate_shows {v v' : Volume} {k : Nat} {s : Bytes} (h : ∀ e, v.entries[k]? = some e →
      Shows env (v.file e.ino (e.shared.getD (newShared env.inMemory))) s 0 0)
    (hs : getOrCreate env v k = some v') : ∀ e, v'.entries[k]? = some e →
      Shows env (v'.file e.ino (e.shared.getD (newShared env.inMemory))) s 0 0 := by
  obtain ⟨e, he, rfl⟩ := getOrCreate_cases hs
  intro e' he'
  rw [List.getElem?_set_self (getElem?_eq_some_iff.mp he).1] at he'
  cases he'
  exact (h e he).congr rfl rfl

theorem open_showsReference (hf : env.Faultless) (h : ShowsReference env w) {truncate : Bool}
    {vol : Volume} (hok : truncatesClean w (.open truncate))
    (hs : openEntry env w.vol 0 truncate = some vol) :
    ShowsReference env { vol := vol
                         ref := if truncate && !(env.io w.vol.ios).isErr then [] else w.ref } := by
  simp only [openEntry, Option.bind_eq_bind, Option.bind_eq_some_iff] at hs
  obtain ⟨e, he, hs⟩ := hs
  cases truncate with
  | false => exact ⟨h.small, getOrCreate_shows h.shows hs⟩
  | true =>
    have hset : nodeSetLen env 0 (w.vol.file e.ino (e.shared.getD (newShared env.inMemory)))
        = .ok () { w.vol.file e.ino (e.shared.getD (newShared env.inMemory)) with
            node := resize 0 0 (w.vol.inodes e.ino), ios := w.vol.ios + 1 } := by
      obtain ⟨_, st', hrun, rfl⟩ := exists_of_wp (wp_mono_err (nodeSetLen_effect env 0
        (w.vol.file e.ino (e.shared.getD (newShared env.inMemory))))
        (fun _ _ hpost => no_isErr hf ⟨_, hpost.2⟩))
      exact hrun
    rw [hset] at hs
    rw [show (true && !(env.io w.vol.ios).isErr) = true by rw [hf.io]; rfl]
    refine ⟨Nat.zero_le _, getOrCreate_shows ?_ hs⟩
    intro e' he'
    have heq : e' = e := Option.some.inj (he'.symm.trans he)
    subst heq
    -- a cache that is not there yet has no page at all
    have hclean : ∀ (pn : Nat) (page : PageCache),
        (e'.shared.getD (newShared env.inMemory)).peek pn = some page → pn = 0 := by
      intro pn page hp
      generalize hshared : e'.shared = p at hp
      cases p with
      | none =>
        have hnone : (newShared env.inMemory).peek pn = none := by
          unfold newShared
          split
          · rfl
          · rfl
        cases hp.symm.trans hnone
      | some cache => exact hok rfl e' he cache hshared pn ((cache.mem_keys_iff pn).mpr ⟨page, hp⟩)
    have hres : Resized 0 (w.vol.file e'.ino (e'.shared.getD (newShared env.inMemory)))
        { w.vol.file e'.ino (e'.shared.getD (newShared env.inMemory)) with
            node := resize 0 0 (w.vol.inodes e'.ino), ios := w.vol.ios + 1 } :=
      truncated_resized hclean
    have hshows := hres.shows (h.shows e' he)
    rw [show resize 0 0 w.ref = [] from List.length_eq_zero_iff.mp (length_resize _ _ _)] at hshows
    refine Shows.congr hshows ?_ rfl
    exact update_self _ _ _

/-- What the handles of the entry work on shows the reference. -/
theorem ShowsReference.openFile (h : ShowsReference env w) {e : Entry} {st : FileState}
    (hopen : openFile w.vol 0 = some (e, st)) : Shows env st w.ref 0 0 := by
  obtain ⟨he, -, cache, hshared, rfl⟩ := openFile_cases hopen
  have hshows := h.shows e he
  rw [hshared] at hshows
  exact hshows

variable (hf : env.Faultless) (h : ShowsReference env w)
include hf h

theorem call_showsReference {op : FileOp} {vol : Volume} (hok : truncatesClean w (.call op))
    (hs : callEntry env w.vol 0 op = some vol) :
    ShowsReference env { vol := vol, ref := (refExec w.ref op).2 } := by
  obtain ⟨e, st, hopen, rfl⟩ := callEntry_cases hs
  have hshows := h.openFile hopen
  have hsafe : StepSafe st op := hok _ hopen
  obtain ⟨r, st', hexec, h', -⟩ := exists_of_wp (exec_shows hf hshows h.small hsafe)
  have hstate : execState env st op = st' := by
    unfold execState stateAfter
    rw [hexec]
  refine ⟨refExec_le_maxEnd hshows.len h.small hsafe, ?_⟩
  intro e' he'
  have hlt := (getElem?_eq_some_iff.mp (openFile_cases hopen).1).1
  rw [show (w.vol.store 0 _ _).entries = w.vol.entries.set 0 _ from rfl,
      List.getElem?_set_self hlt] at he'
  cases he'
  rw [hstate]
  exact h'.congr (update_self _ _ _) rfl

theorem drop_showsReference {vol : Volume}
    (hs : dropHandle env w.vol 0 = some vol) : ShowsReference env { w with vol := vol } := by
  obtain ⟨e, st, hopen, hcases⟩ := dropHandle_cases hs
  have hshows := h.openFile hopen
  obtain ⟨he, -, cache, hshared, hst⟩ := openFile_cases hopen
  have hlt := (getElem?_eq_some_iff.mp he).1
  refine ⟨h.small, ?_⟩
  intro e' he'
  rcases hcases with ⟨-, rfl⟩ | ⟨-, rfl⟩
  · rw [List.getElem?_set_self hlt] at he'
    cases he'
    exact (h.shows e he).congr rfl rfl
  rw [show (w.vol.store 0 _ _).entries = w.vol.entries.set 0 _ from rfl,
      List.getElem?_set_self hlt] at he'
  cases he'
  obtain ⟨_, st', hsync, h', hempty⟩ := exists_of_wp (wp_mono_err
    (wp_and (sync_shows hf hshows) (sync_returns hf.io false st))
    (fun _ _ he => he.1))
  have hstate : stateAfter (sync env false) st = st' := by
    unfold stateAfter
    rw [hsync]
  rw [hstate]
  cases hmem : env.inMemory with
  | true => exact h'.congr (update_self _ _ _) rfl
  | false =>
    -- the flushed cache is dropped; the next one is as empty
    refine (Shows.recache h' (hempty hmem) hmem (newShared false) (fun _ => rfl)).congr
      (update_self _ _ _) rfl

theorem reopenStep_showsReference {i : ReopenStep} (hok : truncatesClean w i)
    (hs : reopenStep env w i = some w') : ShowsReference env w' := by
  cases i with
  | «open» truncate =>
    obtain ⟨vol, hvol, rfl⟩ := bind_pure_eq_some hs
    exact open_showsReference hf h hok hvol
  | call op =>
    obtain ⟨vol, hvol, rfl⟩ := bind_pure_eq_some hs
    exact call_showsReference hf h hok hvol
  | drop =>
    obtain ⟨vol, hvol, rfl⟩ := bind_pure_eq_some hs
    exact drop_showsReference hf h hvol

end Invariant

theorem notOpened_showsReference (env : Env) (inodes : Nat → Bytes) (ino : Nat)
    (hsmall : (inodes ino).length ≤ maxEnd) :
    ShowsReference env (notOpened env.inMemory inodes ino) := by
  have hlen : (notOpened env.inMemory inodes ino).ref.length = (inodes ino).length := by
    unfold notOpened
    split
    · exact List.length_replicate
    · rfl
  have hpeek : ∀ pn, (newShared env.inMemory).peek pn = none := by
    intro pn
    unfold newShared
    split
    · rfl
    · rfl
  refine ⟨by rw [hlen]; exact hsmall, ?_⟩
  intro e he
  obtain rfl : (⟨ino, true, 0, none, 0⟩ : Entry) = e := Option.some.inj he
  refine ⟨hlen.symm, ?_, ?_, ?_⟩
  · intro i hi _
    rw [hlen] at hi
    apply Holds.of_uncached hi (hpeek _)
    unfold FileState.backing notOpened
    split
    · rw [List.getD_eq_getElem?_getD, List.getElem?_replicate]
      split <;> rfl
    · rfl
  · intro pn page hp
    cases (hp.symm.trans (hpeek pn))
  · intro hmem
    show 2 ^ 32 < (newShared env.inMemory).cap
    rw [hmem]
    decide

/-! ## §3. Whole runs. -/

/-- **A TRUNCATING OPEN IS A TRUNCATION in every run that has no page beyond the
first cached when it happens**: every handle, old and new, reads the reference. -/
theorem truncating_open_truncates (env : Env) (hf : env.Faultless) (inodes : Nat → Bytes)
    (ino : Nat) (hsmall : (inodes ino).length ≤ maxEnd) (w : Reopened)
    (hw : Reach (reopenStep env) truncatesClean (notOpened env.inMemory inodes ino) w) :
    ReadsReference env w := by
  have hinv := hw.invariant (ShowsReference env) (notOpened_showsReference env inodes ino hsmall)
    (fun _ _ _ h hok hs => reopenStep_showsReference hf h hok hs)
  intro e st hopen n off hn
  obtain ⟨r, st', hexec, -, hres⟩ := exists_of_wp
    (exec_shows hf (hinv.openFile hopen) hinv.small (show StepSafe st (.readAt n off) from hn))
  unfold execResult
  rw [hexec, hres]
  rfl

/-- One page written, truncated by a second open, grown again: the old handle and
the new one read zeros. -/
theorem truncated_page_reads_zero :
    ∃ w, Reach (reopenStep (faultless false)) truncatesClean (notOpened false (fun _ => []) 7) w
      ∧ w.ref = [0] ∧ (openFile w.vol 0).isSome = true ∧ ReadsReference (faultless false) w := by
  obtain ⟨w, hw, hc⟩ := exists_reach_guarded (reopenStep (faultless false))
    (notOpened false (fun _ => []) 7) (fun w i => decide (truncatesClean w i))
    [.open false, .call (.writeAt [65] 0), .open true, .call (.setLen 1)]
    (fun w => w.ref = [0] ∧ (openFile w.vol 0).isSome) (by decide +kernel)
    (fun _ _ => of_decide_eq_true)
  exact ⟨w, hw, hc.1, hc.2, truncating_open_truncates (faultless false)
    ⟨fun _ => rfl, fun _ => rfl⟩ (fun _ => []) 7 (by decide) w hw⟩

/-- A byte is written to the second page, the file is truncated by an open and
grown again.  `close` says whether the writer closes its handle before that. -/
def truncateAndGrow (close : Bool) : List ReopenStep :=
  [.open false, .call (.writeAt [65] 4096)] ++ (if close then [.drop] else [])
    ++ [.open true, .call (.setLen 4097)]

/-- **The byte is back**: on disk while the writer's handle is open, on tmpfs even
after every handle was closed. -/
theorem stale_page_returns_after_truncating_open :
    (∃ w, Reach (reopenStep (faultless false)) Always (notOpened false (fun _ => []) 7) w
      ∧ ¬ ReadsReference (faultless false) w)
    ∧ ∃ w, Reach (reopenStep (faultless true)) Always (notOpened true (fun _ => []) 7) w
      ∧ ¬ ReadsReference (faultless true) w := by
  -- the reference has a zero where the old byte is read
  have hrun : ∀ inMemory close, (runs (reopenStep (faultless inMemory))
      (notOpened inMemory (fun _ => []) 7) (truncateAndGrow close)).any
        (fun w => slice w.ref 4096 1 = [0] ∧ ∃ p ∈ openFile w.vol 0,
          execResult (faultless inMemory) p.2 (.readAt 1 4096) = .ok (.read [65])) = true →
      ∃ w, Reach (reopenStep (faultless inMemory)) Always (notOpened inMemory (fun _ => []) 7) w
        ∧ ¬ ReadsReference (faultless inMemory) w := by
    intro inMemory close hcheck
    obtain ⟨w, hw, hzero, ⟨e, st⟩, hopen, hres⟩ :=
      exists_reach _ _ (truncateAndGrow close) _ hcheck
    refine ⟨w, hw, ?_⟩
    intro hreads
    have hbytes := hreads e st hopen 1 4096 (by decide)
    rw [hres, hzero] at hbytes
    cases hbytes
  exact ⟨hrun false false (by decide +kernel), hrun true true (by decide +kernel)⟩

end StarryOS.Fs
