/-
  StarryOS.Fs.HardLinks — TWO NAMES OF ONE INODE.

  `link` makes a second directory-entry object for an inode, and the page cache
  hangs on the object.  Two names that are open at the same time therefore have
  TWO CACHES over one inode: length is shared, pages are not.  On disk the one
  that is flushed last wins; on tmpfs, where pages are the only copy of the
  data, each name has its own contents for good
  (`names_see_each_others_writes`, `second_name_reads_zero`).
-/
import StarryOS.Fs.Volume
import StarryOS.Fs.WriteBack

namespace StarryOS.Fs

open Lib Function

/-! ## §1. The system. -/

/-- A volume and, per inode, the bytes that successful writes have stored. -/
structure Links where
  vol : Volume
  stored : Nat → Nat → Option UInt8

/-- What was promised about an inode, seen through a cache. -/
def Links.view (w : Links) (ino : Nat) (cache : LruCache Nat PageCache) : Tracked where
  file := w.vol.file ino cache
  stored := w.stored ino

/-- What may happen. -/
inductive LinkStep where
  /-- Another name for the inode of entry `k`. -/
  | link (k : Nat)
  | getOrCreate (k : Nat)
  | call (k : Nat) (op : FileOp)
  | drop (k : Nat)

def linkStep (env : Env) (w : Links) : LinkStep → Option Links
  | .link k => do
    let e ← w.vol.entries[k]?
    let name := { e with linked := true, shared := none, handles := 0 }
    return { w with vol := { w.vol with entries := w.vol.entries ++ [name] } }
  | .getOrCreate k => do
    let vol ← getOrCreate env w.vol k
    return { w with vol := vol }
  | .call k op => do
    let (e, st) ← openFile w.vol k
    let vol ← callEntry env w.vol k op
    return {
      vol := vol
      stored := update w.stored e.ino
        (record st (w.stored e.ino) op (execResult env st op)) }
  | .drop k => do
    let vol ← dropHandle env w.vol k
    return { w with vol := vol }

/-- Names that nobody has opened yet. -/
def closedNames (inodes : Nat → Bytes) (inos : List Nat) : Links where
  vol := {
    inodes := inodes
    entries := inos.map (fun ino => ⟨ino, true, ino, none, 0⟩)
    allocs := 0
    ios := 0 }
  stored _ _ := none

/-- A cache is created only while no other name of the inode has one, and every
write-back lands. -/
def oneCacheOk (env : Env) (w : Links) : LinkStep → Bool
  | .link _ => true
  | .getOrCreate k =>
    match w.vol.entries[k]? with
    | some e => e.shared.isSome
        || w.vol.entries.all (fun e' => decide (e'.ino ≠ e.ino) || e'.shared.isNone)
    | none => true
  | .call k op =>
    match openFile w.vol k with
    | some (_, st) => op.fits st && keepsBytes env st op
    | none => true
  | .drop k =>
    match openFile w.vol k with
    | some (e, st) => decide (1 < e.handles) || keepsBytes env st (.sync false)
    | none => true

/-- A read through entry `k` returns what was last written through any name. -/
def SeesAllWrites (env : Env) (w : Links) (k n off : Nat) : Prop :=
  ∀ e st, openFile w.vol k = some (e, st) →
    ReadsBack env { file := st, stored := w.stored e.ino } n off

/-! ## §2. One view per inode. -/

/-- At most one name of an inode has a cache, and that cache (or, without one,
the inode itself) keeps every promise. -/
@[grind cases] structure OneView (env : Env) (w : Links) : Prop where
  single : ∀ (j k : Nat) (e e' : Entry), w.vol.entries[j]? = some e → w.vol.entries[k]? = some e' →
    e.ino = e'.ino → e.shared ≠ none → e'.shared ≠ none → j = k
  live : ∀ (k : Nat) (e : Entry) cache, w.vol.entries[k]? = some e → e.shared = some cache →
    PromisesKept env (w.view e.ino cache)
  idle : ∀ ino, (∀ (k : Nat) (e : Entry), w.vol.entries[k]? = some e → e.ino = ino →
    e.shared = none) →
    PromisesKept env (w.view ino (newShared env.inMemory))

section Invariant

variable {env : Env} {w w' : Links} {k : Nat} {e e' : Entry}

/-- Promises depend on the node, on the cached pages and on the record. -/
theorem PromisesKept.congr {s s' : Tracked} (h : PromisesKept env s)
    (hnode : s'.file.node = s.file.node)
    (hcache : ∀ pn, s'.file.pageCache.peek pn = s.file.pageCache.peek pn)
    (hstored : s'.stored = s.stored) : PromisesKept env s' where
  small := by
    rw [hnode]
    exact h.small
  held i b hb := by
    rw [hstored] at hb
    have hold := h.held i b hb
    exact hold.transfer (by rw [hnode]; exact hold.inside) (by rw [hnode]) (hcache _)

/-- The other names of an inode have no cache while one has. -/
theorem OneView.alone (h : OneView env w) (he : w.vol.entries[k]? = some e)
    (hlive : e.shared ≠ none) (j : Nat) (e' : Entry) (hj : j ≠ k)
    (he' : w.vol.entries[j]? = some e') (hino : e'.ino = e.ino) : e'.shared = none := by
  by_contra hne
  exact hj (h.single j k e' e he' he hino hne hlive)

/-- **One entry changes.**  It is the only name of its inode with a cache, so
nothing else looks at what it changed. -/
theorem OneView.replace (h : OneView env w) (he : w.vol.entries[k]? = some e)
    (hentries : w'.vol.entries = w.vol.entries.set k e') (hino : e'.ino = e.ino)
    (halone : ∀ (j : Nat) (e'' : Entry), j ≠ k → w.vol.entries[j]? = some e'' → e''.ino = e.ino →
      e''.shared = none) (hother : ∀ ino, ino ≠ e.ino → w'.vol.inodes ino = w.vol.inodes ino
      ∧ w'.stored ino = w.stored ino)
    (hnew : PromisesKept env (w'.view e.ino (e'.shared.getD (newShared env.inMemory)))) :
    OneView env w' := by
  have hself : w'.vol.entries[k]? = some e' := by
    rw [hentries, List.getElem?_set_self (getElem?_eq_some_iff.mp he).1]
  have hrest : ∀ j, j ≠ k → w'.vol.entries[j]? = w.vol.entries[j]? := by
    intro j hj
    rw [hentries, List.getElem?_set_ne hj.symm]
  have hfar : ∀ ino cache, ino ≠ e.ino → PromisesKept env (w.view ino cache) →
      PromisesKept env (w'.view ino cache) := by
    intro ino cache hne hold
    obtain ⟨hi, hs⟩ := hother ino hne
    exact hold.congr hi (fun _ => rfl) hs
  refine ⟨?_, ?_, ?_⟩
  · intro j j' d d' hd hd' hsame hlive hlive'
    by_cases hj : j = k
    · grind
    · grind
  · grind
  · grind

/-! ## §3. The steps. -/

theorem link_oneView (h : OneView env w) {name : Entry} (hname : name.shared = none) :
    OneView env { w with vol := { w.vol with entries := w.vol.entries ++ [name] } } := by
  -- an entry of the longer list with a cache is an old one
  have hold : ∀ (j : Nat) (d : Entry), (w.vol.entries ++ [name])[j]? = some d → d.shared ≠ none →
      w.vol.entries[j]? = some d := by grind
  refine ⟨?_, ?_, ?_⟩
  · grind
  · intro j d cache hd hcache
    exact h.live j d cache (hold j d hd (by rw [hcache]; simp)) hcache
  · intro ino hidle
    apply h.idle
    grind

theorem getOrCreate_oneView {vol : Volume} (h : OneView env w)
    (hok : oneCacheOk env w (.getOrCreate k) = true)
    (hs : getOrCreate env w.vol k = some vol) : OneView env { w with vol := vol } := by
  obtain ⟨e, he, rfl⟩ := getOrCreate_cases hs
  simp only [oneCacheOk, he, Bool.or_eq_true] at hok
  cases hshared : e.shared with
  | some cache =>
    refine h.replace he rfl rfl (h.alone he (by rw [hshared]; simp)) (fun _ _ => ⟨rfl, rfl⟩) ?_
    exact (h.live k e cache he hshared).congr rfl (fun _ => rfl) rfl
  | none =>
    rw [hshared, List.all_eq_true] at hok
    -- nobody else has a cache: the new one starts from the inode
    have hnone : ∀ (j : Nat) (e' : Entry), w.vol.entries[j]? = some e' → e'.ino = e.ino →
      e'.shared = none := by
      intro j e' he' hino
      have hcheck := (hok.resolve_left (by simp)) e' (List.mem_of_getElem? he')
      simpa [hino] using hcheck
    refine h.replace he rfl rfl (fun j e' _ => hnone j e') (fun _ _ => ⟨rfl, rfl⟩) ?_
    exact (h.idle e.ino hnone).congr rfl (fun _ => rfl) rfl

theorem call_oneView {vol : Volume} {op : FileOp} {st : FileState} (h : OneView env w)
    (hopen : openFile w.vol k = some (e, st)) (hfits : op.fits st = true)
    (hkeeps : keepsBytes env st op = true) (hs : callEntry env w.vol k op = some vol) :
    OneView env {
      vol := vol
      stored := update w.stored e.ino
        (record st (w.stored e.ino) op (execResult env st op)) } := by
  obtain ⟨e', st', hopen', rfl⟩ := callEntry_cases hs
  rw [hopen] at hopen'
  obtain ⟨rfl, rfl⟩ := Prod.mk.inj (Option.some.inj hopen')
  obtain ⟨he, -, cache, hshared, hst⟩ := openFile_cases hopen
  have hkept : PromisesKept env { file := st, stored := w.stored e.ino } := by
    rw [hst]
    exact h.live k e cache he hshared
  have hkept' := trackedStep_kept hkept
    (show writeBacksLand env _ op = true by rw [writeBacksLand, hfits, hkeeps]; rfl) rfl
  refine h.replace he rfl rfl (h.alone he (by rw [hshared]; simp)) ?_ ?_
  · intro ino hne
    exact ⟨store_inodes_ne hne, update_of_ne hne _ _⟩
  · refine hkept'.congr ?_ (fun _ => rfl) ?_
    · exact update_self _ _ _
    · exact update_self _ _ _

/-- A flush keeps every promise and, on disk, empties the cache. -/
theorem PromisesKept.flush {st : FileState} {stored : Nat → Option UInt8}
    (h : PromisesKept env { file := st, stored := stored })
    (hok : keepsBytes env st (.sync false) = true) :
    PromisesKept env { file := stateAfter (sync env false) st, stored := stored }
      ∧ (env.inMemory = false → (stateAfter (sync env false) st).pageCache.entries = []) := by
  have hkeeps : ends (sync env false) st _ := sync_keeps hok
  obtain ⟨hkeep, hempty⟩ := stateAfter_of_ends hkeeps
  refine ⟨⟨?_, fun i b hb => hkeep i b (h.held i b hb)⟩, hempty⟩
  show (stateAfter (sync env false) st).node.length ≤ maxEnd
  rw [(stateAfter_of_ends (sync_trace false (.refl env (fun _ => True) st))).2]
  exact h.small

/-- Flushing the last handle moves every promise into the inode. -/
theorem drop_oneView {vol : Volume} (h : OneView env w)
    (hok : oneCacheOk env w (.drop k) = true) (hs : dropHandle env w.vol k = some vol) :
    OneView env { w with vol := vol } := by
  obtain ⟨e, st, hopen, hcases⟩ := dropHandle_cases hs
  obtain ⟨he, -, cache, hshared, hst⟩ := openFile_cases hopen
  have halone := h.alone he (by rw [hshared]; simp)
  have hkept : PromisesKept env { file := st, stored := w.stored e.ino } := by
    rw [hst]
    exact h.live k e cache he hshared
  rcases hcases with ⟨hmany, rfl⟩ | ⟨hlast, rfl⟩
  · refine h.replace he rfl rfl halone (fun _ _ => ⟨rfl, rfl⟩) ?_
    simp only [hshared, Option.getD_some]
    exact (h.live k e cache he hshared).congr rfl (fun _ => rfl) rfl
  simp only [oneCacheOk, hopen, Bool.or_eq_true, decide_eq_true_eq] at hok
  have hflushed := hkept.flush (hok.resolve_left (by omega))
  refine h.replace he rfl rfl halone (fun ino hne => ⟨store_inodes_ne hne, rfl⟩) ?_
  refine hflushed.1.congr (update_self _ _ _) ?_ rfl
  -- the cache stays on tmpfs and is empty on disk
  intro pn
  show LruCache.peek (Option.getD (if env.inMemory = true then _ else none) _) pn = _
  cases hmem : env.inMemory with
  | true => rfl
  | false =>
    have hnone : (stateAfter (sync env false) st).pageCache.peek pn = none := by
      rw [LruCache.peek_eq_none_iff, hflushed.2 hmem]
      exact fun _ => List.not_mem_nil
    exact hnone.symm

theorem linkStep_oneView {i : LinkStep} (h : OneView env w) (hok : oneCacheOk env w i = true)
    (hs : linkStep env w i = some w') : OneView env w' := by
  cases i with
  | link k =>
    obtain ⟨e, -, rfl⟩ := bind_pure_eq_some hs
    exact link_oneView h rfl
  | getOrCreate k =>
    obtain ⟨vol, hvol, rfl⟩ := bind_pure_eq_some hs
    exact getOrCreate_oneView h hok hvol
  | call k op =>
    simp only [linkStep, Option.bind_eq_bind, Option.bind_eq_some_iff] at hs
    obtain ⟨⟨e, st⟩, hopen, vol, hvol, hw⟩ := hs
    cases hw
    simp only [oneCacheOk, hopen, Bool.and_eq_true] at hok
    exact call_oneView h hopen hok.1 hok.2 hvol
  | drop k =>
    obtain ⟨vol, hvol, rfl⟩ := bind_pure_eq_some hs
    exact drop_oneView h hok hvol

end Invariant

theorem closedNames_oneView (env : Env) (inodes : Nat → Bytes) (inos : List Nat)
    (hsmall : ∀ ino, (inodes ino).length ≤ maxEnd) : OneView env (closedNames inodes inos) := by
  have hclosed : ∀ (k : Nat) (e : Entry), (closedNames inodes inos).vol.entries[k]? = some e →
    e.shared = none := by
    intro k e he
    have hmem := List.mem_of_getElem? he
    obtain ⟨ino, -, rfl⟩ := List.mem_map.mp hmem
    rfl
  refine ⟨?_, ?_, ?_⟩
  · intro j k e e' he _ _ hlive _
    exact absurd (hclosed j e he) hlive
  · intro k e cache he hcache
    rw [hclosed k e he] at hcache
    cases hcache
  · intro ino _
    exact ⟨hsmall ino, fun i b hb => absurd hb (by simp [Links.view, closedNames])⟩

/-! ## §4. Whole runs. -/

/-- **EVERY NAME SEES WHAT ANY NAME WROTE in every run that never has two caches
over one inode**, on disk and on tmpfs. -/
theorem names_see_each_others_writes (env : Env) (inodes : Nat → Bytes) (inos : List Nat)
    (hsmall : ∀ ino, (inodes ino).length ≤ maxEnd) (w : Links)
    (hw : Reach (linkStep env) (fun w i => oneCacheOk env w i = true)
      (closedNames inodes inos) w) (k n off : Nat)
    (hread : oneCacheOk env w (.call k (.readAt n off)) = true) : SeesAllWrites env w k n off := by
  have hview := hw.invariant (OneView env) (closedNames_oneView env inodes inos hsmall)
    (fun _ _ _ => linkStep_oneView)
  intro e st hopen
  obtain ⟨he, -, cache, hshared, hst⟩ := openFile_cases hopen
  have hkept : PromisesKept env { file := st, stored := w.stored e.ino } := by
    rw [hst]
    exact hview.live k e cache he hshared
  simp only [oneCacheOk, hopen] at hread
  exact hkept.readsBack hread

/-- A byte written through one name and closed is read through the other. -/
theorem linked_name_reads_the_flushed_byte :
    ∃ w, Reach (linkStep (faultless false)) (fun w i => oneCacheOk (faultless false) w i = true)
        (closedNames (fun _ => []) [7]) w
      ∧ w.stored 7 0 = some 65 ∧ SeesAllWrites (faultless false) w 1 1 0 := by
  obtain ⟨w, hw, hc⟩ := exists_reach_guarded (linkStep (faultless false))
    (closedNames (fun _ => []) [7]) (oneCacheOk (faultless false))
    [.link 0, .getOrCreate 0, .call 0 (.writeAt [65] 0), .drop 0, .getOrCreate 1]
    (fun w => w.stored 7 0 = some 65 ∧ oneCacheOk (faultless false) w (.call 1 (.readAt 1 0)))
    (by decide +kernel)
  exact ⟨w, hw, hc.1, names_see_each_others_writes (faultless false)
    (fun _ => []) [7] (fun _ => by decide) w hw 1 1 0 hc.2⟩

/-- Both names are open, one byte is written through the first. -/
def twoOpenNames : List LinkStep :=
  [.link 0, .getOrCreate 0, .getOrCreate 1, .call 0 (.writeAt [65] 0)]

/-- **The second name reads zero**, on disk and on tmpfs: the length has grown,
the byte is in the other cache. -/
theorem second_name_reads_zero :
    (∃ w, Reach (linkStep (faultless false)) Always (closedNames (fun _ => []) [7]) w
      ∧ ¬ SeesAllWrites (faultless false) w 1 1 0)
    ∧ ∃ w, Reach (linkStep (faultless true)) Always (closedNames (fun _ => []) [7]) w
      ∧ ¬ SeesAllWrites (faultless true) w 1 1 0 := by
  -- the same run on both kinds of volume
  have hrun : ∀ inMemory, (runs (linkStep (faultless inMemory)) (closedNames (fun _ => []) [7])
      twoOpenNames).any (fun w => w.stored 7 0 = some 65 ∧ ∃ p ∈ openFile w.vol 1, p.1.ino = 7 ∧
        execResult (faultless inMemory) p.2 (.readAt 1 0) = .ok (.read [0])) = true →
      ∃ w, Reach (linkStep (faultless inMemory)) Always (closedNames (fun _ => []) [7]) w
        ∧ ¬ SeesAllWrites (faultless inMemory) w 1 1 0 := by
    intro inMemory hcheck
    obtain ⟨w, hw, hstored, ⟨e, st⟩, hopen, hino, hres⟩ :=
      exists_reach _ _ twoOpenNames _ hcheck
    refine ⟨w, hw, ?_⟩
    intro hsees
    have hbyte := hsees e st hopen [0] hres 0 65 (by rw [hino]; exact hstored) (Nat.le_refl 0)
      (by decide)
    cases hbyte
  exact ⟨hrun false (by decide +kernel), hrun true (by decide +kernel)⟩

end StarryOS.Fs
