/-
  StarryOS.Mm.FileListeners — WHAT AN EVICTION LEAVES MAPPED.

  `BackedBut X` is the invariant of shared file mappings, with a hole: every
  present entry lies in a file area, and, unless its key is in `X`, maps the
  page that the file's cache holds under the page number of its address.  The
  hole is what a fault opens between the eviction of a page and the callback
  that unmaps it.

  Everything that happens to page tables, files and areas is one of four
  changes, and each has one lemma:

    • `shrink`    — entries go (an unmap, a listener, the callback),
    • `setFile`   — the cache of a file changes,
    • `insertPte` — an entry comes, or gets new flags,
    • `withAreas` — the areas of a space change.

  An entry of an evicted page is gone afterwards if nobody holds the lock of its
  space (`listeners_unmap`).
-/
import StarryOS.Fs.CacheTrace
import StarryOS.Mm.FileBackend
import StarryOS.Mm.AddrSpaceRules

namespace StarryOS.Mm.FileMap

open Lib Fs AreaSet Table

/-! ## §1. Which page an address shows. -/

/-- Address `v` of space `s` lies in an area of the mapping `i`. -/
def AreaAt (st : FileSt) (s v i : Nat) (inner : FileBackendInner) : Prop :=
  ∃ sp a, st.spaces[s]? = some sp ∧ a ∈ sp.areas.areas ∧ a.Has v ∧ a.backend = .file i
    ∧ st.mem.inners[i]? = some inner

/-- Address `v` of space `s` shows page `pn` of file `f`, through mapping `i`. -/
def Shows (st : FileSt) (s v i f pn : Nat) : Prop :=
  ∃ inner, AreaAt st s v i inner ∧ inner.file = f ∧ pageNo inner v = pn

variable {s v : Nat} {inner : FileBackendInner}

theorem AreaAt.unique {st : FileSt} {i j : Nat} {inner' : FileBackendInner}
    (h : AreaAt st s v i inner) (h' : AreaAt st s v j inner') : i = j ∧ inner = inner' := by
  obtain ⟨sp, a, hsp, ha, hav, hb, hi⟩ := h
  obtain ⟨sp', a', hsp', ha', hav', hb', hi'⟩ := h'
  rw [hsp] at hsp'
  cases hsp'
  rw [eq_of_has ha ha' hav hav', hb'] at hb
  cases hb
  rw [hi] at hi'
  injection hi' with hi'
  exact ⟨rfl, hi'⟩

theorem AreaAt.congr {st st' : FileSt} (hspaces : st'.spaces = st.spaces)
    (hinners : st'.mem.inners = st.mem.inners) {i : Nat} :
    AreaAt st' s v i inner ↔ AreaAt st s v i inner := by
  unfold AreaAt
  rw [hspaces, hinners]

/-- The mapping `inner` fits the area `a` of space `s`: its listener watches
`s`, and the page numbers of the area are below 2^32. -/
@[grind cases] structure Fits (inner : FileBackendInner) (s : Nat)
    (a : MemoryArea Backend) : Prop where
  aspace : inner.aspace = s
  start : inner.start ≤ a.start
  aligned : inner.start % 4096 = 0 ∧ a.start % 4096 = 0 ∧ a.stop % 4096 = 0
  small : inner.offsetPage + (a.stop - inner.start) / 4096 ≤ 2 ^ 32

/-- **`on_evict` computes the address back** from the page number. -/
theorem Fits.address {a : MemoryArea Backend} (h : Fits inner s a) (hv : a.Has v)
    (hal : v % 4096 = 0) : inner.offsetPage ≤ pageNo inner v
      ∧ inner.start + (pageNo inner v - inner.offsetPage) * 4096 = v := by
  obtain ⟨hstart, ⟨hal₀, -, hal₂⟩, hsmall⟩ := And.intro h.start (And.intro h.aligned h.small)
  unfold Area.Has at hv
  have hpn : pageNo inner v = (v - inner.start) / 4096 + inner.offsetPage := by
    unfold pageNo u32
    omega
  omega

/-! ## §2. The invariant. -/

/-- The page that an entry has to map; with `track`, a writable entry of a
disk-backed file has a dirty page. -/
def Backs (env : Env) (track : Prop) (f : Nat) (pte : Pte) (page : PageCache) : Prop :=
  page.addr = pte.paddr
    ∧ (track → pte.flags.write = true → (env.file f).inMemory = true ∨ page.dirty = true)

/-- Every entry lies in a file area, and outside `X` it is backed by the cache. -/
@[grind cases] structure BackedBut (env : Env) (track : Prop) (X : Nat × Nat → Prop)
    (st : FileSt) : Prop where
  areas : ∀ (s : Nat) sp a i, st.spaces[s]? = some sp → a ∈ sp.areas.areas → a.backend = .file i →
    ∃ inner, st.mem.inners[i]? = some inner ∧ Fits inner s a
  opened : ∀ (i : Nat) (inner : FileBackendInner), st.mem.inners[i]? = some inner →
    ∃ fs, st.mem.files[inner.file]? = some fs
  placed : ∀ s v pte, st.mem.ptes.lookup (s, v) = some pte →
    v % 4096 = 0 ∧ ∃ i inner, AreaAt st s v i inner
  shown : ∀ s v pte i inner fs, st.mem.ptes.lookup (s, v) = some pte → ¬ X (s, v) →
    AreaAt st s v i inner → st.mem.files[inner.file]? = some fs →
    ∃ page, fs.pageCache.peek (pageNo inner v) = some page ∧ Backs env track inner.file pte page

/-- The invariant without a hole. -/
def Backed (env : Env) (track : Prop) (st : FileSt) : Prop :=
  BackedBut env track (fun _ => False) st

section Changes

variable {env : Env} {track : Prop} {X Y : Nat × Nat → Prop} {st st' : FileSt}

variable {s v i f : Nat} {inner : FileBackendInner} {α : Type} {held : List Nat}
    {fs fs' : FileState}

section

variable (h : BackedBut env track X st)
include h

/-- The area of an entry, with the mapping that fits it. -/
theorem BackedBut.fits (hat : AreaAt st s v i inner) : ∃ a, a.Has v ∧ Fits inner s a := by
  obtain ⟨sp, a, hsp, ha, hav, hb, hi⟩ := hat
  grind

theorem BackedBut.file_of_areaAt (hat : AreaAt st s v i inner) :
    ∃ fs, st.mem.files[inner.file]? = some fs := by
  obtain ⟨sp, a, -, -, -, -, hi⟩ := hat
  exact h.opened i inner hi

theorem BackedBut.mono (hXY : ∀ key, X key → Y key) : BackedBut env track Y st :=
  ⟨h.areas, h.opened, h.placed, fun s v pte i inner fs hk hY =>
    h.shown s v pte i inner fs hk (fun hx => hY (hXY _ hx))⟩

end

/-! ## §3. Entries go. -/

/-- Nothing changes but that entries go. -/
@[grind cases] structure Shrinks (st st' : FileSt) : Prop where
  spaces : st'.spaces = st.spaces
  inners : st'.mem.inners = st.mem.inners
  files : st'.mem.files = st.mem.files
  locked : st'.mem.locked = st.mem.locked
  ptes : ∀ key pte, st'.mem.ptes.lookup key = some pte → st.mem.ptes.lookup key = some pte

theorem Shrinks.refl (st : FileSt) : Shrinks st st := ⟨rfl, rfl, rfl, rfl, fun _ _ => id⟩

theorem Shrinks.trans {st₁ st₂ st₃ : FileSt} (h : Shrinks st₁ st₂) (h' : Shrinks st₂ st₃) :
    Shrinks st₁ st₃ :=
  ⟨h'.spaces.trans h.spaces, h'.inners.trans h.inners, h'.files.trans h.files,
    h'.locked.trans h.locked, fun key pte hp => h.ptes key pte (h'.ptes key pte hp)⟩

theorem Shrinks.lookup_none (h : Shrinks st st') {key : Nat × Nat}
    (hnone : st.mem.ptes.lookup key = none) : st'.mem.ptes.lookup key = none := by
  cases hl : st'.mem.ptes.lookup key with
  | none => rfl
  | some pte =>
    rw [h.ptes key pte hl] at hnone
    cases hnone

theorem Shrinks.erase (st : FileSt) (key : Nat × Nat) :
    Shrinks st (st.withMem (fun m => { m with ptes := m.ptes.erase key })) := by
  refine ⟨rfl, rfl, rfl, rfl, ?_⟩
  intro key' pte hl
  simp only [MmState.withMem, lookup_erase] at hl
  split at hl
  · cases hl
  · exact hl

theorem Shrinks.foldl {g : FileSt → α → FileSt} (hg : ∀ st x, Shrinks st (g st x)) :
    ∀ (l : List α) (st : FileSt), Shrinks st (l.foldl g st) := by
  intro l
  induction l with
  | nil =>
    intro st
    exact .refl st
  | cons x l ih =>
    intro st
    exact (hg st x).trans (ih (g st x))

/-- An entry that one of the steps erases is gone after the walk. -/
theorem foldl_erases {g : FileSt → α → FileSt} (hg : ∀ st x, Shrinks st (g st x)) {key : Nat × Nat}
    {x : α} : ∀ (l : List α) (st : FileSt), x ∈ l →
      (∀ st', Shrinks st st' → (g st' x).mem.ptes.lookup key = none) →
      (l.foldl g st).mem.ptes.lookup key = none := by
  intro l
  induction l with
  | nil =>
    intro st hx _
    cases hx
  | cons y l ih =>
    intro st hx herase
    rcases List.mem_cons.mp hx with rfl | hx
    · exact (Shrinks.foldl hg l (g st x)).lookup_none (herase st (.refl st))
    · exact ih (g st y) hx (fun st' h' => herase st' ((hg st y).trans h'))

/-- **Fewer entries**: the hole may close over those that are gone. -/
theorem BackedBut.shrink (h : BackedBut env track X st) (hsh : Shrinks st st')
    (hXY : ∀ key pte, st'.mem.ptes.lookup key = some pte → X key → Y key) :
    BackedBut env track Y st' := by
  refine ⟨?_, ?_, ?_, ?_⟩
  · grind
  · intro i inner hi
    rw [hsh.files]
    exact h.opened i inner (hsh.inners ▸ hi)
  · intro s v pte hk
    obtain ⟨hal, i, inner, hat⟩ := h.placed s v pte (hsh.ptes _ _ hk)
    exact ⟨hal, i, inner, (AreaAt.congr hsh.spaces hsh.inners).mpr hat⟩
  · intro s v pte i inner fs hk hX hat hfs
    exact h.shown s v pte i inner fs (hsh.ptes _ _ hk)
      (fun hx => hX (hXY (s, v) pte hk hx)) ((AreaAt.congr hsh.spaces hsh.inners).mp hat)
      (hsh.files ▸ hfs)

/-! ## §4. Listeners. -/

theorem onEvict_shrinks (i s : Nat) (st : FileSt) (pn : Nat) : Shrinks st (onEvict i s st pn) := by
  unfold onEvict
  split
  · exact .refl st
  split
  · exact .refl st
  simp only
  split
  · exact .refl st
  · split
    · exact .erase st _
    · exact .refl st

/-- `on_evict` unmaps the address that shows the page through its mapping. -/
theorem onEvict_unmaps (h : BackedBut env track X st) {pn : Nat} (hal : v % 4096 = 0)
    (hshow : Shows st s v i f pn) (hsh : Shrinks st st') :
    (onEvict i s st' pn).mem.ptes.lookup (s, v) = none := by
  obtain ⟨inner, hat, -, hpn⟩ := hshow
  obtain ⟨a₀, ha₀, hfits⟩ := h.fits hat
  obtain ⟨hoff, hv⟩ := hfits.address ha₀ hal
  obtain ⟨sp, a, hsp, ha, hav, hb, hi⟩ := hat
  rw [hpn] at hoff hv
  have hfind : st'.spaces[s]?.bind (fun sp => sp.areas.find v) = some a := by
    rw [hsh.spaces, hsp, Option.bind_some, find_eq_some_iff]
    exact ⟨ha, hav⟩
  unfold onEvict
  rw [hsh.inners, hi]
  simp only [if_neg (Nat.not_lt.mpr hoff), hv, hfind, if_pos hb]
  show (st'.mem.ptes.erase (s, v)).lookup (s, v) = none
  rw [lookup_erase, if_pos rfl]

theorem callListener_shrinks (f : Nat) (held : List Nat) (pn : Nat) (st : FileSt) (i : Nat) :
    Shrinks st (callListener f held pn st i) := by
  unfold callListener
  split
  · exact .refl st
  · split
    · exact onEvict_shrinks i _ st pn
    · exact .refl st

theorem tellListeners_shrinks (f : Nat) (held : List Nat) (st : FileSt) (pn : Nat) :
    Shrinks st (tellListeners f held st pn) :=
  Shrinks.foldl (callListener_shrinks f held pn) _ st

/-- **The listeners unmap an evicted page** from every space whose lock is free. -/
theorem listeners_unmap (h : BackedBut env track X st) {pn : Nat} (hal : v % 4096 = 0)
    (hshow : Shows st s v i f pn) (hheld : s ∉ held) (hlocked : s ∉ st.mem.locked)
    (hsh : Shrinks st st') : (tellListeners f held st' pn).mem.ptes.lookup (s, v) = none := by
  obtain ⟨inner, hat, hf, hpn⟩ := hshow
  obtain ⟨a₀, ha₀, hfits⟩ := h.fits hat
  have hi : st.mem.inners[i]? = some inner := by
    obtain ⟨sp, a, -, -, -, -, hi⟩ := hat
    exact hi
  have hmem : i ∈ List.range st'.mem.inners.length := by
    rw [List.mem_range, hsh.inners]
    exact (getElem?_eq_some_iff.mp hi).1
  refine foldl_erases (callListener_shrinks f held pn) _ st' hmem ?_
  intro st'' h''
  have hsh' := hsh.trans h''
  unfold callListener
  rw [hsh'.inners, hi]
  simp only [hsh'.locked, hfits.aspace]
  rw [if_pos ⟨hf, hheld, hlocked⟩]
  exact onEvict_unmaps h hal ⟨inner, hat, hf, hpn⟩ hsh'

/-! ## §5. Files change. -/

theorem getElem?_set_file {files : List FileState} {g : Nat} (hfs : files[f]? = some fs) :
    (files.set f fs')[g]? = if g = f then some fs' else files[g]? := by grind

/-- **The cache of one file changes**; pages of entries outside the hole stay. -/
theorem BackedBut.setFile (h : BackedBut env track X st) (hfs : st.mem.files[f]? = some fs)
    (hXY : ∀ key, X key → Y key)
    (hkeep : ∀ s v i pn pte page, st.mem.ptes.lookup (s, v) = some pte → Shows st s v i f pn →
      ¬ Y (s, v) → fs.pageCache.peek pn = some page →
      ∃ page', fs'.pageCache.peek pn = some page' ∧ page'.addr = page.addr
        ∧ (page.dirty = true → page'.dirty = true)) :
    BackedBut env track Y (st.withMem (fun m => { m with files := m.files.set f fs' })) := by
  refine ⟨h.areas, ?_, h.placed, ?_⟩
  · intro i inner hi
    obtain ⟨fs₀, hfs₀⟩ := h.opened i inner hi
    show ∃ fs₁, (st.mem.files.set f fs')[inner.file]? = some fs₁
    grind
  intro s v pte i inner fs₁ hk hY hat hfs₁
  have hX : ¬ X (s, v) := fun hx => hY (hXY _ hx)
  have hfs₁ : (st.mem.files.set f fs')[inner.file]? = some fs₁ := hfs₁
  rw [getElem?_set_file hfs] at hfs₁
  split at hfs₁
  next hf =>
    cases hfs₁
    obtain ⟨page, hpage, haddr, hdirty⟩ := h.shown s v pte i inner fs hk hX hat (hf ▸ hfs)
    obtain ⟨page', hpage', haddr', hdirty'⟩ :=
      hkeep s v i _ pte page hk ⟨inner, hat, hf, rfl⟩ hY hpage
    refine ⟨page', hpage', haddr'.trans haddr, ?_⟩
    intro ht hw
    exact (hdirty ht hw).imp_right hdirty'
  · exact h.shown s v pte i inner fs₁ hk hX hat hfs₁

/-- A cached page is used and keeps its frame and its dirty bit. -/
theorem BackedBut.useFile (h : BackedBut env track X st) (pn : Nat) (g : PageCache → PageCache)
    (hfs : st.mem.files[f]? = some fs)
    (hg : ∀ page, (g page).addr = page.addr ∧ (page.dirty = true → (g page).dirty = true)) :
    BackedBut env track X (st.withMem (fun m => { m with files := m.files.set f { fs with
      pageCache := fs.pageCache.getMut pn g } })) := by
  refine h.setFile hfs (fun _ => id) ?_
  intro s v i pn' pte page _ _ _ hpage
  show ∃ page', (fs.pageCache.getMut pn g).peek pn' = some page' ∧ _
  grind

theorem afterFile_shrinks (f : Nat) (held : List Nat) (st : FileSt) (fs : FileState) :
    Shrinks (st.withMem (fun m => { m with files := m.files.set f fs })) (afterFile f held st fs) :=
  Shrinks.foldl (tellListeners_shrinks f held) _ _

/-- **A program of a cached file ran and the listeners were told.**  Outside the
new hole no evicted page may be mapped where a lock is held, and no page may go
without a word. -/
theorem BackedBut.afterFile (h : BackedBut env track X st) {D : Nat → Prop}
    (hfs : st.mem.files[f]? = some fs) (ht : Trace (env.file f) D { fs with evictions := [] } fs')
    (hXY : ∀ key, X key → Y key)
    (hok : ∀ s v i pn pte, st.mem.ptes.lookup (s, v) = some pte → Shows st s v i f pn →
      ¬ Y (s, v) → (pn ∈ fs'.evictions → s ∉ held ∧ s ∉ st.mem.locked)
        ∧ ¬ ((env.file f).inMemory = true ∧ D pn)) :
    BackedBut env track Y (afterFile f held st fs') := by
  -- first the cache changes, with a hole for every page that the log names
  have hset : BackedBut env track (fun key => Y key ∨ ∃ i pn, Shows st key.1 key.2 i f pn
      ∧ pn ∈ fs'.evictions ∧ ¬ Y key) (st.withMem (fun m => { m with
        files := m.files.set f fs' })) := by
    refine h.setFile hfs (fun key hx => .inl (hXY key hx)) ?_
    intro s v i pn pte page hk hshow hY hpage
    have hY' : ¬ Y (s, v) := fun hy => hY (.inl hy)
    rcases ht.page_kept hpage with hev | hD | hkept
    · exact absurd (.inr ⟨i, pn, hshow, hev, hY'⟩) hY
    · exact absurd hD (hok s v i pn pte hk hshow hY').2
    · exact hkept
  -- then the listeners erase them
  refine hset.shrink (afterFile_shrinks f held st fs') ?_
  intro key pte hk hx
  rcases hx with hy | ⟨i, pn, hshow, hev, hY⟩
  · exact hy
  obtain ⟨s, v⟩ := key
  have hk₀ := (afterFile_shrinks f held st fs').ptes _ _ hk
  obtain ⟨hheld, hlocked⟩ := (hok s v i pn pte hk₀ hshow hY).1 hev
  have hal := (h.placed s v pte hk₀).1
  have hgone : (FileMap.afterFile f held st fs').mem.ptes.lookup (s, v) = none :=
    foldl_erases (tellListeners_shrinks f held) _ _ hev
      (fun st' => listeners_unmap hset hal hshow hheld hlocked)
  rw [hgone] at hk
  cases hk

theorem wp_onFile {m : FsM α} {Q : α → FileSt → Prop} {E : Stop → FileSt → Prop}
    (hfs : st.mem.files[f]? = some fs)
    (h : wp m { fs with evictions := [] } (fun a fs' => Q a (FileMap.afterFile f held st fs'))
      (fun e fs' => E (.err e) (FileMap.afterFile f held st fs'))) :
    wp (onFile f held m) st Q E := by
  unfold wp onFile
  rw [hfs]
  unfold wp at h
  grind

/-! ## §6. Entries come, areas change. -/

variable (h : BackedBut env track X st)
include h

/-- **An entry is stored** that the cache backs. -/
theorem BackedBut.insertPte {maps : Nat} {pte : Pte}
    (hal : v % 4096 = 0) (hat : AreaAt st s v i inner)
    (hback : ∀ fs, st.mem.files[inner.file]? = some fs →
      ∃ page, fs.pageCache.peek (pageNo inner v) = some page
        ∧ Backs env track inner.file pte page) :
    BackedBut env track X (st.withMem (fun m => { m with
      maps := maps, ptes := m.ptes.insert (s, v) pte })) := by
  refine ⟨h.areas, h.opened, ?_, ?_⟩
  · intro u w pte' hk
    simp only [MmState.withMem, lookup_insert] at hk
    split at hk
    next heq =>
      cases heq
      exact ⟨hal, i, inner, hat⟩
    · exact h.placed u w pte' hk
  · intro u w pte' j inner' fs hk hX hat' hfs
    simp only [MmState.withMem, lookup_insert] at hk
    split at hk
    next heq =>
      cases heq
      cases hk
      obtain ⟨rfl, rfl⟩ := AreaAt.unique (show AreaAt st _ _ _ _ from hat') hat
      exact hback fs hfs
    · exact h.shown u w pte' j inner' fs hk hX hat' hfs

/-- **Areas and mappings change**; every entry stays in an area of its mapping. -/
theorem BackedBut.remap (hptes : st'.mem.ptes = st.mem.ptes) (hfiles : st'.mem.files = st.mem.files)
    (hareas : ∀ (s : Nat) sp a i, st'.spaces[s]? = some sp → a ∈ sp.areas.areas →
      a.backend = .file i → ∃ inner, st'.mem.inners[i]? = some inner ∧ Fits inner s a)
    (hopened : ∀ (i : Nat) (inner : FileBackendInner), st'.mem.inners[i]? = some inner →
      ∃ fs, st.mem.files[inner.file]? = some fs)
    (hat : ∀ s v pte i inner, st.mem.ptes.lookup (s, v) = some pte → AreaAt st s v i inner →
      AreaAt st' s v i inner) : BackedBut env track X st' := by
  refine ⟨hareas, hfiles ▸ hopened, ?_, ?_⟩
  · intro s v pte hk
    rw [hptes] at hk
    obtain ⟨hal, i, inner, hold⟩ := h.placed s v pte hk
    exact ⟨hal, i, inner, hat s v pte i inner hk hold⟩
  · intro s v pte i inner fs hk hX hat' hfs
    rw [hptes] at hk
    rw [hfiles] at hfs
    obtain ⟨-, j, inner', hold⟩ := h.placed s v pte hk
    obtain ⟨rfl, rfl⟩ := hat'.unique (hat s v pte j inner' hk hold)
    exact h.shown s v pte i inner fs hk hX hold hfs

theorem BackedBut.withAreas {g : MemorySet Backend → MemorySet Backend}
    (hareas : ∀ sp a i, st.spaces[s]? = some sp → a ∈ (g sp.areas).areas →
      a.backend = .file i → ∃ inner, st.mem.inners[i]? = some inner ∧ Fits inner s a)
    (hat : ∀ v pte i inner, st.mem.ptes.lookup (s, v) = some pte → AreaAt st s v i inner →
      AreaAt (st.withAreas s g) s v i inner) : BackedBut env track X (st.withAreas s g) := by
  refine h.remap rfl rfl ?_ h.opened ?_
  · intro u sp a i hsp ha hb
    rw [getElem?_withAreas] at hsp
    split at hsp
    next hu =>
      subst hu
      rw [Option.map_eq_some_iff] at hsp
      obtain ⟨sp₀, hsp₀, rfl⟩ := hsp
      exact hareas sp₀ a i hsp₀ ha hb
    · exact h.areas u sp a i hsp ha hb
  · intro u v pte i inner hk hold
    by_cases hu : s = u
    · subst hu
      exact hat v pte i inner hk hold
    · obtain ⟨sp, a, hsp, ha⟩ := hold
      refine ⟨sp, a, ?_, ha⟩
      rw [getElem?_withAreas, if_neg hu]
      exact hsp

/-- **Carving** at page boundaries; entries inside the window have to be gone
or their part of the area stays. -/
theorem BackedBut.carve {sp : AddrSpace Backend}
    {a cut : MemoryArea Backend} {lo hi : Nat} {g : MappingFlags → Option MappingFlags}
    (hsp : st.spaces[s]? = some sp) (ha : a ∈ sp.areas.areas) (hcut : a.within lo hi = some cut)
    (hlo : lo % 4096 = 0) (hhi : hi % 4096 = 0)
    (hkeep : (∃ f, g a.flags = some f) ∨ ∀ i, a.backend = .file i →
      ∀ v, cut.Has v → st.mem.ptes.lookup (s, v) = none) :
    BackedBut env track X (st.withAreas s (fun as => as.carve cut.start cut.stop g)) := by
  obtain ⟨hcs, hce, -, -⟩ := Area.within_eq_some hcut
  have hlt := cut.nonempty
  refine h.withAreas ?_ ?_
  · intro sp' p i hsp' hp hb
    rw [hsp] at hsp'
    cases hsp'
    rcases mem_or_piece_of_mem_carve ha (by omega) (by omega) hlt hp with hold | hpiece
    · exact h.areas s sp p i hsp hold hb
    -- a piece of the area, with ends at page boundaries
    obtain ⟨hps, hpe, hpb, -⟩ := Area.of_mem_pieces (Nat.le_of_lt hlt) hpiece
    obtain ⟨hstart, hstop⟩ := Area.ends_of_mem_pieces (by omega) (by omega) hlt hpiece
    obtain ⟨inner, hi', hfits⟩ := h.areas s sp a i hsp ha (hpb ▸ hb)
    obtain ⟨hal₀, hal₁, hal₂⟩ := hfits.aligned
    refine ⟨inner, hi', hfits.aspace, Nat.le_trans hfits.start hps, ⟨hal₀, ?_, ?_⟩, ?_⟩
    · omega
    · omega
    · grind
  · rintro v pte i inner hk ⟨sp', a', hsp', ha', hav, hb, hi'⟩
    rw [hsp] at hsp'
    cases hsp'
    have hafter : (st.withAreas s (fun as => as.carve cut.start cut.stop g)).spaces[s]?
        = some { sp with areas := sp.areas.carve cut.start cut.stop g } := by
      rw [getElem?_withAreas, if_pos rfl, hsp]
      rfl
    by_cases hout : v < cut.start ∨ cut.stop ≤ v
    · obtain ⟨p, hp, hpv, hpb, -⟩ := exists_mem_carve_outside (g := g) hlt ha' hav hout
      exact ⟨_, p, hafter, hp, hpv, hpb.trans hb, hi'⟩
    -- inside the window: the address lies in the area that is cut
    have haa : a' = a := by refine eq_of_has ha' ha hav ⟨?_, ?_⟩ <;> omega
    subst haa
    rcases hkeep with ⟨f, hg⟩ | hgone
    · obtain ⟨p, hp, hpv, hpb, -⟩ := exists_mem_carve_inside hlt ha' hav (by omega) (by omega) hg
      exact ⟨_, p, hafter, hp, hpv, hpb.trans hb, hi'⟩
    · rw [hgone i hb v ⟨by omega, by omega⟩] at hk
      cases hk

theorem BackedBut.pushInner (hopen : ∃ fs, st.mem.files[inner.file]? = some fs) :
    BackedBut env track X (st.withMem (·.push inner)) := by
  have hold : ∀ (i : Nat) inner', st.mem.inners[i]? = some inner' →
      (st.mem.inners ++ [inner])[i]? = some inner' := by
    intro i inner' hi
    rw [List.getElem?_append_left (getElem?_eq_some_iff.mp hi).1]
    exact hi
  refine h.remap rfl rfl ?_ ?_ ?_
  · intro s sp a i hsp ha hb
    obtain ⟨inner₀, hi₀, hfits⟩ := h.areas s sp a i hsp ha hb
    exact ⟨inner₀, hold i inner₀ hi₀, hfits⟩
  · intro i inner' hi
    have hi : (st.mem.inners ++ [inner])[i]? = some inner' := hi
    rw [List.getElem?_append] at hi
    split at hi
    · exact h.opened i inner' hi
    rw [List.getElem?_singleton] at hi
    split at hi
    · cases hi
      exact hopen
    · cases hi
  · rintro s v pte i inner' _ ⟨sp, a, hsp, ha, hav, hb, hi⟩
    exact ⟨sp, a, hsp, ha, hav, hb, hold i inner' hi⟩

theorem BackedBut.pushSpace (base stop : Nat) : BackedBut env track X { st with
      spaces := st.spaces ++ [{ vaStart := base, vaStop := stop, areas := .empty }] } := by
  refine h.remap rfl rfl ?_ h.opened ?_
  · intro s sp a i hsp ha hb
    have hsp : (st.spaces ++ [_])[s]? = some sp := hsp
    rw [List.getElem?_append] at hsp
    split at hsp
    · exact h.areas s sp a i hsp ha hb
    rw [List.getElem?_singleton] at hsp
    split at hsp
    · cases hsp
      cases ha
    · cases hsp
  · rintro s v pte i inner _ ⟨sp, a, hsp, hrest⟩
    refine ⟨sp, a, ?_, hrest⟩
    rw [List.getElem?_append_left (getElem?_eq_some_iff.mp hsp).1]
    exact hsp

end Changes

end StarryOS.Mm.FileMap
