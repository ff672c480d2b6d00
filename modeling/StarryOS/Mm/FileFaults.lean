/-
  StarryOS.Mm.FileFaults — POPULATING A SHARED FILE MAPPING.

  A page that is not mapped is looked up in the cache, which may EVICT another
  page while the lock of the space is held.  `populatePage_spec` says what is
  left behind: a hole with the keys of the own space that show the evicted
  page.  Its two callers close the hole in different ways:

    • a fault runs the callback (`evictCallback_closes`), which reaches the
      faulting mapping only, and only when nothing failed: `FaultOk`;
    • `populate_area` drops the callback, so nothing may be evicted at all:
      `RoomFor`.
-/
import StarryOS.Mm.FileListeners

namespace StarryOS.Mm.FileMap

open Lib Fs LruCache Table

/-! ## §1. Populating one page. -/

/-- A call on the file's node, its page allocator or the page table can fail. -/
def Env.Faulty (env : Env) (f : Nat) : Prop :=
  (env.file f).Faulted ∨ ∃ k, env.mapOk k = false

/-- The keys of space `s` that show a page of `log`. -/
def Stale (st : FileSt) (s f : Nat) (log : List Nat) (key : Nat × Nat) : Prop :=
  key.1 = s ∧ ∃ i, ∃ pn ∈ log, Shows st s key.2 i f pn

/-- What populating `n` pages leaves as it was, and how the caches grow. -/
@[grind cases] structure Grows (n : Nat) (st st' : FileSt) : Prop where
  spaces : st'.spaces = st.spaces
  inners : st'.mem.inners = st.mem.inners
  sizes : ∀ (g : Nat) (fs' : FileState), st'.mem.files[g]? = some fs' →
    ∃ fs, st.mem.files[g]? = some fs ∧ fs'.pageCache.len ≤ fs.pageCache.len + n
      ∧ fs'.pageCache.cap = fs.pageCache.cap

theorem Grows.refl (n : Nat) (st : FileSt) : Grows n st st :=
  ⟨rfl, rfl, fun _ fs hfs => ⟨fs, hfs, Nat.le_add_right _ _, rfl⟩⟩

theorem Grows.trans {m n : Nat} {st₁ st₂ st₃ : FileSt} (h : Grows m st₁ st₂)
    (h' : Grows n st₂ st₃) : Grows (m + n) st₁ st₃ := by
  refine ⟨h'.spaces.trans h.spaces, h'.inners.trans h.inners, ?_⟩
  intro g fs₃ hfs₃
  grind

theorem Grows.of_set {n f : Nat} {st st' : FileSt} {fs fs' : FileState}
    (hfs : st.mem.files[f]? = some fs) (hspaces : st'.spaces = st.spaces)
    (hinners : st'.mem.inners = st.mem.inners) (hfiles : st'.mem.files = st.mem.files.set f fs')
    (hlen : fs'.pageCache.len ≤ fs.pageCache.len + n)
    (hcap : fs'.pageCache.cap = fs.pageCache.cap) : Grows n st st' := by
  refine ⟨hspaces, hinners, ?_⟩
  intro g fs₁ hfs₁
  grind

section Calls

variable {env : Env} {track : Prop} {st : FileSt}

theorem ptMap_spec (env : Env) (st : FileSt) (s v paddr : Nat) (flags : MappingFlags) :
    wp (ptMap env s v paddr flags) st
      (fun _ st' => st.mem.ptes.lookup (s, v) = none ∧ st' = st.withMem (fun m => { m with
        maps := m.maps + 1, ptes := m.ptes.insert (s, v) ⟨paddr, flags, .size4K⟩ }))
      (fun _ st' => ((∃ k, env.mapOk k = false) ∨ st.mem.ptes.lookup (s, v) ≠ none)
        ∧ st' = st.withMem (fun m => { m with maps := m.maps + 1 })) := by
  unfold ptMap modifyMem
  apply wp_ite
  · intro _
    cases hl : st.mem.ptes.lookup (s, v) with
    | some pte => exact ⟨.inr (by simp), rfl⟩
    | none => exact ⟨rfl, rfl⟩
  · intro hno
    exact ⟨.inl ⟨st.mem.maps, by simpa using hno⟩, rfl⟩

variable {f s i : Nat} {fs : FileState} {P : FileSt → Prop} {access : MappingFlags}

/-- A write fault uses a cached page; that of a disk-backed file gets dirty. -/
theorem markWritten_spec {pn : Nat} (hfs : st.mem.files[f]? = some fs) :
    wp (markWritten env f pn) st
      (fun _ st' => ∃ g : PageCache → PageCache, (∀ page, (g page).addr = page.addr
          ∧ (page.dirty = true → (g page).dirty = true)
          ∧ ((env.file f).inMemory = true ∨ (g page).dirty = true))
        ∧ st' = st.withMem (fun m => { m with files := m.files.set f { fs with
            pageCache := fs.pageCache.getMut pn g } }))
      (orHalt P) := by
  unfold markWritten modifyMem
  rw [wp_bind, wp_get, hfs]
  apply wp_ite
  · intro hmem
    exact ⟨id, fun page => ⟨rfl, fun hd => hd, .inl hmem⟩, rfl⟩
  intro _
  cases fs.pageCache.peek pn with
  | none => exact .inl rfl
  | some page =>
    exact ⟨fun page => { page with dirty := true }, fun page => ⟨rfl, fun _ => rfl, .inr rfl⟩, rfl⟩

/-- The cache has made room: what it evicted may still be shown in the space
that holds its lock, and nowhere else. -/
theorem Backed.afterLookup {fs' : FileState} (h : Backed env track st)
    (hfs : st.mem.files[f]? = some fs)
    (ht : Trace (env.file f) (fun _ => False) { fs with evictions := [] } fs')
    (hfree : ∀ vpn ∈ fs'.evictions, ∀ u w j pte, st.mem.ptes.lookup (u, w) = some pte →
      Shows st u w j f vpn → u ≠ s → u ∉ st.mem.locked) :
    BackedBut env track (Stale st s f fs'.evictions) (afterFile f [s] st fs') := by
  refine BackedBut.afterFile h hfs ht (fun _ hf => hf.elim) ?_
  intro u w j pn pte hp hshow hstale
  refine ⟨?_, fun hD => hD.2⟩
  intro hpn
  have hu : u ≠ s := by
    intro hu
    subst hu
    exact hstale ⟨rfl, j, pn, hpn, hshow⟩
  exact ⟨by simpa using hu, hfree pn hpn u w j pte hp hshow hu⟩

variable {flags : MappingFlags}

/-- **One page of `populate`.**  What it evicts may still be mapped in its own
space, and nowhere else if no lock is in the way. -/
theorem populatePage_spec {addr : Nat} {inner : FileBackendInner}
    (h : Backed env track st) (hat : AreaAt st s addr i inner) (hal : addr % 4096 = 0)
    (hfs : st.mem.files[inner.file]? = some fs)
    (hfree : st.mem.ptes.lookup (s, addr) = none → ∀ vpn, fs.Evicts (pageNo inner addr) vpn →
      ∀ u w j pte, st.mem.ptes.lookup (u, w) = some pte → Shows st u w j inner.file vpn →
      u ≠ s → u ∉ st.mem.locked) : wp (populatePage env inner s addr flags access) st
      (fun r st' => Grows 1 st st' ∧ BackedBut env track (Stale st s inner.file r.2) st'
        ∧ (∀ vpn ∈ r.2, st.mem.ptes.lookup (s, addr) = none ∧ fs.Evicts (pageNo inner addr) vpn)
        ∧ ∀ key pte, st'.mem.ptes.lookup key = some pte →
            (∃ old, st.mem.ptes.lookup key = some old) ∨ key = (s, addr))
      (orHalt (fun st' => ∃ log, BackedBut env track (Stale st s inner.file log) st'
        ∧ (∀ vpn ∈ log, st.mem.ptes.lookup (s, addr) = none ∧ fs.Evicts (pageNo inner addr) vpn)
        ∧ (∀ key pte, st'.mem.ptes.lookup key = some pte →
            ∃ old, st.mem.ptes.lookup key = some old) ∧ env.Faulty inner.file)) := by
  unfold populatePage
  rw [wp_bind, wp_get]
  cases hk : st.mem.ptes.lookup (s, addr) with
  | some pte =>
    have hnothing : ∀ st', Backed env track st' →
        BackedBut env track (Stale st s inner.file []) st' :=
      fun st' h' => h'.mono (fun _ hf => hf.elim)
    apply wp_ite
    · -- a write to a page that is mapped without WRITE
      intro _
      simp only [wp_bind]
      refine wp_mono_ok (markWritten_spec hfs) ?_
      rintro _ st₁ ⟨g, hg, rfl⟩
      obtain ⟨page, hpage, haddr, -⟩ := h.shown s addr pte i inner fs hk id hat hfs
      have hused := h.useFile (pageNo inner addr) g hfs (fun page => ⟨(hg page).1, (hg page).2.1⟩)
      unfold modifyMem
      simp only [wp_modify, wp_pure]
      refine ⟨?_, hnothing _ (hused.insertPte hal hat ?_), ?_, ?_⟩
      · exact .of_set hfs rfl rfl rfl (len_getMut_le _ _ _) (cap_getMut _ _ _)
      · intro fs₁ hfs₁
        have hfs₁ : (st.mem.files.set inner.file { fs with
            pageCache := fs.pageCache.getMut (pageNo inner addr) g })[inner.file]?
            = some fs₁ := hfs₁
        rw [getElem?_set_file hfs, if_pos rfl] at hfs₁
        cases hfs₁
        refine ⟨g page, ?_, (hg page).1.trans haddr, fun _ _ => (hg page).2.2⟩
        rw [peek_getMut, if_pos rfl, hpage]
        rfl
      · intro vpn hvpn
        cases hvpn
      · intro key pte' hk'
        simp only [MmState.withMem, lookup_insert] at hk'
        grind
    · intro _
      refine ⟨.refl 1 st, hnothing st h, ?_, fun key pte' hk' => .inl ⟨pte', hk'⟩⟩
      intro vpn hvpn
      cases hvpn
  | none =>
    simp only [wp_bind]
    refine wp_onFile hfs (wp_mono (pageOrInsert_trace (D := fun _ => False) _ (.refl _ _ _)) ?_ ?_)
    · rintro r fs' ⟨ht, hpeek, hlen, hcap, -, -, hlog, hev⟩
      have hlog : fs'.evictions = r.2.toList.map Prod.fst := hlog
      have hev : ∀ vpn ∈ r.2.toList.map Prod.fst, fs.Evicts (pageNo inner addr) vpn := by
        intro vpn hvpn
        obtain ⟨e, he, rfl⟩ := List.mem_map.mp hvpn
        exact hev e (Option.mem_toList.mp he)
      have hst₁ : BackedBut env track (Stale st s inner.file (r.2.toList.map Prod.fst))
          (afterFile inner.file [s] st fs') := by
        rw [← hlog] at hev ⊢
        exact h.afterLookup hfs ht (fun vpn hvpn => hfree hk vpn (hev vpn hvpn))
      have hsh := afterFile_shrinks inner.file [s] st fs'
      refine wp_mono (ptMap_spec env _ s addr r.1.addr _) ?_ ?_
      · rintro _ st₂ ⟨-, rfl⟩
        refine ⟨?_, hst₁.insertPte hal ((AreaAt.congr hsh.spaces hsh.inners).mpr hat) ?_,
          fun vpn hvpn => ⟨trivial, hev vpn hvpn⟩, ?_⟩
        · exact .of_set hfs hsh.spaces hsh.inners hsh.files hlen hcap
        · intro fs₁ hfs₁
          rw [hsh.files] at hfs₁
          have hfs₁ : (st.mem.files.set inner.file fs')[inner.file]? = some fs₁ := hfs₁
          rw [getElem?_set_file hfs, if_pos rfl] at hfs₁
          cases hfs₁
          refine ⟨r.1, hpeek, rfl, ?_⟩
          -- a page of a disk-backed file is mapped without WRITE
          intro _ hw
          left
          by_contra hdisk
          rw [if_neg hdisk] at hw
          cases hw
        · intro key pte hk'
          simp only [MmState.withMem, lookup_insert] at hk'
          split at hk'
          next heq => exact .inr heq
          · exact .inl ⟨pte, hsh.ptes key pte hk'⟩
      · rintro e st₂ ⟨hwhy, rfl⟩
        refine .inr ⟨_, ⟨hst₁.areas, hst₁.opened, hst₁.placed, hst₁.shown⟩,
          fun vpn hvpn => ⟨trivial, hev vpn hvpn⟩, fun key pte hk' => ⟨pte, hsh.ptes key pte hk'⟩,
          ?_⟩
        rcases hwhy with hfail | hmapped
        · exact .inr hfail
        · exact absurd (hsh.lookup_none hk) hmapped
    · rintro e fs' ⟨⟨ht, -⟩, hev, hfault⟩
      have hev : ∀ vpn ∈ fs'.evictions, fs.Evicts (pageNo inner addr) vpn := by
        intro vpn hvpn
        rcases hev vpn hvpn with hold | hnew
        · cases hold
        · exact hnew
      have hst₁ := h.afterLookup hfs ht (fun vpn hvpn => hfree hk vpn (hev vpn hvpn))
      exact .inr ⟨fs'.evictions, hst₁, fun vpn hvpn => ⟨trivial, hev vpn hvpn⟩,
        fun key pte hk' => ⟨pte, (afterFile_shrinks _ _ _ _).ptes key pte hk'⟩, .inl hfault⟩

/-! ## §2. `populate_area`: no eviction while the caches have room. -/

theorem otherCall_backed (h : Backed env track st) :
    wp (otherCall env) st (fun _ st' => Grows 0 st st' ∧ st'.mem.ptes = st.mem.ptes
      ∧ Backed env track st') (orHalt (Backed env track)) := by
  unfold otherCall modifyMem
  have hsame : Backed env track (st.withMem (fun m => { m with
      otherCalls := m.otherCalls + 1 })) := ⟨h.areas, h.opened, h.placed, h.shown⟩
  refine wp_exit ⟨⟨rfl, rfl, fun _ fs hfs => ⟨fs, hfs, le_rfl, rfl⟩⟩, rfl, hsame⟩ fun _ => ?_
  exact .inr hsame

theorem wp_getInner :
    wp (getInner i) st (fun inner st' => st' = st ∧ st.mem.inners[i]? = some inner)
      (orHalt P) := by
  unfold getInner
  rw [wp_bind, wp_get]
  cases hi : st.mem.inners[i]? with
  | some inner => exact ⟨rfl, rfl⟩
  | none => exact .inl rfl

/-- What `populate` runs: the loop over the pages of a file mapping, or the call of a
mapping that no file is behind. -/
theorem wp_populate {b : Backend} {lo hi : Nat}
    {Q : Nat × Option (FileM Unit) → FileSt → Prop} (h : P st)
    (hother : wp (otherCall env) st (fun _ => Q (0, none)) (orHalt P))
    (hfile : ∀ i inner vs, b = .file i → st.mem.inners[i]? = some inner →
      pagesIn lo hi .size4K = some vs →
      wp (populatePages env inner s flags access vs 0 []) st
        (fun r => Q (r.1, if r.2 = [] then none else some (evictCallback i s r.2))) (orHalt P)) :
    wp ((ops env).populate b s lo hi flags access) st Q (orHalt P) := by
  cases b with
  | shared _ _ _ | other _ => exact wp_seq hother (fun _ _ => id)
  | file i =>
    refine wp_seq wp_getInner ?_
    rintro inner st₁ ⟨rfl, hi⟩
    refine wp_seq (wp_pagesOf h) ?_
    rintro vs st₁ ⟨rfl, hvs⟩
    exact wp_seq (hfile i inner vs rfl hi hvs) (fun _ _ => id)

/-- **The loop of `populate`** when the cache has room for all its pages. -/
theorem populatePages_room {inner : FileBackendInner} :
    ∀ (vs : List Nat) (pages : Nat) (log : List Nat) (st : FileSt), Backed env track st →
      (∀ addr ∈ vs, addr % 4096 = 0 ∧ AreaAt st s addr i inner) →
      (∀ fs, st.mem.files[inner.file]? = some fs →
        fs.pageCache.len + vs.length ≤ fs.pageCache.cap) →
      wp (populatePages env inner s flags access vs pages log) st
        (fun _ st' => Grows vs.length st st' ∧ Backed env track st')
        (orHalt (Backed env track)) := by
  intro vs
  induction vs with
  | nil =>
    intro pages log st h _ _
    exact ⟨.refl 0 st, h⟩
  | cons addr vs ih =>
    intro pages log st h hvs hroom
    obtain ⟨hal, hat⟩ := hvs addr (.head _)
    obtain ⟨fs, hfs⟩ := h.file_of_areaAt hat
    -- a cache with room evicts nothing
    have hnone : ∀ vpn, ¬ fs.Evicts (pageNo inner addr) vpn := by
      intro vpn hev
      have hfull := hev.2.1
      have hlen := hroom fs hfs
      rw [List.length_cons] at hlen
      omega
    have hclosed : ∀ (log : List Nat) (st' : FileSt),
        BackedBut env track (Stale st s inner.file log) st' →
        (∀ vpn ∈ log, st.mem.ptes.lookup (s, addr) = none ∧ fs.Evicts (pageNo inner addr) vpn) →
        Backed env track st' := by
      intro log st' hbut hlog
      refine hbut.mono ?_
      rintro key ⟨-, j, vpn, hvpn, -⟩
      exact hnone vpn (hlog vpn hvpn).2
    unfold populatePages
    rw [wp_bind]
    refine wp_mono (populatePage_spec h hat hal hfs (fun _ vpn hev => absurd hev (hnone vpn))) ?_ ?_
    · rintro r st₁ ⟨hgrows, hbut, hlog, -⟩
      refine wp_mono_ok (ih (pages + r.1) (log ++ r.2) st₁ (hclosed r.2 st₁ hbut hlog) ?_ ?_) ?_
      · grind [AreaAt.congr]
      · grind
      · intro _ st₂ h₂
        refine ⟨?_, h₂.2⟩
        have hsum := hgrows.trans h₂.1
        rw [Nat.add_comm] at hsum
        exact hsum
    · intro e st₁ h₁
      refine h₁.imp_right ?_
      rintro ⟨log', hbut, hlog, -, -⟩
      exact hclosed log' st₁ hbut hlog

/-- The caches of the files that space `s` maps in `[lo, stop)` have room for
the pages of that range. -/
def RoomFor (st : FileSt) (s lo stop : Nat) : Prop :=
  ∀ v i inner fs, lo ≤ v → v < stop → AreaAt st s v i inner →
    st.mem.files[inner.file]? = some fs →
    fs.pageCache.len + (stop - lo) / 4096 ≤ fs.pageCache.cap

/-- **`populate_area`** of a range for whose pages there is room. -/
theorem populateArea_backed {start size : Nat} (h : Backed env track st)
    (hroom : RoomFor st s start (start + size)) :
    settles (populateArea (ops env) s start size access) st (Backed env track) := by
  refine populateArea_settles (fun lo st' => Backed env track st'
    ∧ RoomFor st' s lo (start + size)) (fun _ _ h' => h'.1) ?_ ⟨h, hroom⟩
  intro st' sp a lo h' hsp ha hlo
  obtain ⟨h', hroom'⟩ := h'
  -- what is left to do has room after `n` pages more
  have hrest : ∀ (n : Nat) (st₁ : FileSt), Grows n st' st₁ →
      n + (start + size - a.stop) / 4096 ≤ (start + size - lo) / 4096 →
      RoomFor st₁ s a.stop (start + size) := by
    intro n st₁ hgrows hn v i inner fs₁ hv hstop hat hfs₁
    obtain ⟨fs₀, hfs₀, hlen, hcap⟩ := hgrows.sizes _ fs₁ hfs₁
    have hold := hroom' v i inner fs₀ (by have := hlo.2; omega) hstop
      ((AreaAt.congr hgrows.spaces hgrows.inners).mp hat) hfs₀
    omega
  have hlt := hlo.2
  refine wp_populate h' ?_ ?_
  · refine wp_mono_ok (otherCall_backed h') ?_
    rintro _ st₁ ⟨hgrows, -, h₁⟩
    refine ⟨h₁, hrest 0 st₁ hgrows ?_⟩
    rw [Nat.zero_add]
    exact Nat.div_le_div_right (by omega)
  intro i inner vs hb hi hvs
  have hends := pagesIn_eq_some_iff.mp ⟨vs, hvs⟩
  have hlen := length_pagesIn hvs
  have hbytes : PageSize.size4K.bytes = 4096 := rfl
  rw [hbytes] at hends hlen
  refine wp_mono_ok (populatePages_room (i := i) vs 0 [] st' h' ?_ ?_) ?_
  · intro addr haddr
    obtain ⟨hge, hle, hal⟩ := (mem_pagesIn hvs).mp haddr
    refine ⟨hal, sp, a, hsp, ha, ⟨?_, ?_⟩, hb, hi⟩
    · have := hlo.1
      omega
    · omega
  · intro fs hfs
    by_cases hne : lo < start + size
    · have hfits := hroom' lo i inner fs (Nat.le_refl lo) hne ⟨sp, a, hsp, ha, hlo, hb, hi⟩ hfs
      omega
    · have hle := fs.pageCache.len_le
      have hzero : vs.length = 0 := by omega
      rw [hzero]
      exact hle
  · intro r st₂ h₂
    refine ⟨h₂.2, hrest vs.length st₂ h₂.1 ?_⟩
    omega

/-! ## §3. Faults. -/

/-- The condition on a fault that evicts a page: where somebody else holds the
lock of a space, the page is not mapped there, and in the faulting space it is
mapped through the faulting mapping only, and then nothing may fail. -/
def FaultOk (env : Env) (st : FileSt) (s v : Nat) : Prop :=
  ∀ i inner fs vpn, AreaAt st s v i inner → st.mem.files[inner.file]? = some fs →
    st.mem.ptes.lookup (s, alignDown v .size4K) = none →
    fs.Evicts (pageNo inner (alignDown v .size4K)) vpn →
    ∀ u w j pte, st.mem.ptes.lookup (u, w) = some pte → Shows st u w j inner.file vpn →
      if u = s then j = i ∧ ¬ env.Faulty inner.file else u ∉ st.mem.locked

/-- **The callback closes the hole**: it unmaps what was evicted, as far as the
faulting mapping shows it. -/
theorem evictCallback_closes {log : List Nat} {st st' : FileSt}
    (h : BackedBut env track (Stale st s f log) st') (hgrows : Grows 1 st st')
    (honly : ∀ v j pn pte, pn ∈ log → st'.mem.ptes.lookup (s, v) = some pte →
      Shows st s v j f pn → j = i) : settles (evictCallback i s log) st' (Backed env track) := by
  have hsh : Shrinks st' (log.foldl (onEvict i s) st') := Shrinks.foldl (onEvict_shrinks i s) _ _
  show Backed env track (log.foldl (onEvict i s) st')
  refine h.shrink hsh ?_
  rintro key pte hk ⟨hs, j, pn, hpn, inner, hat, hrest⟩
  obtain ⟨u, v⟩ := key
  subst hs
  have hk' := hsh.ptes _ _ hk
  have hj := honly v j pn pte hpn hk' ⟨inner, hat, hrest⟩
  subst hj
  have hal := (h.placed u v pte hk').1
  have hshow : Shows st' u v j f pn :=
    ⟨inner, (AreaAt.congr hgrows.spaces hgrows.inners).mpr hat, hrest⟩
  have hgone : (log.foldl (onEvict j u) st').mem.ptes.lookup (u, v) = none :=
    foldl_erases (onEvict_shrinks j u) _ _ hpn (fun st₁ => onEvict_unmaps h hal hshow)
  rw [hgone] at hk
  cases hk

theorem fault_backed {v : Nat} (h : Backed env track st) (hok : FaultOk env st s v) :
    settles (handlePageFault (ops env) s v access) st (Backed env track) := by
  refine handlePageFault_settles ?_ h
  intro sp a hsp ha hv _
  refine wp_populate h ?_ ?_
  · exact wp_mono_ok (otherCall_backed h) (fun _ _ h₁ => h₁.2.2)
  intro i inner vs hb hi hvs
  rw [hb] at hvs
  have hal : alignDown v .size4K % 4096 = 0 := alignDown_mod v .size4K
  obtain ⟨hdlo, hdhi⟩ := alignDown_spec v .size4K
  have hbytes : PageSize.size4K.bytes = 4096 := rfl
  cases (pagesIn_single hal).symm.trans hvs
  -- the page lies in the area, whose ends are page boundaries
  have hatv : AreaAt st s v i inner := ⟨sp, a, hsp, ha, hv, hb, hi⟩
  have hat : AreaAt st s (alignDown v .size4K) i inner := by
    obtain ⟨inner', hi', hfits'⟩ := h.areas s sp a i hsp ha hb
    have hstart := hfits'.aligned.2.1
    have hge := hv.1
    have hlt := hv.2
    exact ⟨sp, a, hsp, ha, ⟨by omega, by omega⟩, hb, hi⟩
  obtain ⟨fs, hfs⟩ := h.file_of_areaAt hat
  unfold populatePages populatePages
  simp only [wp_bind, wp_pure, List.nil_append]
  refine wp_mono (populatePage_spec h hat hal hfs ?_) ?_ ?_
  · intro hnone vpn hev u w j pte hp hshow hu
    have hcond := hok i inner fs vpn hatv hfs hnone hev u w j pte hp hshow
    rw [if_neg hu] at hcond
    exact hcond
  · rintro r st₂ ⟨hgrows, hbut, hlog, hkeys⟩
    split
    next hr =>
      refine hbut.mono ?_
      rintro key ⟨-, j, pn, hpn, -⟩
      rw [hr] at hpn
      cases hpn
    refine evictCallback_closes hbut hgrows ?_
    intro w j pn pte hpn hp hshow
    obtain ⟨hnone, hev⟩ := hlog pn hpn
    rcases hkeys (s, w) pte hp with ⟨old, hold⟩ | heq
    · have hcond := hok i inner fs pn hatv hfs hnone hev s w j old hold hshow
      rw [if_pos rfl] at hcond
      exact hcond.1
    · -- the new entry is in the faulting mapping
      obtain ⟨-, rfl⟩ := Prod.mk.inj heq
      obtain ⟨inner', hat', -⟩ := hshow
      exact (hat'.unique hat).1
  · intro e st₂ h₂
    refine h₂.imp_right ?_
    rintro ⟨log, hbut, hlog, hkeys, hfault⟩
    refine hbut.shrink (.refl st₂) ?_
    rintro key pte hp ⟨hs, j, pn, hpn, hshow⟩
    obtain ⟨hnone, hev⟩ := hlog pn hpn
    obtain ⟨u, w⟩ := key
    subst hs
    obtain ⟨old, hold⟩ := hkeys _ pte hp
    have hcond := hok i inner fs pn hatv hfs hnone hev u w j old hold hshow
    rw [if_pos rfl] at hcond
    exact hcond.2 hfault

end Calls

end StarryOS.Mm.FileMap
