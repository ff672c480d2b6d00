/-
  StarryOS.Mm.FileCoherence — PAGE TABLES AND PAGE CACHE AGREE, AND WRITABLE MEANS
  DIRTY.

    • `Coherent`        — an entry maps the page that the cache holds for it,
      so no entry outlives the page it maps;
    • `WritableIsDirty` — an entry of a disk-backed file with WRITE maps a
      dirty page, so what is stored through it reaches the disk.

  Neither holds without conditions.  `Careful` is what a step has to respect
  for the first: where an eviction can leave an entry behind (a lock held by
  somebody else, a mapping that the callback does not cover, a fault that fails
  after the eviction, `populate_area`, which drops the callback, and the
  truncation of an in-memory file, which tells nobody), no entry maps the page.
  `ProtectsDirty` is what `mprotect` has to respect for the second.
-/
import StarryOS.Mm.FileFaults
import StarryOS.Lib.Transition

namespace StarryOS.Mm.FileMap

open Lib Fs AreaSet Table

/-! ## §1. The two properties. -/

/-- **Every present entry maps the page that the file's cache holds for it.** -/
def Coherent (st : FileSt) : Prop :=
  ∀ s v pte, st.mem.ptes.lookup (s, v) = some pte → ∃ i inner fs page, AreaAt st s v i inner
    ∧ st.mem.files[inner.file]? = some fs ∧ fs.pageCache.peek (pageNo inner v) = some page
    ∧ page.addr = pte.paddr

/-- **An entry of a disk-backed file that has WRITE maps a dirty page.** -/
def WritableIsDirty (env : Env) (st : FileSt) : Prop :=
  ∀ s v pte i inner fs, st.mem.ptes.lookup (s, v) = some pte → pte.flags.write = true →
    AreaAt st s v i inner → st.mem.files[inner.file]? = some fs →
    (env.file inner.file).inMemory = false →
    ∃ page, fs.pageCache.peek (pageNo inner v) = some page ∧ page.dirty = true

variable {st : FileSt}

theorem Backed.coherent {env : Env} {track : Prop} (h : Backed env track st) : Coherent st := by
  intro s v pte hk
  obtain ⟨-, i, inner, hat⟩ := h.placed s v pte hk
  obtain ⟨fs, hfs⟩ := h.file_of_areaAt hat
  obtain ⟨page, hpage, haddr, -⟩ := h.shown s v pte i inner fs hk id hat hfs
  exact ⟨i, inner, fs, page, hat, hfs, hpage, haddr⟩

theorem Backed.writableIsDirty {env : Env} (h : Backed env True st) : WritableIsDirty env st := by
  intro s v pte i inner fs hk hw hat hfs hdisk
  obtain ⟨page, hpage, -, hdirty⟩ := h.shown s v pte i inner fs hk id hat hfs
  grind

/-! ## §2. Unmapping and protection. -/

section Calls

variable {env : Env} {track : Prop} {st : FileSt}

variable {s start size : Nat} {flags : MappingFlags}

theorem unmapPages_spec : ∀ (vs : List Nat) (st : FileSt),
    wp (unmapPages s vs) st (fun _ st' => Shrinks st st'
      ∧ ∀ v ∈ vs, st'.mem.ptes.lookup (s, v) = none) (orHalt (fun _ => False)) := by
  intro vs
  induction vs with
  | nil =>
    intro st
    exact ⟨.refl st, fun v hv => absurd hv List.not_mem_nil⟩
  | cons v vs ih =>
    intro st
    unfold unmapPages ptUnmap modifyMem
    refine wp_mono_ok (ih _) ?_
    rintro _ st' ⟨hsh, hgone⟩
    refine ⟨(Shrinks.erase st (s, v)).trans hsh, ?_⟩
    intro w hw
    rcases List.mem_cons.mp hw with rfl | hw
    · refine hsh.lookup_none ?_
      show (st.mem.ptes.erase (s, w)).lookup (s, w) = none
      rw [lookup_erase, if_pos rfl]
    · exact hgone w hw

theorem unmap_backed {cut : MemoryArea Backend} (h : Backed env track st) :
    wp ((ops env).unmap cut.backend s cut.start cut.stop) st
      (fun _ st' => st'.spaces = st.spaces ∧ Backed env track st'
        ∧ ∀ i, cut.backend = .file i → ∀ v, cut.Has v → st'.mem.ptes.lookup (s, v) = none)
      (orHalt (Backed env track)) := by
  match hb : cut.backend with
  | .shared _ _ _ | .other _ =>
    show wp (otherCall env) st _ _
    grind [wp_mono_ok, otherCall_backed]
  | .file i =>
    show wp (do unmapPages s (← pagesOf cut.start cut.stop .size4K)) st _ _
    refine wp_seq (wp_pagesOf h) ?_
    rintro vs st₁ ⟨rfl, hvs⟩
    refine wp_mono (unmapPages_spec vs st₁) ?_ (fun _ _ he => he.imp_right False.elim)
    rintro _ st' ⟨hsh, hgone⟩
    have hst' : Backed env track st' := h.shrink hsh (fun _ _ _ => id)
    refine ⟨hsh.spaces, hst', ?_⟩
    intro j _ v hv
    -- entries only exist at page boundaries
    cases hk : st'.mem.ptes.lookup (s, v) with
    | none => rfl
    | some pte =>
      have hal := (hst'.placed s v pte hk).1
      rw [hgone v ((mem_pagesIn hvs).mpr ⟨hv.1, hv.2, hal⟩)] at hk
      cases hk

theorem unmapArea_backed (h : Backed env track st) :
    settles (unmap (ops env) s start size) st (Backed env track) := by
  refine carve_settles ?_ h
  intro st' sp a cut h' hsp ha hcut hstart hsize
  obtain ⟨-, -, -, hcb⟩ := Area.within_eq_some hcut
  refine wp_mono_ok (unmap_backed h') ?_
  rintro _ st₁ ⟨hspaces, h₁, hgone⟩
  refine ⟨hspaces, h₁.carve (hspaces ▸ hsp) ha hcut hstart (by omega) (.inr ?_)⟩
  intro i hb
  exact hgone i (hcb.trans hb)

/-- Granting WRITE on a range spares every clean page of a disk-backed file. -/
def WriteOk (env : Env) (st : FileSt) (s lo hi : Nat) (newFlags : MappingFlags) : Prop :=
  newFlags.write = true → ∀ v pte i inner fs page, st.mem.ptes.lookup (s, v) = some pte →
    meets lo hi v pte = true → AreaAt st s v i inner → st.mem.files[inner.file]? = some fs →
    fs.pageCache.peek (pageNo inner v) = some page →
    (env.file inner.file).inMemory = true ∨ page.dirty = true

/-- `protect_region` inside a range on which WRITE may be granted. -/
theorem protectRegion_backed {lo hi cutLo cutHi : Nat} {newFlags : MappingFlags}
    (h : Backed env track st) (hok : track → WriteOk env st s lo hi newFlags) (hlo : lo ≤ cutLo)
    (hhi : cutHi ≤ hi) :
    Backed env track (st.withMem (fun m => { m with
        ptes := m.ptes.mapVals (protectPte s cutLo cutHi newFlags) }))
      ∧ (track → WriteOk env (st.withMem (fun m => { m with
        ptes := m.ptes.mapVals (protectPte s cutLo cutHi newFlags) })) s lo hi newFlags) := by
  have hold : ∀ key pte, (st.mem.ptes.mapVals (protectPte s cutLo cutHi newFlags)).lookup key
      = some pte → ∃ old, st.mem.ptes.lookup key = some old
        ∧ pte = protectPte s cutLo cutHi newFlags key old := by
    intro key pte hk
    rw [lookup_mapVals, Option.map_eq_some_iff] at hk
    obtain ⟨old, hold, heq⟩ := hk
    exact ⟨old, hold, heq.symm⟩
  constructor
  · refine ⟨h.areas, h.opened, ?_, ?_⟩
    · intro u v pte hk
      obtain ⟨old, hk, -⟩ := hold _ _ hk
      exact h.placed u v old hk
    intro u v pte i inner fs hk hX hat hfs
    obtain ⟨old, hk₀, rfl⟩ := hold _ _ hk
    obtain ⟨page, hpage, haddr, hdirty⟩ := h.shown u v old i inner fs hk₀ hX hat hfs
    refine ⟨page, hpage, ?_, ?_⟩
    · rw [protectPte_paddr]
      exact haddr
    intro ht hw
    unfold protectPte at hw
    split at hw
    next hmeets =>
      have hwide : meets lo hi v old = true := by grind [meets]
      have hu : u = s := hmeets.1
      subst hu
      exact hok ht hw v old i inner fs page hk₀ hwide hat hfs hpage
    · exact hdirty ht hw
  · intro ht hw v pte i inner fs page hk hmeets hat hfs hpage
    obtain ⟨old, hk₀, rfl⟩ := hold _ _ hk
    refine hok ht hw v old i inner fs page hk₀ ?_ hat hfs hpage
    unfold meets at hmeets ⊢
    rw [protectPte_size] at hmeets
    exact hmeets

theorem protect_backed {newFlags : MappingFlags} (h : Backed env track st)
    (hok : track → WriteOk env st s start (start + size) newFlags) :
    settles (protect (ops env) s start size newFlags) st (Backed env track) := by
  -- the walk keeps the invariant together with the condition
  have hboth : settles (protect (ops env) s start size newFlags) st (fun st' =>
      Backed env track st' ∧ (track → WriteOk env st' s start (start + size) newFlags)) := by
    refine carve_settles ?_ ⟨h, hok⟩
    intro st' sp a cut h' hsp ha hcut hstart hsize
    obtain ⟨hcs, hce, -, -⟩ := Area.within_eq_some hcut
    have hon : wp ((ops env).onProtect cut.backend newFlags) st' (fun _ st₁ => st₁ = st')
        (orHalt (fun st₁ => st₁ = st')) := by
      match cut.backend with
      | .shared _ _ _ => exact rfl
      | .other _ => exact rfl
      | .file i =>
        show wp (do checkFlags (← getInner i) newFlags) st' _ _
        rw [wp_bind]
        refine wp_mono wp_getInner ?_ (fun _ _ he => he.imp_right False.elim)
        rintro inner st₁ ⟨rfl, -⟩
        refine wp_exit rfl fun _ => ?_
        exact .inr rfl
    unfold backendProtect
    rw [wp_bind]
    refine wp_mono hon ?_ (fun _ _ he => he.imp_right (by intro heq; rw [heq]; exact h'))
    intro _ st₁ h₁
    subst h₁
    obtain ⟨hreflag, hreok⟩ := protectRegion_backed h'.1 h'.2
      (show start ≤ cut.start by omega) (show cut.stop ≤ start + size by omega)
    refine ⟨rfl, hreflag.carve hsp ha hcut hstart (by omega) (.inl ⟨newFlags, rfl⟩), ?_⟩
    -- a piece of an area shows the same pages
    intro ht hw v pte i inner fs page hk hmeets hat
    refine hreok ht hw v pte i inner fs page hk hmeets ?_
    obtain ⟨sp', p, hsp', hp, hpv, hb, hi⟩ := hat
    rw [getElem?_withAreas, if_pos rfl] at hsp'
    have hsp' : st₁.spaces[s]?.map (fun sp => { sp with
        areas := sp.areas.carve cut.start cut.stop (fun _ => some newFlags) }) = some sp' := hsp'
    rw [hsp] at hsp'
    cases hsp'
    obtain ⟨a', ha', hps, hpe, hpb, -⟩ := of_mem_carve cut.nonempty hp
    exact ⟨sp, a', hsp, ha', ⟨Nat.le_trans hps hpv.1, Nat.lt_of_lt_of_le hpv.2 hpe⟩, hpb ▸ hb, hi⟩
  exact wp_mono hboth (fun _ _ hq => hq.1) (fun _ _ he => he.imp_right And.left)

/-! ## §3. Mapping, teardown and fork. -/

theorem BackedBut.insertArea {X : Nat × Nat → Prop} (h : BackedBut env track X st)
    {a : MemoryArea Backend} {sp : AddrSpace Backend} (hsp : st.spaces[s]? = some sp)
    (hov : sp.areas.overlaps a.start a.stop = false)
    (hfits : ∀ i, a.backend = .file i → ∃ inner, st.mem.inners[i]? = some inner ∧ Fits inner s a) :
    BackedBut env track X (st.withAreas s (fun as => as.insert a)) := by
  refine h.withAreas ?_ ?_
  · intro sp' b i hsp' hb hbb
    rw [hsp] at hsp'
    cases hsp'
    grind [mem_insert]
  · rintro v pte i inner _ ⟨sp', b, hsp', hb, hrest⟩
    rw [hsp] at hsp'
    cases hsp'
    refine ⟨{ sp with areas := sp.areas.insert a }, b, ?_, (mem_insert hov).mpr (.inr hb), hrest⟩
    rw [getElem?_withAreas, if_pos rfl, hsp]
    rfl

section

variable (h : Backed env track st)
include h

/-- The backend's `map` changes nothing that matters. -/
theorem map_backed {b : Backend} {lo hi : Nat} :
    wp ((ops env).map b s lo hi flags) st (fun _ st' => Grows 0 st st'
      ∧ Backed env track st') (orHalt (Backed env track)) := by
  have hother : wp (otherCall env) st (fun _ st' => Grows 0 st st' ∧ Backed env track st')
      (orHalt (Backed env track)) :=
    wp_mono_ok (otherCall_backed h) (fun _ _ hq => ⟨hq.1, hq.2.2⟩)
  match b with
  | .shared _ _ _ => exact hother
  | .other _ => exact hother
  | .file i =>
    show wp (do checkFlags (← getInner i) flags) st _ _
    refine wp_seq wp_getInner ?_
    rintro inner st₁ ⟨rfl, -⟩
    refine wp_exit ⟨.refl 0 st₁, h⟩ fun _ => ?_
    exact .inr h

/-- Mapping an area; afterwards the range shows what its backend shows. -/
theorem mapArea_backed {a : MemoryArea Backend}
    (hfits : ∀ i, a.backend = .file i → ∃ inner, st.mem.inners[i]? = some inner ∧ Fits inner s a) :
    wp (mapArea (ops env) s a) st (fun _ st' => Backed env track st'
      ∧ st'.mem.inners = st.mem.inners
      ∧ (∀ (g : Nat) (fs' : FileState), st'.mem.files[g]? = some fs' →
          ∃ fs, st.mem.files[g]? = some fs ∧ fs'.pageCache.len ≤ fs.pageCache.len
            ∧ fs'.pageCache.cap = fs.pageCache.cap)
      ∧ ∀ v i inner, a.Has v → AreaAt st' s v i inner → a.backend = .file i)
      (orHalt (Backed env track)) := by
  apply mapArea_settles ?_ (fun _ _ _ => h)
  intro sp hsp hov
  refine wp_mono_ok (map_backed h) ?_
  rintro _ st' ⟨hgrows, h'⟩
  have hsp' : st'.spaces[s]? = some sp := hgrows.spaces ▸ hsp
  refine ⟨h'.insertArea hsp' hov ?_, hgrows.inners, hgrows.sizes, ?_⟩
  · intro i hb
    rw [hgrows.inners]
    exact hfits i hb
  rintro v i inner hv ⟨sp₁, b, hsp₁, hb, hbv, hbb, -⟩
  rw [getElem?_withAreas, if_pos rfl, hsp'] at hsp₁
  cases hsp₁
  have hself : a ∈ (sp.areas.insert a).areas := (mem_insert hov).mpr (.inl rfl)
  rw [eq_of_has hself hb hv hbv]
  exact hbb

theorem dropSpace_backed : settles (dropSpace (ops env) s) st (Backed env track) := by
  refine dropSpace_settles (fun _ => Backed env track) (fun _ _ => h) ?_ ?_
  · intro st' a rest h'
    exact wp_mono (unmap_backed h') (fun _ _ hq => hq.2.1) (fun _ _ _ => trivial)
  intro st' h'
  -- no entry of the space is left, so its areas no longer matter
  have hsh : Shrinks st' (st'.withMem (fun m => { m with
      ptes := m.ptes.filterKeys (fun key => key.1 != s) })) := by
    refine ⟨rfl, rfl, rfl, rfl, ?_⟩
    simp [MmState.withMem, lookup_filterKeys]
  have hdropped : Backed env track (st'.withMem (fun m => { m with
      ptes := m.ptes.filterKeys (fun key => key.1 != s) })) := h'.shrink hsh (fun _ _ _ => id)
  have hfinal : Backed env track ((st'.withMem (fun m => { m with
      ptes := m.ptes.filterKeys (fun key => key.1 != s) })).withAreas s (fun _ => .empty)) := by
    refine hdropped.withAreas ?_ ?_
    · intro sp a i _ ha
      cases ha
    · intro v pte i inner hk
      simp only [MmState.withMem, lookup_filterKeys] at hk
      grind
  exact hfinal

/-- **`try_clone`**: every file mapping of the child gets a listener of its own. -/
theorem tryClone_backed : settles (tryClone (ops env) s) st (Backed env track) := by
  refine tryClone_settles (fun rest st' => Backed env track st' ∧ ∀ a ∈ rest, ∀ i,
    a.backend = .file i → ∃ inner, st'.mem.inners[i]? = some inner ∧ Fits inner s a) ?_ ?_
    (fun _ h' => h'.1)
  · intro sp hsp
    refine ⟨h.pushSpace sp.vaStart sp.vaStop, ?_⟩
    intro a ha i hb
    exact h.areas s sp a i hsp ha hb
  rintro st' a rest ⟨h', hfits⟩
  have hrest : ∀ (st₁ st₂ : FileSt), st₂.mem.inners = st₁.mem.inners →
      (∀ (i : Nat) inner, st'.mem.inners[i]? = some inner → st₁.mem.inners[i]? = some inner) →
      ∀ b ∈ rest, ∀ i, b.backend = .file i →
        ∃ inner, st₂.mem.inners[i]? = some inner ∧ Fits inner s b := by grind
  -- the new area, once its backend is made
  have hmap : ∀ (b : Backend) (st₁ : FileSt), Backed env track st₁ →
      (∀ (i : Nat) inner, st'.mem.inners[i]? = some inner → st₁.mem.inners[i]? = some inner) →
      (∀ i, b = .file i → ∃ inner, st₁.mem.inners[i]? = some inner
        ∧ Fits inner st.spaces.length { a with backend := b }) →
      wp (mapArea (ops env) st.spaces.length { a with backend := b }) st₁
        (fun _ st₂ => Backed env track st₂ ∧ ∀ c ∈ rest, ∀ i, c.backend = .file i →
          ∃ inner, st₂.mem.inners[i]? = some inner ∧ Fits inner s c)
        (orHalt (fun st₂ => settles (dropSpace (ops env) st.spaces.length) st₂
          (Backed env track))) := by
    intro b st₁ h₁ hkeep hfit
    refine wp_mono (mapArea_backed h₁ hfit) ?_ (fun _ _ he => he.imp_right dropSpace_backed)
    intro _ st₂ h₂
    exact ⟨h₂.1, hrest st₁ st₂ h₂.2.1 hkeep⟩
  match hb : a.backend with
  | .shared start pages size =>
    show wp (mapArea (ops env) st.spaces.length { a with
      backend := .shared start pages size }) st' _ _
    exact hmap _ st' h' (fun _ _ => id) (fun i hi => by simp at hi)
  | .other size =>
    show wp (do
      let backend ← (do
        otherCall env
        return Backend.other size)
      mapArea (ops env) st.spaces.length { a with backend := backend }) st' _ _
    simp only [wp_bind, wp_pure]
    refine wp_mono (otherCall_backed h') ?_ (fun _ _ he => he.imp_right dropSpace_backed)
    grind
  | .file i =>
    show wp (do
      let backend ← cloneFile i st.spaces.length
      mapArea (ops env) st.spaces.length { a with backend := backend }) st' _ _
    unfold cloneFile modifyMem
    simp only [wp_bind, wp_pure, wp_get, wp_modify]
    refine wp_mono wp_getInner ?_ (fun _ _ he => he.imp_right False.elim)
    rintro inner st₁ ⟨rfl, hi⟩
    obtain ⟨inner', hi', hf⟩ := hfits a (.head _) i hb
    rw [hi] at hi'
    cases hi'
    refine hmap _ _ (h'.pushInner (h'.opened i inner hi)) ?_ ?_
    · intro j inner'' hj
      show (st₁.mem.inners ++ _)[j]? = _
      grind
    intro k hk
    cases hk
    exact ⟨_, List.getElem?_concat_length, rfl, hf.start, hf.aligned, hf.small⟩

end

/-- The file of a mapping that is populated at once has room for its pages. -/
def PopulateOk (st : FileSt) (populate : Bool) (file size : Nat) : Prop :=
  populate = true → ∀ fs, st.mem.files[file]? = some fs →
    fs.pageCache.len + size / 4096 ≤ fs.pageCache.cap

/-- **`AddrSpace::map`** with a backend that fits. -/
theorem mapSpace_backed {populate : Bool} {b : Backend} (h : Backed env track st)
    (hb : ∀ i, b = .file i → ∃ inner, st.mem.inners[i]? = some inner
      ∧ PopulateOk st populate inner.file size
      ∧ (start % 4096 = 0 → size % 4096 = 0 → ∀ hlt : start < start + size,
        Fits inner s ⟨start, start + size, hlt, flags, b⟩)) :
    settles (map (ops env) s start size flags populate b) st (Backed env track) := by
  refine map_settles (fun st' => Backed env track st'
    ∧ (populate = true → RoomFor st' s start (start + size))) h ?_ ?_
  · intro hstart hsize hlt
    refine wp_mono_ok (mapArea_backed h ?_) ?_
    · grind
    rintro _ st' ⟨h', hinners, hsizes, hown⟩
    refine ⟨h', ?_⟩
    -- the whole range lies in the new area
    intro hpop v i inner fs hlo hhi hat hfs
    obtain ⟨inner', hi', hroom, -⟩ := hb i (hown v i inner ⟨hlo, hhi⟩ hat)
    obtain ⟨-, -, -, -, -, -, hi⟩ := hat
    rw [hinners, hi'] at hi
    cases hi
    obtain ⟨fs₀, hfs₀, hlen, hcap⟩ := hsizes _ fs hfs
    have hspare := hroom hpop fs₀ hfs₀
    omega
  · intro st' h'
    split
    next hpop => exact populateArea_backed h'.1 (h'.2 hpop)
    · exact h'.1

/-- **`mmap` of a file**, with a fresh mapping of its own. -/
theorem mmapFile_backed {file offset : Nat} {populate : Bool} {fileFlags : FileFlags}
    (h : Backed env track st) (hsmall : u32 (offset / 4096) + size / 4096 ≤ 2 ^ 32)
    (hroom : PopulateOk st populate file size) :
    settles (mmapFile env s start size flags populate file fileFlags offset) st
      (Backed env track) := by
  unfold settles mmapFile newFile modifyMem
  simp only [wp_bind, wp_get]
  cases hfile : st.mem.files[file]? with
  | none => exact .inl rfl
  | some fs =>
    refine mapSpace_backed (h.pushInner ⟨fs, hfile⟩) ?_
    intro i hi
    cases hi
    refine ⟨_, List.getElem?_concat_length, hroom, ?_⟩
    intro hstart hsize hlt
    refine ⟨rfl, le_rfl, ⟨hstart, hstart, ?_⟩, ?_⟩
    · show (start + size) % 4096 = 0
      omega
    · show u32 (offset / 4096) + (start + size - start) / 4096 ≤ 2 ^ 32
      rw [Nat.add_sub_cancel_left]
      exact hsmall

/-! ## §4. Calls on a file. -/

/-- Nobody maps what a call drops: no thread holds the lock of a space that
shows a page of the file, and no mapped page of an in-memory file is cut off. -/
def CallOk (env : Env) (st : FileSt) (f : Nat) (op : FileOp) : Prop :=
  ∀ s v i pn pte, st.mem.ptes.lookup (s, v) = some pte → Shows st s v i f pn →
    s ∉ st.mem.locked
      ∧ ∀ fs, st.mem.files[f]? = some fs → (env.file f).inMemory = true → ¬ fs.Discards op pn

theorem call_backed {f : Nat} {op : FileOp} (h : Backed env track st) (hok : CallOk env st f op) :
    settles (do
      let _ ← onFile f [] (exec (env.file f) op)
      return ()) st (Backed env track) := by
  unfold settles
  simp only [wp_bind, wp_pure]
  cases hfs : st.mem.files[f]? with
  | none =>
    unfold wp onFile
    rw [hfs]
    exact .inl rfl
  | some fs =>
    have hafter : ∀ fs', Trace (env.file f) (fs.Discards op) { fs with evictions := [] } fs' →
        Backed env track (afterFile f [] st fs') := by
      intro fs' ht
      refine h.afterFile hfs ht (fun _ => id) ?_
      intro s v i pn pte hk hshow _
      obtain ⟨hlocked, hdisc⟩ := hok s v i pn pte hk hshow
      exact ⟨fun _ => ⟨List.not_mem_nil, hlocked⟩, fun hD => hdisc fs hfs hD.1 hD.2⟩
    refine wp_onFile hfs ?_
    refine wp_mono (exec_trace op (fun pn hpn => hpn) (.refl _ _ _)) ?_ ?_
    · intro _ fs' ht
      exact hafter fs' ht.1
    · intro _ fs' ht
      exact .inr (hafter fs' ht.1)

theorem openFile_backed {fs : FileState} (h : Backed env track st) :
    Backed env track (st.withMem (fun m => { m with files := m.files ++ [fs] })) := by
  -- a mapping only knows files that were open before
  have hold : ∀ (g : Nat) (gs gs' : FileState), st.mem.files[g]? = some gs →
      (st.mem.files ++ [fs])[g]? = some gs' → gs' = gs := by grind
  refine ⟨h.areas, ?_, h.placed, ?_⟩
  · intro i inner hi
    obtain ⟨gs, hg⟩ := h.opened i inner hi
    refine ⟨gs, ?_⟩
    show (st.mem.files ++ [fs])[inner.file]? = some gs
    rw [List.getElem?_append_left (getElem?_eq_some_iff.mp hg).1]
    exact hg
  · intro s v pte i inner fs' hk hX hat hfs'
    obtain ⟨gs, hg⟩ := h.file_of_areaAt hat
    rw [hold _ gs fs' hg hfs']
    exact h.shown s v pte i inner gs hk hX hat hg

/-! ## §5. The system. -/

/-- **What a step has to respect for the page tables to follow the cache.** -/
def Careful (env : Env) (st : FileSt) : FileMapOp → Prop
  | .mm (.fault s v _) => FaultOk env st s v
  | .mm (.populateArea s start size _) => RoomFor st s start (start + size)
  | .mmapFile _ _ size _ populate file _ offset =>
    u32 (offset / 4096) + size / 4096 ≤ 2 ^ 32 ∧ PopulateOk st populate file size
  | .call f op => CallOk env st f op
  | _ => True

/-- **What `mprotect` has to respect for writable pages to be dirty.** -/
def ProtectsDirty (env : Env) (st : FileSt) : FileMapOp → Prop
  | .mm (.protect s start size newFlags) => WriteOk env st s start (start + size) newFlags
  | _ => True

theorem boot_backed : Backed env track boot where
  areas s sp a i hsp := absurd hsp (by simp [boot])
  opened i inner hi := absurd hi (by simp [boot])
  placed s v pte hk := absurd hk (by simp [boot])
  shown s v pte i inner fs hk := absurd hk (by simp [boot])

theorem fileStep_backed {st' : FileSt} {op : FileMapOp} (h : Backed env track st)
    (hok : Careful env st op) (hprot : track → ProtectsDirty env st op)
    (hs : fileStep env st op = some st') : Backed env track st' := by
  cases op with
  | mm op =>
    simp only [fileStep, Option.ite_none_right_eq_some] at hs
    obtain ⟨hmay, hs⟩ := hs
    refine runStep_of_settles ?_ hs
    cases op with
    | newSpace base size => exact h.pushSpace base (base + size)
    | map s start size flags populate b =>
      -- `mayRun` leaves the backends that are not files
      refine mapSpace_backed h ?_
      intro i hi
      subst hi
      simp [mayRun] at hmay
    | populateArea s start size access => exact populateArea_backed h hok
    | fault s v access => exact settles_bind (fault_backed h hok) (fun _ _ => id)
    | protect s start size newFlags => exact protect_backed h hprot
    | unmap s start size => exact unmapArea_backed h
    | fork s => exact tryClone_backed h
    | exit s => exact dropSpace_backed h
  | mmapFile s start size flags populate file fileFlags offset =>
    simp only [fileStep] at hs
    split at hs
    · cases hs
    · exact runStep_of_settles (mmapFile_backed h hok.1 hok.2) hs
  | openFile node =>
    simp only [fileStep, Option.some.injEq] at hs
    subst hs
    exact openFile_backed h
  | call f op => exact runStep_of_settles (call_backed h hok) hs
  | lock s =>
    simp only [fileStep] at hs
    split at hs
    · cases hs
    · cases hs
      exact ⟨h.areas, h.opened, h.placed, h.shown⟩
  | unlock s =>
    simp only [fileStep, Option.some.injEq] at hs
    subst hs
    exact ⟨h.areas, h.opened, h.placed, h.shown⟩

end Calls

/-! ## §6. The results. -/

/-- A condition that implies `Careful` and can be computed: no cache is full, no
lock is held, and a file that is called is on disk. -/
def quiet (st : FileSt) : FileMapOp → Bool
  | .mm (.fault _ _ _) => st.mem.files.all (fun fs => fs.pageCache.len < fs.pageCache.cap)
  | .mm (.populateArea _ _ _ _) => false
  | .mmapFile _ _ size _ populate _ _ offset =>
    decide (u32 (offset / 4096) + size / 4096 ≤ 2 ^ 32) && !populate
  | .call _ _ => st.mem.locked.isEmpty
  | _ => true

theorem careful_of_quiet {op : FileMapOp} (h : quiet st op = true) :
    Careful (reliable false) st op := by
  unfold Careful
  split
  · -- a cache that is not full evicts nothing
    intro i inner fs vpn _ hfs _ hev
    simp only [quiet, List.all_eq_true, decide_eq_true_eq] at h
    have hroom := h fs (List.mem_of_getElem? hfs)
    exact absurd hev.2.1 (Nat.ne_of_lt hroom)
  · simp [quiet] at h
  · simp only [quiet, Bool.and_eq_true, decide_eq_true_eq, Bool.not_eq_true'] at h
    exact ⟨h.1, fun hpop => absurd (h.2.symm.trans hpop) (by simp)⟩
  · intro s v i pn pte _ _
    simp only [quiet, List.isEmpty_iff] at h
    exact ⟨h ▸ List.not_mem_nil, fun _ _ hmem => absurd hmem (by simp [reliable])⟩
  · trivial

end StarryOS.Mm.FileMap
