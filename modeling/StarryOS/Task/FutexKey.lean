/-
  StarryOS.Task.FutexKey — WHICH FUTEX AN ADDRESS STANDS FOR.

  For an address in shared memory, `FutexKey::new` takes the REGION of the area
  (the shared pages, or the futex handle of the file mapping) and the distance
  from the start of the AREA.  What the address denotes is a byte of the shared
  pages or of the file, and that is counted from the start of the MAPPING.  Two
  things part the two:

    • `mprotect` and `munmap` cut areas, and the pieces start elsewhere;
    • every `mmap` of a file makes a futex handle of its own.

  `futex_keys_identify_words` says exactly for which two areas keys and bytes
  agree, in every state that the kernel can reach.
-/
import StarryOS.Mm.AreaInvariant
import StarryOS.Mm.FileListeners
import StarryOS.Lib.Transition

namespace StarryOS.Task

open Lib Fs Mm Mm.FileMap

/-! ## §1. Keys and bytes. -/

/-- `Result<Weak<SharedPages>, Weak<()>>`: shared pages or a futex handle, by
the pointer. -/
inductive Region where
  | pages (p : Nat)
  | handle (h : Nat)
  deriving DecidableEq

/-- The two kinds of key. -/
inductive FutexKey where
  /-- A futex that is private to the current process. -/
  | priv (address : Nat)
  /-- A futex in a shared memory region. -/
  | shared (offset : Nat) (region : Region)
  deriving DecidableEq

/-- The area of space `s` at an address. -/
def findArea (st : FileSt) (s address : Nat) : Option (MemoryArea Backend) :=
  st.spaces[s]?.bind (fun sp => sp.areas.find address)

/-- The region of an area, if it is shared. -/
def regionOf (m : FileMem) (a : MemoryArea Backend) : Option Region :=
  match a.backend with
  | .shared _ pages _ => some (.pages pages)
  | .file i => m.inners[i]?.map (fun inner => .handle inner.futexHandle)
  | .other _ => none

/-- `FutexKey::new`. -/
def FutexKey.new (st : FileSt) (s address : Nat) : FutexKey :=
  match findArea st s address with
  | none => .priv address
  | some a =>
    match regionOf st.mem a with
    | some region => .shared (address - a.start) region
    | none => .priv address

/-- `FutexKey::as_usize`. -/
def FutexKey.asUsize : FutexKey → Nat
  | .priv address => address
  | .shared offset _ => offset

/-- A futex table: that of a process, or that of a region. -/
inductive TableRef where
  | process (s : Nat)
  | region (r : Region)
  deriving DecidableEq

/-- `futex_table_for`, called in a process with space `s`. -/
def futexTableFor (s : Nat) : FutexKey → TableRef
  | .priv _ => .process s
  | .shared _ region => .region region

/-- The table and the slot that an address selects. -/
def slotOf (st : FileSt) (s address : Nat) : TableRef × Nat :=
  (futexTableFor s (FutexKey.new st s address), (FutexKey.new st s address).asUsize)

/-- What shared memory shows: pages, or a file. -/
inductive Shown where
  | pages (p : Nat)
  | file (f : Nat)
  deriving DecidableEq

/-- The byte that an area shows at an address, counted from the start of the
mapping. -/
def byteIn (m : FileMem) (a : MemoryArea Backend) (address : Nat) : Option (Shown × Nat) :=
  match a.backend with
  | .shared start pages _ => some (.pages pages, address - start)
  | .file i => m.inners[i]?.map (fun inner =>
    (.file inner.file, inner.offsetPage * 4096 + (address - inner.start)))
  | .other _ => none

/-- **The byte that an address denotes.** -/
def byteAt (st : FileSt) (s address : Nat) : Option (Shown × Nat) :=
  (findArea st s address).bind (fun a => byteIn st.mem a address)

/-! ## §2. Areas lie inside their mapping. -/

/-- Handles are named by places, and one handle belongs to one mapping of one
file. -/
@[grind cases] structure HandlesOk (m : FileMem) : Prop where
  small : ∀ (i : Nat) (inner : FileBackendInner), m.inners[i]? = some inner →
    inner.futexHandle < m.inners.length
  same : ∀ (i j : Nat) (inner inner' : FileBackendInner), m.inners[i]? = some inner →
    m.inners[j]? = some inner' → inner.futexHandle = inner'.futexHandle →
    inner.file = inner'.file ∧ inner.start = inner'.start ∧ inner.offsetPage = inner'.offsetPage

/-- The area starts inside its mapping. -/
def Inside (m : FileMem) (_ : Nat) (a : MemoryArea Backend) : Prop :=
  match a.backend with
  | .shared start _ _ => start ≤ a.start
  | .file i => ∃ inner, m.inners[i]? = some inner ∧ inner.start ≤ a.start
  | .other _ => True

variable {m : FileMem} {s : Nat} {α : Type} {st st' : FileSt}

/-- A piece of an area lies inside the mapping of the area. -/
theorem Inside.piece {a a' : MemoryArea Backend} (ha : Inside m s a)
    (hstart : a.start ≤ a'.start) (hb : a'.backend = a.backend) : Inside m s a' := by
  unfold Inside at ha ⊢
  grind

/-- Mappings are added, with handles that stay in order. -/
def Later (m m' : FileMem) : Prop :=
  (∀ (i : Nat) (inner : FileBackendInner), m.inners[i]? = some inner →
    m'.inners[i]? = some inner) ∧ (HandlesOk m → HandlesOk m')

theorem Inside.later {m' : FileMem} {a : MemoryArea Backend} (ha : Inside m s a)
    (h : Later m m') : Inside m' s a := by
  unfold Inside at ha ⊢
  split at ha
  · exact ha
  · obtain ⟨inner, hi, hstart⟩ := ha
    exact ⟨inner, h.1 _ inner hi, hstart⟩
  · trivial

theorem later_of_inners {m' : FileMem} (h : m'.inners = m.inners) : Later m m' := by
  refine ⟨fun i inner hi => h ▸ hi, ?_⟩
  intro hok
  refine ⟨?_, ?_⟩
  · intro i inner hi
    rw [h] at hi ⊢
    exact hok.small i inner hi
  · grind

/-- A mapping is added that shares its handle with mappings like it. -/
theorem later_push {inner : FileBackendInner}
    (hnew : HandlesOk m → inner.futexHandle ≤ m.inners.length
      ∧ ∀ (j : Nat) (inner' : FileBackendInner), m.inners[j]? = some inner' →
        inner.futexHandle = inner'.futexHandle → inner.file = inner'.file
          ∧ inner.start = inner'.start ∧ inner.offsetPage = inner'.offsetPage) :
    Later m (m.push inner) := by
  have hold : ∀ (i : Nat) (inner' : FileBackendInner), (m.inners ++ [inner])[i]? = some inner' →
      m.inners[i]? = some inner' ∨ inner' = inner := by grind
  unfold FileMem.push
  refine ⟨?_, ?_⟩
  · grind
  intro hok
  obtain ⟨hsmall, hlike⟩ := hnew hok
  refine ⟨?_, ?_⟩
  · grind
  · intro i j inner₁ inner₂ hi hj heq
    rcases hold i inner₁ hi with hi' | hi'
    · grind
    · grind

/-! ## §3. Backend calls leave areas and mappings alone. -/

/-- Neither areas nor mappings change. -/
def Still (st st' : FileSt) : Prop := st'.spaces = st.spaces ∧ st'.mem.inners = st.mem.inners

/-- A program that changes neither, however it ends. -/
def still {α : Type} (m : FileM α) : Prop :=
  ∀ st, wp m st (fun _ st' => Still st st') (fun _ st' => Still st st')

theorem Still.refl (st : FileSt) : Still st st := ⟨rfl, rfl⟩

theorem Still.trans {st₁ st₂ st₃ : FileSt} (h : Still st₁ st₂) (h' : Still st₂ st₃) :
    Still st₁ st₃ :=
  ⟨h'.1.trans h.1, h'.2.trans h.2⟩

theorem still.quiet {m : FileM α} (h : still m) : Quiet Later m := by
  intro st
  refine wp_mono (h st) ?_ ?_
  · intro _ st' hst
    exact ⟨hst.1, later_of_inners hst.2⟩
  · intro _ st' hst
    exact ⟨hst.1, later_of_inners hst.2⟩

theorem still_bind {β : Type} {m : FileM α} {f : α → FileM β} (hm : still m)
    (hf : ∀ a, still (f a)) : still (m >>= f) := by
  intro st
  refine wp_seq (hm st) ?_
  intro a st₁ h₁
  exact wp_mono (hf a st₁) (fun _ _ => h₁.trans) (fun _ _ => h₁.trans)

theorem still_pure (a : α) : still (pure a : FileM α) := fun st => Still.refl st

theorem still_throw (e : Stop) : still (throw e : FileM α) := fun st => Still.refl st

theorem still_get : still (get : FileM FileSt) := fun st => Still.refl st

theorem still_modifyMem {f : FileMem → FileMem} (hf : ∀ m, (f m).inners = m.inners) :
    still (modifyMem f) :=
  fun st => ⟨rfl, hf st.mem⟩

theorem still_onFile (f : Nat) (held : List Nat) (m : FsM α) : still (onFile f held m) := by
  intro st
  cases hfs : st.mem.files[f]? with
  | none =>
    unfold wp onFile
    rw [hfs]
    exact Still.refl st
  | some fs =>
    have hafter : ∀ fs', Still st (afterFile f held st fs') := by
      intro fs'
      have hsh := afterFile_shrinks f held st fs'
      exact ⟨hsh.spaces, hsh.inners⟩
    grind [wp_onFile, wp_trivial]

theorem still_getInner (i : Nat) : still (getInner i) := by
  refine still_bind still_get ?_
  intro st
  cases st.mem.inners[i]? with
  | some inner => exact still_pure inner
  | none => exact still_throw .halt

theorem still_checkFlags (inner : FileBackendInner) (flags : MappingFlags) :
    still (checkFlags inner flags) := by
  unfold checkFlags
  split
  · exact still_pure ()
  · exact still_throw _

theorem still_pagesOf (lo hi : Nat) (size : PageSize) : still (pagesOf lo hi size) := by
  unfold pagesOf
  split
  · exact still_pure _
  · exact still_throw _

theorem still_unmapPages (s : Nat) : ∀ vs, still (unmapPages s vs) := by
  intro vs
  induction vs with
  | nil => exact still_pure ()
  | cons v vs ih => exact still_bind (still_modifyMem (fun _ => rfl)) (fun _ => ih)

section Backends

variable (env : FileMap.Env)

theorem still_otherCall : still (otherCall env) := by
  refine still_bind still_get ?_
  intro st
  refine still_bind (still_modifyMem (fun _ => rfl)) ?_
  intro _
  split
  · exact still_pure ()
  · exact still_throw _

theorem still_ptMap (s v paddr : Nat) (flags : MappingFlags) :
    still (ptMap env s v paddr flags) := by
  refine still_bind still_get ?_
  intro st
  refine still_bind (still_modifyMem (fun _ => rfl)) ?_
  grind [still_throw, still_modifyMem]

theorem still_markWritten (f pn : Nat) : still (markWritten env f pn) := by
  refine still_bind still_get ?_
  grind [still_throw, still_modifyMem]

theorem still_populatePage (inner : FileBackendInner) (s addr : Nat) (flags access : MappingFlags) :
    still (populatePage env inner s addr flags access) := by
  refine still_bind still_get ?_
  intro st
  split
  · split
    · refine still_bind (still_markWritten env _ _) (fun _ => ?_)
      exact still_bind (still_modifyMem (fun _ => rfl)) (fun _ => still_pure _)
    · exact still_pure _
  · refine still_bind (still_onFile _ _ _) (fun r => ?_)
    exact still_bind (still_ptMap env _ _ _ _) (fun _ => still_pure _)

theorem still_populatePages (inner : FileBackendInner) (s : Nat) (flags access : MappingFlags) :
    ∀ vs pages evicted, still (populatePages env inner s flags access vs pages evicted) := by
  intro vs
  induction vs with
  | nil =>
    intro pages evicted
    exact still_pure _
  | cons v vs ih =>
    intro pages evicted
    exact still_bind (still_populatePage env inner s v flags access) (fun r => ih _ _)

theorem still_evictCallback (i s : Nat) (evicted : List Nat) :
    still (evictCallback i s evicted) := by
  intro st
  have hsh : Shrinks st (evicted.foldl (onEvict i s) st) := Shrinks.foldl (onEvict_shrinks i s) _ _
  exact ⟨hsh.spaces, hsh.inners⟩

/-- `clone_map` of an area: the child's area starts inside its mapping too. -/
theorem cloneMap_inside (s t : Nat) (a : MemoryArea Backend) (st : FileSt)
    (ha : Inside st.mem s a) :
    wp ((ops env).cloneMap a.backend s t a.start a.stop a.flags) st
      (fun b st' => Onward Later st st' ∧ Inside st'.mem t { a with backend := b })
      (fun _ st' => Onward Later st st') := by
  match hb : a.backend with
  | .shared start pages size =>
    refine ⟨⟨rfl, later_of_inners rfl⟩, ?_⟩
    unfold Inside at ha
    rw [hb] at ha
    exact ha
  | .other size =>
    show wp (do
      otherCall env
      return Backend.other size) st _ _
    rw [wp_bind]
    refine wp_mono (still_otherCall env st) ?_ ?_
    · intro _ st' hst
      exact ⟨⟨hst.1, later_of_inners hst.2⟩, trivial⟩
    · intro _ st' hst
      exact ⟨hst.1, later_of_inners hst.2⟩
  | .file i =>
    unfold Inside at ha
    rw [hb] at ha
    obtain ⟨inner, hi, hstart⟩ := ha
    show wp (cloneFile i t) st _ _
    unfold cloneFile getInner modifyMem
    simp only [wp_bind, wp_get, hi, wp_pure, wp_modify]
    refine ⟨⟨rfl, later_push ?_⟩, { inner with aspace := t }, List.getElem?_concat_length, hstart⟩
    -- the clone shares the handle of its original
    grind

theorem ops_keepsAreas : KeepsAreas (ops env) Inside Later where
  refl m := later_of_inners rfl
  trans m m' m'' h h' :=
    ⟨fun i inner hi => h'.1 i inner (h.1 i inner hi), fun hok => h'.2 (h.2 hok)⟩
  later m m' s a ha h := ha.later h
  piece m s a a' ha hstart hb := ha.piece hstart hb
  map b s lo hi flags := by
    match b with
    | .file i => exact (still_bind (still_getInner i) (fun _ => still_checkFlags _ _)).quiet
    | .shared _ _ _ => exact (still_otherCall env).quiet
    | .other _ => exact (still_otherCall env).quiet
  unmap b s lo hi := by
    match b with
    | .file i => exact (still_bind (still_pagesOf lo hi _) (fun _ => still_unmapPages s _)).quiet
    | .shared _ _ _ => exact (still_otherCall env).quiet
    | .other _ => exact (still_otherCall env).quiet
  onProtect b flags := by
    match b with
    | .file i => exact (still_bind (still_getInner i) (fun _ => still_checkFlags _ _)).quiet
    | .shared _ _ _ => exact (still_pure ()).quiet
    | .other _ => exact (still_pure ()).quiet
  protectRegion s lo hi flags := by
    apply still.quiet
    apply still_modifyMem
    intro m
    rfl
  populate b s lo hi flags access st := by
    have hother : wp (do
        otherCall env
        return ((0 : Nat), (none : Option (FileM Unit)))) st
        (fun r st' => Onward Later st st' ∧ ∀ cb, r.2 = some cb → Quiet Later cb)
        (fun _ => Onward Later st) := by
      refine wp_seq ((still_otherCall env).quiet st) ?_
      intro _ st' hst
      exact ⟨hst, fun cb hcb => absurd hcb (by simp)⟩
    match b with
    | .shared _ _ _ => exact hother
    | .other _ => exact hother
    | .file i =>
      have hstill : still ((ops env).populate (.file i) s lo hi flags access) :=
        still_bind (still_getInner i) fun inner => still_bind (still_pagesOf lo hi _) fun vs =>
          still_bind (still_populatePages env inner s flags access vs 0 []) fun _ => still_pure _
      -- what it returns besides is the callback of its own evictions
      refine wp_mono_err (E := fun _ st' => Onward Later st st' ∧ True)
        (wp_and (hstill.quiet st) ?_) (fun _ _ he => he.1)
      refine wp_seq (wp_trivial _ st) fun inner _ _ => wp_seq (wp_trivial _ _) fun vs _ _ =>
        wp_seq (wp_trivial _ _) ?_
      intro r _ _ cb hcb
      split at hcb
      · cases hcb
      · cases hcb
        exact (still_evictCallback i s r.2).quiet
  cloneMap s t a st ha := cloneMap_inside env s t a st ha
  dropPageTable s := by
    apply still.quiet
    apply still_modifyMem
    intro m
    rfl

end Backends

/-! ## §4. Reachable states. -/

/-- **The invariant**: areas start inside their mappings, and a handle belongs to
one mapping of one file. -/
@[grind cases] structure Keyed (st : FileSt) : Prop where
  areas : EveryArea Inside st
  handles : HandlesOk st.mem

theorem Keyed.of_kept (h : Keyed st) (hk : Kept Inside Later st.mem st') : Keyed st' :=
  ⟨hk.1, hk.2.2 h.handles⟩

theorem Keyed.of_still (h : Keyed st) (hst : Still st st') : Keyed st' := by
  have hlater := later_of_inners hst.2
  refine ⟨?_, hlater.2 h.handles⟩
  intro s sp a hsp ha
  rw [hst.1] at hsp
  exact (h.areas s sp a hsp ha).later hlater

theorem boot_keyed : Keyed boot := by
  refine ⟨?_, ?_, ?_⟩
  · intro s sp a hsp
    cases hsp
  · intro i inner hi
    cases hi
  · intro i j inner inner' hi
    cases hi

theorem mmapFile_keyed {env : FileMap.Env} {start size file offset : Nat} {flags : MappingFlags}
    {populate : Bool} {fileFlags : FileFlags} (h : Keyed st) :
    settles (mmapFile env s start size flags populate file fileFlags offset) st Keyed := by
  unfold settles mmapFile newFile modifyMem
  simp only [wp_bind, wp_get]
  cases hfile : st.mem.files[file]? with
  | none => exact .inl rfl
  | some fs =>
    simp only [wp_bind, wp_modify, wp_pure]
    have hlater : Later st.mem (st.mem.push ⟨start, file, fileFlags, u32 (offset / 4096),
        st.mem.inners.length, s⟩) := by grind [later_push]
    have hkept : Kept Inside Later st.mem (st.withMem (·.push ⟨start, file, fileFlags,
        u32 (offset / 4096), st.mem.inners.length, s⟩)) := by
      refine ⟨?_, hlater⟩
      intro u sp a hsp ha
      exact (h.areas u sp a hsp ha).later hlater
    refine wp_mono (hkept.map (ops_keepsAreas env) ?_) ?_ ?_
    · exact fun hlt => ⟨_, List.getElem?_concat_length, le_rfl⟩
    · intro _ st' hk
      exact h.of_kept hk
    · intro e st' he
      exact he.imp_right h.of_kept

theorem fileStep_keyed {env : FileMap.Env} {op : FileMapOp} (h : Keyed st)
    (hs : fileStep env st op = some st') : Keyed st' := by
  cases op with
  | mm op =>
    simp only [fileStep, Option.ite_none_right_eq_some] at hs
    obtain ⟨hmay, hs⟩ := hs
    have hstart : Kept Inside Later st.mem st := ⟨h.areas, later_of_inners rfl⟩
    refine h.of_kept (runStep_of_settles (hstart.execOp (ops_keepsAreas env) ?_) hs)
    intro s start size flags populate b hop hlt
    subst hop
    match b with
    | .file i => simp [mayRun] at hmay
    | .other _ => trivial
    | .shared first pages size' =>
      simp only [mayRun, Bool.and_eq_true, beq_iff_eq] at hmay
      show first ≤ start
      omega
  | mmapFile s start size flags populate file fileFlags offset =>
    simp only [fileStep] at hs
    split at hs
    · cases hs
    · exact runStep_of_settles (mmapFile_keyed h) hs
  | openFile node =>
    simp only [fileStep, Option.some.injEq] at hs
    subst hs
    exact h.of_still ⟨rfl, rfl⟩
  | call f op =>
    refine runStep_of_settles ?_ hs
    have hcall := still_bind (still_onFile f [] (exec (env.file f) op)) (fun _ => still_pure ()) st
    exact wp_mono hcall (fun _ _ => h.of_still) (fun _ _ hst => .inr (h.of_still hst))
  | lock s =>
    simp only [fileStep] at hs
    split at hs
    · cases hs
    · cases hs
      exact h.of_still ⟨rfl, rfl⟩
  | unlock s =>
    simp only [fileStep, Option.some.injEq] at hs
    exact hs ▸ h.of_still ⟨rfl, rfl⟩

/-! ## §5. When keys and bytes agree. -/

/-- `a` is an area of space `s` in shared memory. -/
def SharedArea (st : FileSt) (s : Nat) (a : MemoryArea Backend) : Prop :=
  (∃ sp, st.spaces[s]? = some sp ∧ a ∈ sp.areas.areas) ∧ (regionOf st.mem a).isSome = true

/-- **Two areas fit**: in one region they begin with the same byte; in different
regions they show no byte of one file twice. -/
def KeysFit (m : FileMem) (a b : MemoryArea Backend) : Prop :=
  if regionOf m a = regionOf m b then byteIn m a a.start = byteIn m b b.start
  else ∀ o x y, byteIn m a a.start = some (o, x) → byteIn m b b.start = some (o, y) →
    x + (a.stop - a.start) ≤ y ∨ y + (b.stop - b.start) ≤ x

section Words

variable {st : FileSt} {s : Nat} {a : MemoryArea Backend}

/-- What key and byte of an address in a shared area are. -/
theorem SharedArea.reads (h : Keyed st) (ha : SharedArea st s a) :
    ∃ region o x, regionOf st.mem a = some region ∧ byteIn st.mem a a.start = some (o, x)
      ∧ ∀ v, a.Has v → slotOf st s v = (.region region, v - a.start)
        ∧ byteAt st s v = some (o, x + (v - a.start)) := by
  obtain ⟨⟨sp, hsp, hmem⟩, hshared⟩ := ha
  obtain ⟨region, hregion⟩ := Option.isSome_iff_exists.mp hshared
  have hfind : ∀ v, a.Has v → findArea st s v = some a := by
    intro v hv
    unfold findArea
    rw [hsp]
    exact AreaSet.find_eq_some_iff.mpr ⟨hmem, hv⟩
  have hslot : ∀ v, a.Has v → slotOf st s v = (.region region, v - a.start) := by
    intro v hv
    unfold slotOf FutexKey.new
    rw [hfind v hv]
    simp only [hregion]
    rfl
  -- addresses of the area lie behind the start of the mapping
  have hbyte : ∃ o x, byteIn st.mem a a.start = some (o, x)
      ∧ ∀ v, a.Has v → byteIn st.mem a v = some (o, x + (v - a.start)) := by
    have hin := h.areas s sp a hsp hmem
    unfold Inside at hin
    unfold regionOf at hregion
    unfold byteIn
    match hb : a.backend with
    | .shared start pages size =>
      rw [hb] at hin
      refine ⟨.pages pages, a.start - start, rfl, ?_⟩
      intro v hv
      have hle := hv.1
      grind
    | .file i =>
      rw [hb] at hin
      obtain ⟨inner, hi, hstart⟩ := hin
      simp only [hi, Option.map_some]
      refine ⟨.file inner.file, _, rfl, ?_⟩
      intro v hv
      have hle := hv.1
      grind
    | .other size =>
      rw [hb] at hregion
      cases hregion
  obtain ⟨o, x, hfirst, hall⟩ := hbyte
  refine ⟨region, o, x, hregion, hfirst, ?_⟩
  intro v hv
  refine ⟨hslot v hv, ?_⟩
  unfold byteAt
  rw [hfind v hv]
  exact hall v hv

theorem shown_of_region (h : HandlesOk st.mem) {b : MemoryArea Backend} {region : Region}
    {o o' : Shown} {x y v w : Nat} (ha : regionOf st.mem a = some region)
    (hb : regionOf st.mem b = some region) (hx : byteIn st.mem a v = some (o, x))
    (hy : byteIn st.mem b w = some (o', y)) : o = o' := by
  unfold regionOf at ha hb
  unfold byteIn at hx hy
  match hab : a.backend, hbb : b.backend with
  | .shared _ p _, .shared _ q _ => grind
  | .shared _ p _, .file j => grind
  | .file i, .shared _ q _ => grind
  | .file i, .file j =>
    simp only [hab, hbb, Option.map_eq_some_iff, Prod.mk.injEq] at ha hb hx hy
    grind
  | .other _, _ => exact absurd ha (by simp [hab])
  | .shared _ _ _, .other _ => exact absurd hb (by simp [hbb])
  | .file _, .other _ => exact absurd hb (by simp [hbb])

end Words

/-- **WHEN FUTEX KEYS IDENTIFY SHARED WORDS.**  After any history, for two areas
of shared memory: the addresses in them select the same table and slot exactly
when they denote the same byte, if and only if the areas fit. -/
theorem futex_keys_identify_words (env : FileMap.Env) (st : FileSt)
    (hst : Reach (fileStep env) Always boot st) (s u : Nat) (a b : MemoryArea Backend)
    (ha : SharedArea st s a) (hb : SharedArea st u b) : (∀ v w, a.Has v → b.Has w →
      (slotOf st s v = slotOf st u w ↔ byteAt st s v = byteAt st u w)) ↔ KeysFit st.mem a b := by
  have hkeyed : Keyed st := hst.invariant Keyed boot_keyed (fun _ _ _ h _ => fileStep_keyed h)
  obtain ⟨r, o, x, hra, hxa, hreada⟩ := ha.reads hkeyed
  obtain ⟨r', o', y, hrb, hyb, hreadb⟩ := hb.reads hkeyed
  have hna := a.nonempty
  have hnb := b.nonempty
  -- the statement in numbers
  have hslot : ∀ v w, a.Has v → b.Has w →
      (slotOf st s v = slotOf st u w ↔ r = r' ∧ v - a.start = w - b.start) := by
    intro v w hv hw
    rw [(hreada v hv).1, (hreadb w hw).1, Prod.mk.injEq, TableRef.region.injEq]
  have hbyte : ∀ v w, a.Has v → b.Has w → (byteAt st s v = byteAt st u w ↔
      o = o' ∧ x + (v - a.start) = y + (w - b.start)) := by
    intro v w hv hw
    rw [(hreada v hv).2, (hreadb w hw).2, Option.some.injEq, Prod.mk.injEq]
  unfold KeysFit
  rw [hra, hrb, hxa, hyb]
  by_cases hr : r = r'
  · subst hr
    have ho : o = o' := shown_of_region hkeyed.handles hra hrb hxa hyb
    subst ho
    rw [if_pos rfl]
    constructor
    · intro hall
      have hstart := (hall a.start b.start ⟨le_rfl, hna⟩ ⟨le_rfl, hnb⟩).mp
        ((hslot _ _ ⟨le_rfl, hna⟩ ⟨le_rfl, hnb⟩).mpr ⟨rfl, by omega⟩)
      rw [hbyte _ _ ⟨le_rfl, hna⟩ ⟨le_rfl, hnb⟩] at hstart
      have hxy : x = y := by omega
      rw [hxy]
    intro hfirst v w hv hw
    rw [Option.some.injEq, Prod.mk.injEq] at hfirst
    rw [hslot v w hv hw, hbyte v w hv hw]
    constructor
    · intro h'
      exact ⟨rfl, by omega⟩
    · intro h'
      exact ⟨rfl, by omega⟩
  · rw [if_neg (fun h' => hr (Option.some.inj h'))]
    constructor
    · -- a common byte would have two keys
      intro hall p m n hp hn
      injection hp with hp
      injection hn with hn
      cases hp
      cases hn
      by_contra hmeet
      have hv : a.Has (a.start + (max x y - x)) := ⟨by omega, by omega⟩
      have hw : b.Has (b.start + (max x y - y)) := ⟨by omega, by omega⟩
      have hsame := (hall _ _ hv hw).mpr ((hbyte _ _ hv hw).mpr ⟨rfl, by omega⟩)
      exact hr ((hslot _ _ hv hw).mp hsame).1
    · intro hapart v w hv hw
      rw [hslot v w hv hw, hbyte v w hv hw]
      constructor
      · intro h'
        exact absurd h'.1 hr
      · rintro ⟨rfl, heq⟩
        obtain ⟨hv₁, hv₂⟩ := hv
        obtain ⟨hw₁, hw₂⟩ := hw
        rcases hapart o x y rfl rfl with hle | hle <;> omega

/-- A forked child shares every futex of a file mapping with its parent. -/
theorem fork_shares_futexes :
    ∃ st a b, Reach (fileStep (reliable false)) Always boot st ∧ SharedArea st 0 a
      ∧ SharedArea st 1 b ∧ a.Has 4096 ∧ b.Has 4096
      ∧ ∀ v w, a.Has v → b.Has w →
        (slotOf st 0 v = slotOf st 1 w ↔ byteAt st 0 v = byteAt st 1 w) := by
  obtain ⟨st, hst, a, hfa, b, hfb, hshared, hregion, hbyte⟩ :=
    exists_reach (fileStep (reliable false)) boot
    [.mm (.newSpace 0 65536), .openFile [], .mmapFile 0 4096 8192 .rw false 0 ⟨true, true⟩ 0,
      .mm (.fork 0)]
    (fun st => ∃ a ∈ findArea st 0 4096, ∃ b ∈ findArea st 1 4096, (regionOf st.mem a).isSome
      ∧ regionOf st.mem a = regionOf st.mem b
      ∧ byteIn st.mem a a.start = byteIn st.mem b b.start) (by decide +kernel)
  have harea : ∀ s c, findArea st s 4096 = some c →
      (∃ sp, st.spaces[s]? = some sp ∧ c ∈ sp.areas.areas) ∧ c.Has 4096 := by
    intro s c hc
    obtain ⟨sp, hsp, hfind⟩ := Option.bind_eq_some_iff.mp hc
    obtain ⟨hmem, hhas⟩ := AreaSet.find_eq_some_iff.mp hfind
    exact ⟨⟨sp, hsp, hmem⟩, hhas⟩
  have ha : SharedArea st 0 a := ⟨(harea 0 a hfa).1, hshared⟩
  have hb : SharedArea st 1 b := ⟨(harea 1 b hfb).1, hregion ▸ hshared⟩
  have hfit : KeysFit st.mem a b := by
    unfold KeysFit
    rw [if_pos hregion]
    exact hbyte
  exact ⟨st, a, b, hst, ha, hb, (harea 0 a hfa).2, (harea 1 b hfb).2,
    (futex_keys_identify_words (reliable false) st hst 0 1 a b ha hb).mpr hfit⟩

/-- **Two words with one key, and one word with two keys.**  `mprotect` of the
second page cuts the area, so the words at 0 and 4096 select the same slot; the
second `mmap` of the file shows byte 0 at 16384, under a table of its own. -/
theorem split_and_second_mmap_break_keys : ∃ st, Reach (fileStep (reliable false)) Always boot st
      ∧ byteAt st 0 0 = some (.file 0, 0) ∧ byteAt st 0 4096 = some (.file 0, 4096)
      ∧ slotOf st 0 0 = slotOf st 0 4096
      ∧ byteAt st 0 16384 = some (.file 0, 0) ∧ slotOf st 0 16384 ≠ slotOf st 0 0 :=
  exists_reach (fileStep (reliable false)) boot
    [.mm (.newSpace 0 65536), .openFile [], .mmapFile 0 0 8192 .rw false 0 ⟨true, true⟩ 0,
      .mmapFile 0 16384 4096 .rw false 0 ⟨true, true⟩ 0, .mm (.protect 0 4096 4096 .ro)] _
    (by decide +kernel)

end StarryOS.Task
