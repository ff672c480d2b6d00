/-
  StarryOS.Fs.CacheEffects — WHAT THE PROGRAMS OF A CACHED FILE DO, one lemma per
  program.

  Each lemma covers both exits and every answer of the environment, and says
  what happens to the bytes of the node and to the map of cached pages.

  `maxEnd` bounds the offsets whose page number, rounded up, fits the `u32` of
  the page cache.  `writeBackOk` is the case in which an eviction loses nothing:
  the page is clean, or the node answers `len` and takes the whole page.
-/
import StarryOS.Fs.CachedFile

namespace StarryOS.Fs

open Lib

/-! ## §1. Page arithmetic. -/

theorem div_eq_page_iff (i pn : Nat) :
    i / pageSize = pn ↔ pn * pageSize ≤ i ∧ i < pn * pageSize + pageSize := by
  simp only [pageSize]
  omega

theorem page_start_le (i : Nat) : i / pageSize * pageSize ≤ i := by
  simp only [pageSize]
  omega

theorem mod_eq_sub_page {i pn : Nat} (h : i / pageSize = pn) :
    i % pageSize = i - pn * pageSize := by
  simp only [pageSize] at h ⊢
  omega

theorem mod_lt_page (i : Nat) : i % pageSize < pageSize := by
  simp only [pageSize]
  omega

/-- The largest end offset whose page number, rounded up, fits `u32`. -/
def maxEnd : Nat := (2 ^ 32 - 1) * pageSize

theorem u32_div_page {x : Nat} (h : x ≤ maxEnd) : u32 (x / pageSize) = x / pageSize := by
  simp only [maxEnd, u32, pageSize] at h ⊢
  omega

theorem u32_ceil_page {x : Nat} (h : x ≤ maxEnd) :
    u32 ((x + (pageSize - 1)) / pageSize) = (x + (pageSize - 1)) / pageSize := by
  simp only [maxEnd, u32, pageSize] at h ⊢
  omega

theorem u64_of_le {x : Nat} (h : x ≤ maxEnd) : u64 x = x := by
  simp only [maxEnd, u64, pageSize] at h ⊢
  omega

theorem lt_ceil_page_iff (pn x : Nat) :
    pn < (x + (pageSize - 1)) / pageSize ↔ pn * pageSize < x := by
  simp only [pageSize]
  omega

theorem succ_page (pn : Nat) : (pn + 1) * pageSize = pn * pageSize + pageSize := by
  simp only [pageSize]
  omega

/-! ## §2. The backing node. -/

/-- The node refuses a call. -/
def IoOutcome.isErr : IoOutcome → Bool
  | .err => true
  | _ => false

theorem IoOutcome.eq_err {o : IoOutcome} (h : o.isErr = true) : o = .err := by
  cases o with
  | err => rfl
  | _ => cases h

/-- A call that transfers data does not stop before `n` bytes. -/
def IoOutcome.covers : IoOutcome → Nat → Bool
  | .short k, n => decide (n ≤ k)
  | _, _ => true

variable (env : Env) (st : FileState)

theorem nodeLen_effect :
    wp (nodeLen env) st
      (fun n st' => n = st.node.length ∧ st' = { st with ios := st.ios + 1 })
      (fun _ st' => st' = { st with ios := st.ios + 1 } ∧ (env.io st.ios).isErr = true) := by
  unfold nodeLen nodeCall
  simp only [wp_bind, wp_modifyGet]
  cases env.io st.ios with
  | err | ok | short k => exact ⟨rfl, rfl⟩

theorem nodeSetLen_effect (len : Nat) (st : FileState) :
    wp (nodeSetLen env len) st
      (fun _ st' => st' = { st with node := resize 0 len st.node, ios := st.ios + 1 })
      (fun _ st' => st' = { st with ios := st.ios + 1 } ∧ (env.io st.ios).isErr = true) := by
  unfold nodeSetLen nodeCall
  simp only [wp_bind, wp_modifyGet]
  cases env.io st.ios with
  | err => exact ⟨rfl, rfl⟩
  | ok => rfl
  | short k => rfl

theorem nodeWriteAt_effect (buf : Bytes) (off : Nat) (st : FileState) :
    wp (nodeWriteAt env buf off) st
      (fun _ st' => ∃ m, ((env.io st.ios).covers buf.length = true → buf.length ≤ m)
        ∧ st' = { st with node := overwrite 0 st.node off (buf.take m), ios := st.ios + 1 })
      (fun _ st' => st' = { st with ios := st.ios + 1 } ∧ (env.io st.ios).isErr = true) := by
  unfold nodeWriteAt nodeCall
  simp only [wp_bind, wp_modifyGet]
  cases env.io st.ios with
  | err => exact ⟨rfl, rfl⟩
  | ok =>
    refine ⟨buf.length, fun _ => le_rfl, ?_⟩
    rw [List.take_length]
  | short k => exact ⟨k, of_decide_eq_true, rfl⟩

/-- Growing the node adds zeros at the end and leaves the cache alone. -/
theorem growNode_effect (stop : Nat) (buf : Bytes) (st : FileState) :
    wp (growNode env stop buf) st
      (fun r st' => r = (0, buf) ∧ ∃ ios, st' = { st with
        node := resize 0 (max st.node.length stop) st.node, ios := ios })
      (fun _ st' => (∃ ios, st' = { st with ios := ios }) ∧ ∃ k, (env.io k).isErr = true) := by
  unfold growNode
  rw [wp_bind]
  refine wp_mono (nodeLen_effect env st) ?_ (fun _ _ hpost => ⟨⟨_, hpost.1⟩, _, hpost.2⟩)
  rintro len st₁ ⟨rfl, rfl⟩
  apply wp_ite
  · intro hlt
    rw [wp_bind]
    refine wp_mono (nodeSetLen_effect env stop _) ?_ (fun _ _ hpost => ⟨⟨_, hpost.1⟩, _, hpost.2⟩)
    intro _ st₂ hpost
    subst hpost
    rw [Nat.max_eq_right (by omega)]
    exact ⟨rfl, _, rfl⟩
  · intro hle
    rw [Nat.max_eq_left (by omega), resize_length_self]
    exact ⟨rfl, _, rfl⟩

/-! ## §3. Eviction and filling. -/

/-- `evict_cache` of this page, started now, loses nothing: the page is clean,
or the node answers `len` and takes every byte of the `write_at`. -/
def writeBackOk (env : Env) (st : FileState) (pn : Nat) (page : PageCache) : Bool :=
  let len := min (st.node.length - pn * pageSize) pageSize
  !page.dirty || (!(env.io st.ios).isErr
    && (len == 0 || (!(env.io (st.ios + 1)).isErr && (env.io (st.ios + 1)).covers len)))

/-- A prefix of a page written to its place in the node, inside the file. -/
theorem overwrite_page (node : Bytes) (pn : Nat) (data : Nat → UInt8) {m : Nat}
    (hm : m ≤ min (node.length - pn * pageSize) pageSize) (hin : pn * pageSize ≤ node.length) :
    (overwrite 0 node (pn * pageSize) (blockOf data 0 m)).length = node.length
      ∧ ∀ j, (overwrite 0 node (pn * pageSize) (blockOf data 0 m)).getD j 0
        = if j / pageSize = pn ∧ j < pn * pageSize + m then data (j % pageSize)
          else node.getD j 0 := by
  refine ⟨?_, ?_⟩
  · simp only [length_overwrite, length_blockOf]
    omega
  intro j
  rw [getD_overwrite, length_blockOf, getD_blockOf]
  by_cases hpage : j / pageSize = pn
  · have hrange := (div_eq_page_iff j pn).mp hpage
    by_cases hj : j < pn * pageSize + m
    · rw [if_pos (by omega), if_pos (by omega), if_pos ⟨hpage, hj⟩, Nat.zero_add,
          mod_eq_sub_page hpage]
    · rw [if_neg (by omega), if_neg (fun h => hj h.2)]
  · have hrange := mt (div_eq_page_iff j pn).mpr hpage
    rw [if_neg (by omega), if_neg (fun h => hpage h.1)]

/-- What an eviction that returned has done: the cache is as it was, the node
keeps its length, and the first `m` bytes of a dirty page are in it. -/
@[grind cases] structure WrittenBack (env : Env) (pn : Nat) (page : PageCache)
    (st st' : FileState) : Prop where
  cache : st'.pageCache = st.pageCache
  length : st'.node.length = st.node.length
  bytes : ∃ m, (writeBackOk env st pn page = true →
      min (st.node.length - pn * pageSize) pageSize ≤ m)
    ∧ ∀ j, st'.node.getD j 0
      = if page.dirty = true ∧ j / pageSize = pn ∧ j < pn * pageSize + m
        then page.data (j % pageSize) else st.node.getD j 0

/-- One that failed has done nothing, and its page was not safe to evict. -/
@[grind cases] structure EvictFailed (env : Env) (pn : Nat) (page : PageCache)
    (st st' : FileState) : Prop where
  cache : st'.pageCache = st.pageCache
  node : st'.node = st.node
  refused : writeBackOk env st pn page = false

theorem evictCache_node (pn : Nat) (page : PageCache) :
    wp (evictCache env pn page) st
      (fun page' st' => WrittenBack env pn page st st' ∧ page'.dirty = false
        ∧ ∃ bytes ios, st' = { st with
          evictions := st.evictions ++ [pn], node := bytes, ios := ios })
      (fun _ st' => EvictFailed env pn page st st' ∧ (∃ k, env.io k = .err)
        ∧ ∃ ios, st' = { st with evictions := st.evictions ++ [pn], ios := ios }) := by
  unfold evictCache
  simp only [wp_bind, wp_modify]
  apply wp_ite
  · intro hd
    rw [wp_bind]
    refine wp_mono (nodeLen_effect env _) ?_ ?_
    · rintro n st₁ ⟨rfl, rfl⟩
      apply wp_ite
      · intro hpos
        simp only at hpos
        rw [wp_bind]
        refine wp_mono (nodeWriteAt_effect env _ _ _) ?_ ?_
        · rintro _ st₂ ⟨m, hm, rfl⟩
          rw [take_blockOf, Nat.zero_add]
          obtain ⟨hlen, hbytes⟩ := overwrite_page st.node pn page.data
            (Nat.min_le_left _ m) (by omega)
          refine ⟨⟨rfl, hlen, min (min (st.node.length - pn * pageSize) pageSize) m, ?_, ?_⟩, rfl,
            _, _, rfl⟩
          · -- a complete write covers the part of the page below the end of the file
            intro hok
            simp only [writeBackOk, hd, Bool.not_true, Bool.false_or, Bool.and_eq_true,
              Bool.or_eq_true, beq_iff_eq] at hok
            rcases hok.2 with hnil | hfull
            · omega
            · have hall := hm (by rw [length_blockOf]; exact hfull.2)
              simp only [length_blockOf] at hall
              omega
          · intro j
            rw [hbytes j]
            simp only [hd, true_and]
        · rintro _ st₂ ⟨rfl, herr⟩
          refine ⟨⟨rfl, rfl, ?_⟩, ⟨_, IoOutcome.eq_err herr⟩, _, rfl⟩
          simp only at herr
          have hne : (min (st.node.length - pn * pageSize) pageSize == 0) = false := by
            rw [beq_eq_false_iff_ne]
            omega
          grind [writeBackOk]
      · -- nothing of the page lies below the end of the file
        intro hpos
        simp only at hpos
        refine ⟨⟨rfl, rfl, 0, fun _ => by omega, ?_⟩, rfl, _, _, rfl⟩
        intro j
        rw [if_neg]
        intro hj
        have hrange := (div_eq_page_iff j pn).mp hj.2.1
        omega
    · rintro _ st₁ ⟨rfl, herr⟩
      refine ⟨⟨rfl, rfl, ?_⟩, ⟨_, IoOutcome.eq_err herr⟩, _, rfl⟩
      grind [writeBackOk]
  · intro hd
    refine ⟨⟨rfl, rfl, pageSize, fun _ => Nat.min_le_right _ _, ?_⟩, by simpa using hd, _, _, rfl⟩
    intro j
    rw [if_neg (fun h => hd h.1)]

/-- **`evict_cache(..)?` under every answer of the node.** -/
theorem evictPopped_effect (pn : Nat) (page : PageCache) :
    wp (evictPopped env pn page) st
      (fun page' st' => WrittenBack env pn page st st' ∧ page'.dirty = false
        ∧ ∃ bytes ios, st' = { st with
          evictions := st.evictions ++ [pn], node := bytes, ios := ios })
      (fun _ st' => EvictFailed env pn page st st' ∧ (∃ k, env.io k = .err)
        ∧ ∃ ios lost, st' = { st with
          evictions := st.evictions ++ [pn], ios := ios
          dirtyDrops := st.dirtyDrops ++ lost }) := by
  have hevict := evictCache_node env st pn page
  unfold evictPopped
  unfold wp at hevict ⊢
  cases he : evictCache env pn page st with
  | ok page' st' =>
    simp only [he] at hevict ⊢
    exact hevict
  | error e st' =>
    simp only [he] at hevict ⊢
    obtain ⟨hfailed, herr, ios, rfl⟩ := hevict
    unfold FileState.dropPage
    split
    · exact ⟨⟨hfailed.cache, hfailed.node, hfailed.refused⟩, herr, ios, [pn], rfl⟩
    · exact ⟨hfailed, herr, ios, [], by rw [List.append_nil]⟩

/-- The byte that `page_or_insert` fills an uncached page with. -/
def FileState.backing (env : Env) (st : FileState) (i : Nat) : UInt8 :=
  if env.inMemory then 0 else st.node.getD i 0

/-- A fresh page shows the backing below the end of the file. -/
theorem fillPage_effect (pn : Nat) (page : PageCache) :
    wp (fillPage env pn page) st
      (fun page' st' => (∃ ios, st' = { st with ios := ios }) ∧ page'.dirty = page.dirty
        ∧ ((env.inMemory || (env.io st.ios).covers pageSize) = true →
          ∀ j, j / pageSize = pn → j < st.node.length →
            page'.data (j % pageSize) = st.backing env j))
      (fun _ st' => (∃ ios, st' = { st with ios := ios }) ∧ ∃ k, env.io k = .err) := by
  -- the bytes that `read_at` brings cover the page up to the end of the file
  have hread : ∀ n, pageSize ≤ n → ∀ j, j / pageSize = pn → j < st.node.length →
      storeBlock 0 page.data 0 (slice st.node (pn * pageSize) (min pageSize n)) (j % pageSize)
        = st.node.getD j 0 := by
    intro n hn j hpn hj
    have hrange := (div_eq_page_iff j pn).mp hpn
    simp only [storeBlock, length_slice, Nat.zero_le, true_and, Nat.zero_add, Nat.sub_zero]
    rw [mod_eq_sub_page hpn, if_pos (by omega), getD_slice, if_pos (by omega)]
    congr 1
    omega
  unfold fillPage
  apply wp_ite
  · intro hmem
    refine ⟨⟨st.ios, rfl⟩, rfl, ?_⟩
    intro _ j _ _
    unfold FileState.backing
    rw [if_pos hmem]
  intro hdisk
  unfold nodeReadAt nodeCall FileState.backing
  simp only [wp_bind, wp_modifyGet, if_neg hdisk]
  cases hio : env.io st.ios with
  | err => exact ⟨⟨_, rfl⟩, _, hio⟩
  | ok =>
    refine ⟨⟨_, rfl⟩, rfl, ?_⟩
    intro _ j hpn hj
    have hj' := hread pageSize le_rfl j hpn hj
    exact hj'
  | short k =>
    refine ⟨⟨_, rfl⟩, rfl, ?_⟩
    grind [IoOutcome.covers]

/-! ## §4. The loops. -/

/-- One round of the loop of `with_pages`. -/
def onePage {T : Type} (env : Env) (stop : Nat)
    (pageEach : T → PageCache → Nat → Nat → T × PageCache) (pn pageOffset : Nat) (acc : T) :
    FsM T := do
  let (page, _) ← pageOrInsert env pn
  let r := pageEach acc page pageOffset (min (stop - pn * pageSize) pageSize)
  storePage pn r.2
  return r.1

theorem withPagesLoop_cons {T : Type} (stop : Nat)
    (pageEach : T → PageCache → Nat → Nat → T × PageCache) (pn : Nat) (rest : List Nat)
    (a : Nat) (acc : T) : withPagesLoop env stop pageEach (pn :: rest) a acc
      = onePage env stop pageEach pn a acc
        >>= fun acc' => withPagesLoop env stop pageEach rest 0 acc' := by
  funext st
  simp only [withPagesLoop, onePage, bind, EStateM.bind]
  cases pageOrInsert env pn st with
  | ok found st' => rfl
  | error e st' => rfl

variable {env} in
/-- **The sync loop** keeps what eviction keeps, and enough rounds empty the cache. -/
theorem syncLoop_rule (I : FileState → Prop) {E : AxError → FileState → Prop}
    (hI : ∀ st pn page rest, I st → st.pageCache.popLru = some ((pn, page), rest) →
      wp (evictPopped env pn page) { st with pageCache := rest }
        (fun _ st' => I st' ∧ st'.pageCache = rest) E) :
    ∀ (rounds : Nat) (st : FileState), I st → wp (syncLoop env rounds) st
      (fun _ st' => I st' ∧ (st.pageCache.len ≤ rounds → st'.pageCache.entries = [])) E := by
  intro rounds
  -- each round takes one entry off, and eviction puts none back
  induction rounds with
  | zero =>
    intro st h
    exact ⟨h, fun hlen => List.length_eq_zero_iff.mp (Nat.le_zero.mp hlen)⟩
  | succ rounds ih =>
    intro st h
    unfold syncLoop
    rw [wp_bind, wp_get]
    cases hpop : st.pageCache.popLru with
    | none => exact ⟨h, fun _ => (st.pageCache.popLru_eq_none_iff).mp hpop⟩
    | some r =>
      obtain ⟨⟨pn, page⟩, rest⟩ := r
      obtain ⟨-, -, -, hrest⟩ := LruCache.peek_popLru hpop
      simp only [wp_bind, wp_set]
      refine wp_mono_ok (hI st pn page rest h hpop) ?_
      rintro _ st₁ ⟨h₁, hcache⟩
      refine wp_mono_ok (ih st₁ h₁) ?_
      rintro _ st₂ ⟨h₂, hempty⟩
      exact ⟨h₂, fun hlen => hempty (by rw [hcache]; omega)⟩

end StarryOS.Fs
