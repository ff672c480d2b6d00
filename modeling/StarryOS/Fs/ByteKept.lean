/-
  StarryOS.Fs.ByteKept — ONE BYTE OF A CACHED FILE, followed through every call.

  `Holds env st i b` says that offset `i` of the file holds `b`: a cached page
  shows `b`, and when the page may be dropped without a write-back (or is not
  cached at all) the backing of the file holds `b` too.  The backing is the
  node for a disk file and zero for an in-memory file, whose pages are the
  only copy of the data.

  The lemmas cover BOTH EXITS of every program and every answer of the
  environment.  What they ask for is that no page leaves the cache without its
  bytes: `writeBackOk` for a single eviction, and from it, following the code,
  the check `keepsBytes env st op` of a whole call.
-/
import StarryOS.Fs.CacheTrace

namespace StarryOS.Fs

open Lib LruCache

/-! ## §1. Holding a byte. -/

/-- Offset `i` of the file holds `b`. -/
@[grind cases] structure Holds (env : Env) (st : FileState) (i : Nat) (b : UInt8) : Prop where
  inside : i < st.node.length
  cached : ∀ page, st.pageCache.peek (i / pageSize) = some page → page.data (i % pageSize) = b
  /-- Unless a page that cannot be dropped covers it, the backing has it. -/
  backed : (∀ page, st.pageCache.peek (i / pageSize) = some page →
    env.inMemory = false ∧ page.dirty = false) → st.backing env i = b

variable {env : Env} {i : Nat} {b : UInt8}

section Holds

variable {st st' : FileState}

theorem Holds.transfer (h : Holds env st i b) (hin : i < st'.node.length)
    (hnode : st'.node.getD i 0 = st.node.getD i 0)
    (hpeek : st'.pageCache.peek (i / pageSize) = st.pageCache.peek (i / pageSize)) :
    Holds env st' i b where
  inside := hin
  cached page hp := h.cached page (hpeek ▸ hp)
  backed hclean := by
    unfold FileState.backing
    rw [hnode]
    exact h.backed (fun page hp => hclean page (hpeek.trans hp))

/-- The byte comes from the backing when its page is not cached. -/
theorem Holds.of_uncached (hin : i < st.node.length)
    (hpeek : st.pageCache.peek (i / pageSize) = none) (hb : st.backing env i = b) :
    Holds env st i b where
  inside := hin
  cached page hp := by
    rw [hpeek] at hp
    cases hp
  backed _ := hb

theorem Holds.backing_of_uncached (h : Holds env st i b)
    (hpeek : st.pageCache.peek (i / pageSize) = none) : st.backing env i = b := by
  apply h.backed
  intro page hp
  rw [hpeek] at hp
  cases hp

/-- A page stored into its slot: the bytes of the other pages are untouched,
its own bytes must be right, and it must not be droppable unless the backing
agrees. -/
theorem Holds.store {pn : Nat} {old page : PageCache} (hin : i < st.node.length)
    (hpeek : st.pageCache.peek pn = some old) (hother : i / pageSize ≠ pn → Holds env st i b)
    (hdata : i / pageSize = pn → page.data (i % pageSize) = b)
    (hback : i / pageSize = pn → env.inMemory = false → page.dirty = false → st.node.getD i 0 = b) :
    Holds env { st with pageCache := st.pageCache.getMut pn (fun _ => page) } i b := by
  by_cases hpn : i / pageSize = pn
  · have hnew : (st.pageCache.getMut pn (fun _ => page)).peek (i / pageSize) = some page := by
      rw [peek_getMut, if_pos hpn, hpeek, Option.map_some]
    refine ⟨hin, ?_, ?_⟩
    · grind
    intro hclean
    obtain ⟨hdisk, hd⟩ := hclean page hnew
    unfold FileState.backing
    rw [if_neg (by rw [hdisk]; simp)]
    exact hback hpn hdisk hd
  · refine (hother hpn).transfer hin rfl ?_
    show (st.pageCache.getMut pn (fun _ => page)).peek _ = _
    rw [peek_getMut, if_neg hpn]

/-- **Every byte that `st` holds is held by `st'` too.** -/
def Keeps (env : Env) (st st' : FileState) : Prop := ∀ i b, Holds env st i b → Holds env st' i b

theorem Keeps.trans {st₁ st₂ st₃ : FileState} (h : Keeps env st₁ st₂) (h' : Keeps env st₂ st₃) :
    Keeps env st₁ st₃ := fun i b hb => h' i b (h i b hb)

theorem Keeps.of_eq (hnode : st'.node = st.node) (hcache : st'.pageCache = st.pageCache) :
    Keeps env st st' := by
  intro i b h
  exact h.transfer (by rw [hnode]; exact h.inside) (by rw [hnode]) (by rw [hcache])

end Holds

/-! ## §2. What a call must not lose. -/

section Checks

variable (env : Env)

/-- A full cache gives up a page without losing it. -/
def roomOk (st : FileState) : Bool :=
  if st.pageCache.len = st.pageCache.cap then
    match st.pageCache.popLru with
    | some ((pn, page), _) => !env.inMemory && writeBackOk env st pn page
    | none => true
  else true

/-- `page_or_insert` loses nothing, and does not take a page that was only
partly read for a whole one. -/
def lookupOk (st : FileState) (pn : Nat) : Bool :=
  match st.pageCache.peek pn with
  | some _ => true
  | none => roomOk env st && after (evictIfFull env) st (fun _ st' =>
    env.inMemory || (env.io st'.ios).covers pageSize)

/-- `lookupOk` at every page of the loop of `with_pages`. -/
def loopOk {T : Type} (stop : Nat) (pageEach : T → PageCache → Nat → Nat → T × PageCache) :
    List Nat → Nat → T → FileState → Bool
  | [], _, _, _ => true
  | pn :: rest, pageOffset, acc, st => lookupOk env st pn
      && after (onePage env stop pageEach pn pageOffset acc) st (fun acc' st' =>
        loopOk stop pageEach rest 0 acc' st')

/-- No page of `with_pages` is lost. -/
def withPagesOk {T : Type} (start stop : Nat) (pageInitial : FsM T)
    (pageEach : T → PageCache → Nat → Nat → T × PageCache) (st : FileState) : Bool :=
  let startPage := u32 (start / pageSize)
  let endPage := u32 ((stop + (pageSize - 1)) / pageSize)
  after pageInitial st (fun initial st' =>
    loopOk env stop pageEach (List.range' startPage (endPage - startPage))
      (start % pageSize) initial st')

/-- The same for `read_at_locked`. -/
def readAtOk (n off : Nat) (st : FileState) : Bool :=
  after (nodeLen env) st (fun len st' =>
    let stop := min (u64 (off + n)) len
    decide (stop ≤ off) || withPagesOk env off stop (return []) readEach st')

/-- For `write_at_locked`. -/
def writeAtOk (buf : Bytes) (off : Nat) (st : FileState) : Bool :=
  let stop := u64 (off + buf.length)
  withPagesOk env off stop (growNode env stop buf) (writeEach env) st

/-- For `append`. -/
def appendOk (buf : Bytes) (st : FileState) : Bool :=
  after (nodeLen env) st (fun len st' => writeAtOk env buf len st')

/-- Every page that the loop of `sync` pops is written back. -/
def syncLoopOk : Nat → FileState → Bool
  | 0, _ => true
  | rounds + 1, st =>
    match st.pageCache.popLru with
    | some ((pn, page), rest) => writeBackOk env st pn page
        && after (evictPopped env pn page) { st with pageCache := rest } (fun _ st' =>
          syncLoopOk rounds st')
    | none => true

/-- **No page leaves the cache without its bytes** while `op` runs. -/
def keepsBytes (st : FileState) : FileOp → Bool
  | .readAt n off => readAtOk env n off st
  | .writeAt buf off => writeAtOk env buf off st
  | .append buf => appendOk env buf st
  | .setLen _ => true
  | .sync _ => env.inMemory || syncLoopOk env st.pageCache.len st

end Checks

/-! ## §3. Eviction. -/

section Programs

variable {st : FileState}

variable {pn stop : Nat}

/-- **A page that is written back takes no byte with it.** -/
theorem evict_keeps {page : PageCache} {rest : LruCache Nat PageCache}
    (hdisk : env.inMemory = false) (hpeek : st.pageCache.peek pn = some page)
    (hrest : ∀ j, rest.peek j = if j = pn then none else st.pageCache.peek j)
    (hok : writeBackOk env st pn page = true) :
    wp (evictPopped env pn page) { st with pageCache := rest }
      (fun _ st' => Keeps env st st' ∧ st'.pageCache = rest) NoError := by
  refine wp_mono (evictPopped_effect env _ pn page) ?_ ?_
  · rintro page' st' ⟨⟨hcache, hlen, m, hm, hbytes⟩, -⟩
    refine ⟨?_, hcache⟩
    intro i b h
    have hin : i < st'.node.length := by
      rw [hlen]
      exact h.inside
    by_cases hpn : i / pageSize = pn
    · -- the byte now lives in the node: it was written back, or it was there
      apply Holds.of_uncached hin
      · rw [hcache, hrest, if_pos hpn]
      have hpeek' : st.pageCache.peek (i / pageSize) = some page := by
        rw [hpn]
        exact hpeek
      unfold FileState.backing
      rw [if_neg (by rw [hdisk]; simp), hbytes i]
      by_cases hd : page.dirty = true
      · have hrange := (div_eq_page_iff i pn).mp hpn
        have hall := hm hok
        have hinside := h.inside
        rw [if_pos ⟨hd, hpn, by omega⟩]
        exact h.cached page hpeek'
      rw [if_neg (fun hc => hd hc.1)]
      have hback := h.backed (fun page'' hp => by
        rw [hpeek'] at hp
        cases hp
        exact ⟨hdisk, by simpa using hd⟩)
      unfold FileState.backing at hback
      rw [if_neg (by rw [hdisk]; simp)] at hback
      exact hback
    · apply h.transfer hin
      · rw [hbytes i, if_neg (fun hc => hpn hc.2.1)]
      · rw [hcache, hrest, if_neg hpn]
  · intro _ _ hpost
    have hbad : writeBackOk env st pn page = false := hpost.1.refused
    rw [hok] at hbad
    cases hbad

/-! ## §4. Lookup. -/

theorem evictIfFull_keeps (hok : roomOk env st = true) :
    wp (evictIfFull env) st (fun _ st' => Keeps env st st'
      ∧ st'.pageCache.len < st'.pageCache.cap
      ∧ ∀ pn, st.pageCache.peek pn = none → st'.pageCache.peek pn = none) NoError := by
  unfold evictIfFull
  unfold roomOk at hok
  apply wp_ite
  · intro hfull
    obtain ⟨pn, page, rest, hpop⟩ := st.pageCache.exists_popLru_of_full hfull
    obtain ⟨hpeek, hrest, hcap, hlen⟩ := peek_popLru hpop
    rw [if_pos hfull, hpop] at hok
    simp only [Bool.and_eq_true, Bool.not_eq_true'] at hok
    rw [hpop]
    simp only [wp_bind, wp_set]
    refine wp_mono_ok (evict_keeps hok.1 hpeek hrest hok.2) ?_
    rintro page' st' ⟨hkeeps, hcache⟩
    refine ⟨hkeeps, ?_, ?_⟩
    · rw [hcache]
      omega
    intro j hj
    rw [hcache, hrest]
    split
    · rfl
    · exact hj
  · intro hfull
    exact ⟨fun _ _ => id, Nat.lt_of_le_of_ne st.pageCache.len_le hfull, fun _ => id⟩

/-- A page inserted where there was none shows the backing. -/
theorem Keeps.insert {page : PageCache} (hnone : st.pageCache.peek pn = none)
    (hroom : st.pageCache.len < st.pageCache.cap)
    (hdata : ∀ j, j / pageSize = pn → j < st.node.length →
      page.data (j % pageSize) = st.backing env j) :
    Keeps env st { st with pageCache := st.pageCache.put pn page } := by
  intro i b h
  have hput := peek_put st.pageCache pn page hroom
  by_cases hi : i / pageSize = pn
  · have hb : st.backing env i = b := h.backing_of_uncached (by rw [hi]; exact hnone)
    refine ⟨h.inside, ?_, fun _ => hb⟩
    grind
  · refine h.transfer h.inside rfl ?_
    show (st.pageCache.put pn page).peek _ = _
    rw [hput, if_neg hi]

/-- A page that is put back as it was changes nothing. -/
theorem Keeps.putBack {f : PageCache → PageCache}
    (hf : ∀ page, st.pageCache.peek pn = some page → f page = page) :
    Keeps env st { st with pageCache := st.pageCache.getMut pn f } := by
  intro i b h
  refine h.transfer h.inside rfl ?_
  show (st.pageCache.getMut pn f).peek _ = _
  rw [peek_getMut]
  split
  next hi =>
    rw [hi]
    cases hp : st.pageCache.peek pn with
    | none => rfl
    | some page => rw [Option.map_some, hf page hp]
  · rfl

section

variable (hok : lookupOk env st pn = true)
include hok

/-- **Lookup keeps every byte**, whether or not it finds a page to return. -/
theorem pageOrInsert_keeps : ends (pageOrInsert env pn) st (Keeps env st) := by
  unfold ends pageOrInsert
  unfold lookupOk at hok
  rw [wp_bind, wp_get]
  cases hpeek : st.pageCache.peek pn with
  | some page => exact Keeps.putBack (fun _ _ => rfl)
  | none =>
    rw [hpeek] at hok
    simp only [Bool.and_eq_true] at hok
    simp only [wp_bind]
    refine wp_mono (wp_after hok.2 (evictIfFull_keeps hok.1)) ?_ (fun _ _ he => he.elim)
    rintro _ st₁ ⟨⟨hkeeps, hroom, hnone⟩, hfill⟩
    unfold PageCache.new
    simp only [wp_bind, wp_get, wp_set]
    cases env.alloc st₁.allocs with
    | none => exact hkeeps.trans (Keeps.of_eq rfl rfl)
    | some fresh =>
      simp only [wp_pure]
      refine wp_mono (fillPage_effect env _ pn _) ?_ ?_
      · rintro page st₂ ⟨⟨ios, rfl⟩, -, hdata⟩
        have hsame : Keeps env st₁ { st₁ with allocs := st₁.allocs + 1, ios := ios } :=
          Keeps.of_eq rfl rfl
        exact (hkeeps.trans hsame).trans (Keeps.insert (hnone pn hpeek) hroom (hdata hfill))
      · rintro _ st₂ ⟨⟨ios, rfl⟩, -⟩
        exact hkeeps.trans (Keeps.of_eq rfl rfl)

/-- A lookup, with everything the loops need to know about it. -/
theorem pageOrInsert_found : wp (pageOrInsert env pn) st
      (fun r st' => LookedUp pn st r st' ∧ Keeps env st st') (fun _ st' => Keeps env st st') := by
  have htrace := pageOrInsert_trace pn (Trace.refl env (fun _ => True) st)
  exact wp_mono (wp_and htrace (pageOrInsert_keeps hok)) (fun _ _ hpost => ⟨hpost.1.2, hpost.2⟩)
    (fun _ _ hpost => hpost.2)

/-! ## §5. The loops of `read_at` and `write_at`. -/

/-- **One page of a read**: nothing changes but the order of use, and the block
comes from a page that shows every byte held. -/
theorem readPage_keeps {a : Nat} {acc : Bytes} : wp (onePage env stop readEach pn a acc) st
      (fun r st' => (Keeps env st st' ∧ st'.node.length = st.node.length)
        ∧ ∃ data : Nat → UInt8, r = acc ++ blockOf data a (min (stop - pn * pageSize) pageSize)
          ∧ ∀ j c, Holds env st j c → j / pageSize = pn → data (j % pageSize) = c)
      (fun _ st' => Keeps env st st') := by
  refine wp_seq (pageOrInsert_found hok) ?_
  rintro found st₁ ⟨⟨hpeek, -, -, hlen, -⟩, hkeeps⟩
  refine ⟨⟨hkeeps.trans (Keeps.putBack ?_), hlen⟩, found.1.data, rfl, ?_⟩
  · intro page hp
    rw [hpeek] at hp
    exact Option.some.inj hp
  · intro j c h hj
    exact (hkeeps j c h).cached found.1 (by rw [hj]; exact hpeek)

/-- **One page of a write**: an offset outside the part written now keeps its
byte, one inside it gets the byte of the source. -/
theorem writePage_holds {a : Nat} {acc : Nat × Bytes} :
    wp (onePage env stop (writeEach env) pn a acc) st
      (fun r st' => r = (acc.1 + (min (stop - pn * pageSize) pageSize - a),
          acc.2.drop (min (stop - pn * pageSize) pageSize - a))
        ∧ st'.node.length = st.node.length
        ∧ ∀ j c, j < st.node.length →
          (¬ (pn * pageSize + a ≤ j ∧ j < min stop (pn * pageSize + pageSize)) → Holds env st j c) →
          (pn * pageSize + a ≤ j → j < min stop (pn * pageSize + pageSize) →
            acc.2[j - (pn * pageSize + a)]? = some c) → Holds env st' j c)
      (fun _ st' => Keeps env st st') := by
  unfold onePage
  refine wp_seq (pageOrInsert_found hok) ?_
  rintro found st₁ ⟨⟨hpeek, -, -, hlen, -⟩, hkeeps⟩
  simp only [writeEach, storePage, wp_bind, wp_modify, wp_pure]
  refine ⟨trivial, hlen, ?_⟩
  intro j c hj hout hin
  refine Holds.store (by rw [hlen]; exact hj) hpeek ?_ ?_ ?_
  · intro hpn
    have hrange := mt (div_eq_page_iff j pn).mpr hpn
    exact hkeeps j c (hout (by omega))
  · intro hpn
    have hrange := (div_eq_page_iff j pn).mp hpn
    have hmod := mod_eq_sub_page hpn
    simp only [storeBlock, List.length_take]
    -- the byte is in the block that is stored, or beside it on the same page
    by_cases hpart : pn * pageSize + a ≤ j ∧ j < min stop (pn * pageSize + pageSize)
    · grind
    · rw [if_neg (by omega)]
      exact (hkeeps j c (hout hpart)).cached found.1 (by rw [hpn]; exact hpeek)
  · -- the page is dirty on disk, and in memory it is never dropped
    intro _ hdisk hd
    rw [hdisk] at hd
    simp at hd

end

/-- **The read loop.**  Induction on the pages that are left; the page number
and the offset in it give the position reached. -/
theorem readLoop_keeps : ∀ (count pn a : Nat) (acc : Bytes) (st : FileState),
    a ≤ pageSize → pn + count = (stop + (pageSize - 1)) / pageSize →
    loopOk env stop readEach (List.range' pn count) a acc st = true →
    wp (withPagesLoop env stop readEach (List.range' pn count) a acc) st
      (fun r st' => (Keeps env st st' ∧ st'.node.length = st.node.length) ∧ ∃ more, r = acc ++ more
        ∧ more.length = stop - (pn * pageSize + a)
        ∧ ∀ i b, Holds env st i b → pn * pageSize + a ≤ i → i < stop →
          more.getD (i - (pn * pageSize + a)) 0 = b)
      (fun _ st' => Keeps env st st') := by
  intro count
  -- on the pages that are left; `a` is the offset in the first of them
  induction count with
  | zero =>
    intro pn a acc st _ hpn _
    have hdone : ¬ pn * pageSize < stop := by
      rw [← lt_ceil_page_iff]
      omega
    refine ⟨⟨fun _ _ => id, rfl⟩, [], (List.append_nil acc).symm, ?_, ?_⟩
    · simp only [List.length_nil]
      omega
    · intro i b _ h1 h2
      omega
  | succ count ih =>
    intro pn a acc st ha hpn hok
    rw [List.range'_succ] at hok ⊢
    simp only [loopOk, Bool.and_eq_true] at hok
    rw [withPagesLoop_cons]
    refine wp_seq (wp_after hok.2 (readPage_keeps hok.1)) ?_
    rintro acc' st₁ ⟨⟨⟨hkeeps, hlen⟩, data, rfl, hdata⟩, hrest⟩
    refine wp_mono (ih (pn + 1) 0 _ st₁ (Nat.zero_le _) (by omega) hrest) ?_
      (fun _ _ => hkeeps.trans)
    rintro r st₂ ⟨⟨hkeeps₂, hlen₂⟩, more, rfl, hmore, hbyte⟩
    rw [succ_page] at hmore hbyte
    refine ⟨⟨hkeeps.trans hkeeps₂, hlen₂.trans hlen⟩,
      blockOf data a (min (stop - pn * pageSize) pageSize) ++ more, List.append_assoc _ _ _, ?_, ?_⟩
    · rw [List.length_append, length_blockOf]
      omega
    intro i b h h1 h2
    by_cases hpage : i < pn * pageSize + pageSize
    · -- the byte is on this page
      have hi : i / pageSize = pn := by
        rw [div_eq_page_iff]
        omega
      have hmod := mod_eq_sub_page hi
      rw [List.getD_append _ _ _ _ (by rw [length_blockOf]; omega), getD_blockOf,
          if_pos (by omega), show a + (i - (pn * pageSize + a)) = i % pageSize by omega]
      exact hdata i b h hi
    · have hidx : i - (pn * pageSize + a) - (min (stop - pn * pageSize) pageSize - a)
          = i - (pn * pageSize + pageSize + 0) := by omega
      rw [List.getD_append_right _ _ _ _ (by rw [length_blockOf]; omega), length_blockOf, hidx]
      exact hbyte i b (hkeeps i b h) (by omega) h2

/-- **`read_at`**: nothing is lost on either exit, and every byte that is held is read. -/
theorem readAt_keeps {n off : Nat} (hmax : st.node.length ≤ maxEnd) (hn : off + n < 2 ^ 64)
    (hok : readAtOk env n off st = true) : wp (readAt env n off) st
      (fun r st' => (Keeps env st st' ∧ st'.node.length = st.node.length)
        ∧ r.length = min (off + n) st.node.length - off
        ∧ ∀ i b, Holds env st i b → off ≤ i → i < off + n → r[i - off]? = some b)
      (fun _ st' => Keeps env st st') := by
  unfold readAt
  unfold readAtOk at hok
  rw [wp_bind]
  have h₁ : Keeps env st { st with ios := st.ios + 1 } := Keeps.of_eq rfl rfl
  refine wp_mono (wp_after hok (nodeLen_effect env st)) ?_ (fun _ _ he => he.1 ▸ h₁)
  rintro len st₁ ⟨⟨rfl, rfl⟩, hrest⟩
  rw [show u64 (off + n) = off + n from Nat.mod_eq_of_lt hn] at hrest ⊢
  apply wp_ite
  · intro hle
    refine ⟨⟨h₁, rfl⟩, (Nat.sub_eq_zero_of_le hle).symm, ?_⟩
    intro i b h h1 h2
    have hin := h.inside
    omega
  intro hlt
  simp only [hlt, decide_false, Bool.false_or] at hrest
  unfold withPagesOk at hrest
  unfold withPages
  rw [wp_bind, wp_pure]
  have hfit : min (off + n) st.node.length ≤ maxEnd := by omega
  simp only [after, pure, EStateM.pure] at hrest
  rw [u32_div_page (show off ≤ maxEnd by omega), u32_ceil_page hfit] at hrest ⊢
  have hpages := lt_ceil_page_iff (off / pageSize) (min (off + n) st.node.length)
  have hstart := page_start_le off
  refine wp_mono (readLoop_keeps _ _ _ _ _ (Nat.le_of_lt (mod_lt_page off)) (by omega) hrest) ?_
    (fun _ _ => h₁.trans)
  rintro r st₂ ⟨⟨hkeeps, hlen⟩, more, rfl, hmore, hbyte⟩
  rw [Nat.div_add_mod'] at hmore hbyte
  refine ⟨⟨h₁.trans hkeeps, hlen⟩, hmore, ?_⟩
  intro i b h h1 h2
  have hin := h.inside
  have hb := hbyte i b (h₁ i b h) h1 (by omega)
  grind

/-- **The write loop.**  An offset outside the range that is still to be written
holds its byte already; one inside it gets the byte of the source. -/
theorem writeLoop_holds : ∀ (count pn a : Nat) (acc : Nat × Bytes) (st : FileState),
    pn + count = (stop + (pageSize - 1)) / pageSize → a ≤ pageSize →
    loopOk env stop (writeEach env) (List.range' pn count) a acc st = true →
    wp (withPagesLoop env stop (writeEach env) (List.range' pn count) a acc) st
      (fun r st' => r.1 = acc.1 + (stop - (pn * pageSize + a)) ∧ ∀ i b, i < st.node.length →
        (¬ (pn * pageSize + a ≤ i ∧ i < stop) → Holds env st i b) →
        (pn * pageSize + a ≤ i → i < stop → acc.2[i - (pn * pageSize + a)]? = some b) →
        Holds env st' i b)
      (fun _ st' => ∀ i b, ¬ (pn * pageSize + a ≤ i ∧ i < stop) → Holds env st i b →
        Holds env st' i b) := by
  intro count
  -- the byte is held as soon as the loop has passed it; until then it is in the
  -- part of the buffer that is left
  induction count with
  | zero =>
    intro pn a acc st hpn _ _
    have hdone : ¬ pn * pageSize < stop := by
      rw [← lt_ceil_page_iff]
      omega
    exact ⟨by omega, fun i b _ h _ => h (by omega)⟩
  | succ count ih =>
    intro pn a acc st hpn ha hok
    have hlt : pn * pageSize < stop := by
      rw [← lt_ceil_page_iff]
      omega
    rw [List.range'_succ] at hok ⊢
    simp only [loopOk, Bool.and_eq_true] at hok
    rw [withPagesLoop_cons, wp_bind]
    refine wp_mono (wp_after hok.2 (writePage_holds hok.1)) ?_ (fun _ _ he i b _ => he i b)
    rintro acc' st₁ ⟨⟨rfl, hlen, hpage⟩, hrest⟩
    refine wp_mono (ih (pn + 1) 0 _ st₁ (by omega) (Nat.zero_le _) hrest) ?_ ?_
    · rintro r st₂ ⟨hr, hbytes⟩
      rw [succ_page] at hr hbytes
      refine ⟨by omega, fun i b hin h hsrc => hbytes i b (by rw [hlen]; exact hin) ?_ ?_⟩
      · -- what this page settles: its own part of the range, and everything left of it
        grind
      intro h1 h2
      have hidx : min (stop - pn * pageSize) pageSize - a
          + (i - (pn * pageSize + pageSize + 0)) = i - (pn * pageSize + a) := by omega
      rw [List.getElem?_drop, hidx]
      exact hsrc (by omega) h2
    · intro _ st₂ hbytes i b hout h
      rw [succ_page] at hbytes
      refine hbytes i b (by omega) (hpage i b h.inside (fun _ => h) ?_)
      intro h1 h2
      exact absurd ⟨h1, by omega⟩ hout

theorem Holds.grow {len : Nat} (ios : Nat) (h : Holds env st i b) (hlen : st.node.length ≤ len) :
    Holds env { st with node := resize 0 len st.node, ios := ios } i b := by
  have hin := h.inside
  refine h.transfer ?_ ?_ rfl
  · simp only [length_resize]
    omega
  · simp only [getD_resize]
    rw [if_pos (by omega)]

/-- The byte that a write of `buf` brings to an offset. -/
def byteOf (buf : Bytes) (off i : Nat) : Option UInt8 := if off ≤ i then buf[i - off]? else none

/-- The state in which the pages of a write are visited. -/
def FileState.grown (st : FileState) (len ios : Nat) : FileState :=
  { st with node := resize 0 (max st.node.length len) st.node, ios := ios }

/-- What a write of `buf` at `off` that returned has done. -/
def Wrote (env : Env) (buf : Bytes) (off : Nat) (st st' : FileState) : Prop :=
  ∀ i b, i < max st.node.length (off + buf.length) →
    (byteOf buf off i = none → ∀ ios, Holds env (st.grown (off + buf.length) ios) i b) →
    (∀ c, byteOf buf off i = some c → c = b) → Holds env st' i b

theorem byteOf_eq_none {buf : Bytes} {off : Nat} :
    byteOf buf off i = none ↔ ¬ (off ≤ i ∧ i < off + buf.length) := by
  grind [byteOf]

/-- A byte that was held, or is written. -/
theorem Wrote.kept {buf : Bytes} {off : Nat} {st' : FileState} (h : Wrote env buf off st st')
    (hkept : byteOf buf off i = none → Holds env st i b)
    (hnew : ∀ c, byteOf buf off i = some c → c = b) : Holds env st' i b := by
  refine h i b ?_ (fun hnone ios => (hkept hnone).grow ios (Nat.le_max_left _ _)) hnew
  -- the file reaches to the end of the write, or the byte was inside before
  by_cases hnone : byteOf buf off i = none
  · exact Nat.lt_of_lt_of_le (hkept hnone).inside (Nat.le_max_left _ _)
  · rw [byteOf_eq_none] at hnone
    omega

/-- **`write_at`**: an offset outside the write keeps its byte on both exits;
one inside it has the new byte when the call succeeds. -/
theorem writeAtLocked_holds {buf : Bytes} {off : Nat} (hfit : off + buf.length ≤ maxEnd)
    (hok : writeAtOk env buf off st = true) : wp (writeAtLocked env buf off) st
      (fun r st' => r = buf.length ∧ Wrote env buf off st st')
      (fun _ st' => ∀ i b, byteOf buf off i = none → Holds env st i b → Holds env st' i b) := by
  simp only [Wrote, byteOf_eq_none]
  unfold writeAtOk withPagesOk at hok
  unfold writeAtLocked withPages
  simp only [u64_of_le hfit, u32_ceil_page hfit, u32_div_page (show off ≤ maxEnd by omega)] at hok ⊢
  simp only [wp_bind, wp_pure]
  have hpos : off / pageSize * pageSize + off % pageSize = off := Nat.div_add_mod' off pageSize
  have hpages : off / pageSize ≤ (off + buf.length + (pageSize - 1)) / pageSize := by
    apply Nat.div_le_div_right
    omega
  refine wp_mono (wp_after hok (growNode_effect env (off + buf.length) buf st)) ?_ ?_
  · rintro r st₁ ⟨⟨rfl, ios, rfl⟩, hloop⟩
    have hwp := writeLoop_holds _ _ _ _ _ (by omega) (Nat.le_of_lt (mod_lt_page off)) hloop
    rw [hpos] at hwp
    refine wp_mono hwp ?_ ?_
    · rintro r st₂ ⟨hr, hbytes⟩
      refine ⟨by omega, fun i b hin hkept hnew => hbytes i b ?_ (fun hout => hkept hout ios) ?_⟩
      · rw [length_resize]
        exact hin
      · grind [byteOf]
    · exact fun _ st₂ hbytes i b hout h => hbytes i b hout (h.grow ios (Nat.le_max_left _ _))
  · rintro _ st₁ ⟨⟨ios, rfl⟩, -⟩ i b _ h
    exact h.transfer h.inside rfl rfl

/-! ## §6. `set_len` and `sync`. -/

theorem Resized.holds {len : Nat} {st' : FileState} (h : Resized len st st') (hi : i < len)
    (hb : Holds env st i b) : Holds env st' i b := by
  have hin := hb.inside
  have hlen := h.length
  by_cases hgrow : st.node.length < len
  · have hpeek := h.grown hgrow (i / pageSize)
    by_cases hpn : i / pageSize = st.node.length / pageSize
    · -- the zeroed part of the last page lies beyond the old end
      rw [if_pos hpn] at hpeek
      have hrange := (div_eq_page_iff i _).mp hpn
      have hmod := mod_eq_sub_page hpn
      have hsame : ∀ page, (zeroedTail st.node.length len page).data (i % pageSize)
          = page.data (i % pageSize) := by
        intro page
        simp only [zeroedTail, storeBlock]
        rw [if_neg (by omega)]
      refine ⟨by omega, ?_, ?_⟩
      · intro page' hp
        rw [hpeek, Option.map_eq_some_iff] at hp
        grind
      intro hclean
      unfold FileState.backing
      rw [h.node i hi]
      apply hb.backed
      intro page hp
      rw [hp] at hpeek
      exact ⟨(hclean _ hpeek).1, (hclean _ hpeek).2⟩
    · rw [if_neg hpn] at hpeek
      exact hb.transfer (by omega) (h.node i hi) hpeek
  · have hpeek := h.cut hgrow (i / pageSize)
    have hle : i / pageSize ≤ len / pageSize := Nat.div_le_div_right (Nat.le_of_lt hi)
    rw [if_neg (by omega)] at hpeek
    exact hb.transfer (by omega) (h.node i hi) hpeek

/-- **`sync`** writes every page back; only the node's own `sync` can fail. -/
theorem sync_keeps {dataOnly : Bool}
    (hok : (env.inMemory || syncLoopOk env st.pageCache.len st) = true) :
    ends (sync env dataOnly) st (fun st' => Keeps env st st'
      ∧ (env.inMemory = false → st'.pageCache.entries = [])) := by
  apply wp_ite
  · intro hmem
    exact ⟨fun _ _ => id, fun hdisk => absurd hmem (by rw [hdisk]; simp)⟩
  intro hdisk
  simp only [Bool.not_eq_true] at hdisk
  rw [hdisk] at hok
  simp only [wp_bind, wp_get]
  -- the check of the rounds that are left goes along
  refine wp_mono (syncLoop_rule (E := NoError) (fun st' => Keeps env st st'
    ∧ syncLoopOk env st'.pageCache.len st' = true) ?_ _ st ⟨fun _ _ => id, hok⟩) ?_
    (fun _ _ he => he.elim)
  · intro st' pn page rest h' hpop
    obtain ⟨hpeek, hrest, -, hlen⟩ := peek_popLru hpop
    have hok' := h'.2
    rw [← hlen] at hok'
    unfold syncLoopOk at hok'
    rw [hpop] at hok'
    simp only [Bool.and_eq_true] at hok'
    refine wp_mono_ok (wp_after hok'.2 (evict_keeps hdisk hpeek hrest hok'.1)) ?_
    rintro _ st'' ⟨⟨hkeeps, hcache⟩, hnext⟩
    rw [← hcache] at hnext
    exact ⟨⟨h'.1.trans hkeeps, hnext⟩, hcache⟩
  · rintro _ st₁ ⟨⟨hkeeps, -⟩, hempty⟩
    unfold nodeSync nodeCall
    simp only [wp_bind, wp_modifyGet]
    have hkeeps₂ : Keeps env st { st₁ with ios := st₁.ios + 1 } :=
      hkeeps.trans (Keeps.of_eq rfl rfl)
    cases env.io st₁.ios with
    | err | ok | short k => exact ⟨hkeeps₂, fun _ => hempty le_rfl⟩

end Programs

/-! ## §7. One call. -/

/-- The byte that a call writes at an offset. -/
def FileOp.writes (st : FileState) : FileOp → Nat → Option UInt8
  | .writeAt buf off, i => if off ≤ i then buf[i - off]? else none
  | .append buf, i => if st.node.length ≤ i then buf[i - st.node.length]? else none
  | _, _ => none

/-- A call that cuts an offset off. -/
def FileOp.cuts : FileOp → Nat → Bool
  | .setLen len, i => decide (len ≤ i)
  | _, _ => false

/-- The ranges of a call fit the arithmetic of the code. -/
def FileOp.fits (st : FileState) : FileOp → Bool
  | .readAt n off => decide (off + n < 2 ^ 64)
  | .writeAt buf off => decide (off + buf.length ≤ maxEnd)
  | .append buf => decide (st.node.length + buf.length ≤ maxEnd)
  | .setLen len => decide (len ≤ maxEnd)
  | .sync _ => true

section Calls

variable {st : FileState} {op : FileOp}

/-- **After a call an offset holds the byte that the call writes, or the old one** unless it is cut
off; when the call fails, what it does not write is kept in any case. -/
theorem exec_holds (hmax : st.node.length ≤ maxEnd) (hfits : op.fits st = true)
    (hok : keepsBytes env st op = true) (hkept : op.writes st i = none → Holds env st i b)
    (hnew : ∀ c, op.writes st i = some c → c = b) : wp (exec env op) st
      (fun _ st' => (op.writes st i = none → op.cuts i = false) → Holds env st' i b)
      (fun _ st' => op.writes st i = none → Holds env st' i b) := by
  cases op with
  | readAt n off =>
    simp only [exec, wp_bind, wp_pure]
    exact wp_mono (readAt_keeps hmax (of_decide_eq_true hfits) hok)
      (fun _ _ hpost _ => hpost.1.1 i b (hkept rfl)) (fun _ _ he _ => he i b (hkept rfl))
  | writeAt buf off =>
    simp only [exec, wp_bind, wp_pure]
    exact wp_mono (writeAtLocked_holds (of_decide_eq_true hfits) hok)
      (fun _ _ hpost _ => hpost.2.kept hkept hnew) (fun _ _ he hnone => he i b hnone (hkept hnone))
  | append buf =>
    have hmoved : ∀ hnone, Holds env { st with ios := st.ios + 1 } i b :=
      fun hnone => (hkept hnone).transfer (hkept hnone).inside rfl rfl
    simp only [exec, append, wp_bind, wp_pure]
    refine wp_mono (wp_after hok (nodeLen_effect env st)) ?_ ?_
    · rintro len st₁ ⟨⟨rfl, rfl⟩, hwrite⟩
      exact wp_mono (writeAtLocked_holds (of_decide_eq_true hfits) hwrite)
        (fun _ _ hpost _ => hpost.2.kept hmoved hnew)
        (fun _ _ he hnone => he i b hnone (hmoved hnone))
    · rintro _ st₁ ⟨rfl, -⟩
      exact hmoved
  | setLen len =>
    simp only [exec, wp_bind, wp_pure]
    refine wp_mono (setLen_effect hmax (of_decide_eq_true hfits)) ?_ ?_
    · intro _ st' hpost hcut
      have hlt : ¬ len ≤ i := of_decide_eq_false (hcut rfl)
      exact hpost.holds (by omega) (hkept rfl)
    · rintro _ st' ⟨⟨ios, rfl⟩, -⟩ hnone
      exact (hkept hnone).transfer (hkept hnone).inside rfl rfl
  | sync dataOnly =>
    simp only [exec, wp_bind, wp_pure]
    exact wp_mono (sync_keeps hok) (fun _ _ hpost _ => hpost.1 i b (hkept rfl))
      (fun _ _ he _ => he.1 i b (hkept rfl))

/-- **A read returns the byte that its offset holds.** -/
theorem exec_reads {n off : Nat} (h : Holds env st i b) (hmax : st.node.length ≤ maxEnd)
    (hfits : (FileOp.readAt n off).fits st = true)
    (hok : keepsBytes env st (.readAt n off) = true) (h1 : off ≤ i) (h2 : i < off + n) :
    wp (exec env (.readAt n off)) st
      (fun r _ => ∃ bytes, r = .read bytes ∧ bytes[i - off]? = some b) (fun _ _ => True) := by
  simp only [exec, wp_bind, wp_pure]
  refine wp_mono (readAt_keeps hmax (of_decide_eq_true hfits) hok) ?_ (fun _ _ _ => trivial)
  intro bytes st' hpost
  exact ⟨bytes, rfl, hpost.2.2 i b h h1 h2⟩

/-- The file stays below `maxEnd`. -/
theorem exec_length (hmax : st.node.length ≤ maxEnd) (hfits : op.fits st = true) :
    ends (exec env op) st (fun st' => st'.node.length ≤ maxEnd) := by
  have hreach : op.reach st ≤ maxEnd := by
    cases op with
    | readAt n off | sync dataOnly => exact Nat.zero_le _
    | writeAt buf off | append buf => exact Nat.le_trans (Nat.mod_le _ _) (of_decide_eq_true hfits)
    | setLen len => exact of_decide_eq_true hfits
  have htrace := exec_trace op (fun _ _ => trivial) (.refl env (fun _ => True) st)
  exact wp_mono htrace (fun _ _ hpost => by omega) (fun _ _ hpost => by omega)

end Calls

end StarryOS.Fs
