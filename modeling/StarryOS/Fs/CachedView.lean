/-
  StarryOS.Fs.CachedView — WHAT A CACHED FILE REPRESENTS.

  `byteAt st i` is the byte that a reader of the file sees at offset `i`: the
  cached page if there is one, the node otherwise.  `Represents st s lo hi`
  says that the file shows the string `s` at every offset OUTSIDE the window
  `[lo, hi)`; a write in progress has a non-empty window that shrinks from the
  left, page by page.

  `Shows` says the same for files of both kinds, on disk and in memory, by way
  of the bytes that the file holds; on disk the two agree.
-/
import StarryOS.Fs.ByteKept

namespace StarryOS.Fs

open Lib LruCache

/-! ## §1. The file as a string. -/

/-- The byte that a reader sees at offset `i`. -/
def FileState.byteAt (st : FileState) (i : Nat) : UInt8 :=
  match st.pageCache.peek (i / pageSize) with
  | some page => page.data (i % pageSize)
  | none => st.node.getD i 0

/-- Outside the window `[lo, hi)` the file shows `s`. -/
@[grind cases] structure Represents (st : FileState) (s : Bytes) (lo hi : Nat) : Prop where
  /-- The length lives in the node. -/
  len : st.node.length = s.length
  bytes : ∀ i, i < s.length → (i < lo ∨ hi ≤ i) → st.byteAt i = s.getD i 0
  /-- Dropping a clean page loses nothing. -/
  clean : ∀ pn page, st.pageCache.peek pn = some page → page.dirty = false →
    ∀ i, i / pageSize = pn → i < s.length → (i < lo ∨ hi ≤ i) → st.node.getD i 0 = s.getD i 0
  /-- No cached page starts beyond the end of the file. -/
  inside : ∀ pn page, st.pageCache.peek pn = some page → pn * pageSize ≤ s.length

/-- A disk-backed file whose node never fails. -/
@[grind cases] structure Env.NodeOk (env : Env) : Prop where
  disk : env.inMemory = false
  io : ∀ k, env.io k = .ok

/-- A disk-backed file whose node and page allocator always succeed. -/
@[grind cases] structure Env.Reliable (env : Env) : Prop extends env.NodeOk where
  alloc : ∀ k, (env.alloc k).isSome = true

variable {st : FileState} {env : Env} {s : Bytes}

theorem byteAt_of_cached {i : Nat} {page : PageCache}
    (h : st.pageCache.peek (i / pageSize) = some page) :
    st.byteAt i = page.data (i % pageSize) := by
  unfold FileState.byteAt
  rw [h]

theorem byteAt_of_uncached {i : Nat}
    (h : st.pageCache.peek (i / pageSize) = none) : st.byteAt i = st.node.getD i 0 := by
  unfold FileState.byteAt
  rw [h]

/-- The node holds the right byte wherever no dirty page covers it. -/
theorem Represents.node_byte {s : Bytes} {lo hi i : Nat}
    (h : Represents st s lo hi) (hi' : i < s.length) (hw : i < lo ∨ hi ≤ i)
    (hc : ∀ page, st.pageCache.peek (i / pageSize) = some page → page.dirty = false) :
    st.node.getD i 0 = s.getD i 0 := by
  cases hp : st.pageCache.peek (i / pageSize) with
  | none =>
    rw [← byteAt_of_uncached hp]
    exact h.bytes i hi' hw
  | some page => exact h.clean _ page hp (hc page hp) i rfl hi' hw

/-- Neither the node nor the page allocator ever fails. -/
@[grind cases] structure Env.Faultless (env : Env) : Prop where
  io : ∀ k, env.io k = .ok
  alloc : ∀ k, (env.alloc k).isSome = true

theorem Env.Reliable.faultless {env : Env} (h : env.Reliable) : env.Faultless := ⟨h.io, h.alloc⟩

theorem Env.Faultless.not_faulted {env : Env} (h : env.Faultless) : ¬ env.Faulted := by
  intro hf
  rcases hf with ⟨k, hk⟩ | ⟨k, hk⟩
  · rw [h.io] at hk
    cases hk
  · have hsome := h.alloc k
    rw [hk] at hsome
    cases hsome

/-- Outside the window `[lo, hi)` the file shows `s`, on disk or in memory. -/
@[grind cases] structure Shows (env : Env) (st : FileState) (s : Bytes) (lo hi : Nat) : Prop where
  len : st.node.length = s.length
  held : ∀ i, i < s.length → (i < lo ∨ hi ≤ i) → Holds env st i (s.getD i 0)
  /-- No cached page starts beyond the end of the file. -/
  inside : ∀ pn page, st.pageCache.peek pn = some page → pn * pageSize ≤ s.length
  /-- An in-memory cache has room for every page number. -/
  cap : env.inMemory = true → 2 ^ 32 < st.pageCache.cap

section Views

variable {st st' : FileState} {lo hi : Nat}

theorem Represents.shows (h : Represents st s lo hi) (hdisk : env.inMemory = false) :
    Shows env st s lo hi where
  len := h.len
  held i hi' hw := by
    refine ⟨by rw [h.len]; exact hi', ?_, ?_⟩
    · intro page hp
      rw [← byteAt_of_cached hp]
      exact h.bytes i hi' hw
    · intro hclean
      unfold FileState.backing
      rw [if_neg (by rw [hdisk]; simp)]
      exact h.node_byte hi' hw (fun page hp => (hclean page hp).2)
  inside := h.inside
  cap hmem := by
    rw [hdisk] at hmem
    cases hmem

variable (h : Shows env st s lo hi)
include h

theorem Shows.represents (hdisk : env.inMemory = false) :
    Represents st s lo hi where
  len := h.len
  bytes i hi' hw := by
    cases hp : st.pageCache.peek (i / pageSize) with
    | some page =>
      rw [byteAt_of_cached hp]
      exact (h.held i hi' hw).cached page hp
    | none =>
      have hback := (h.held i hi' hw).backing_of_uncached hp
      unfold FileState.backing at hback
      rw [if_neg (by rw [hdisk]; simp)] at hback
      rw [byteAt_of_uncached hp]
      exact hback
  clean pn page hp hd i hpn hi' hw := by
    have hback := (h.held i hi' hw).backed (fun page' hp' => by
      rw [hpn, hp] at hp'
      injection hp' with hp'
      rw [← hp']
      exact ⟨hdisk, hd⟩)
    unfold FileState.backing at hback
    rw [if_neg (by rw [hdisk]; simp)] at hback
    exact hback
  inside := h.inside

theorem Shows.congr (hnode : st'.node = st.node)
    (hcache : st'.pageCache = st.pageCache) : Shows env st' s lo hi where
  len := by
    rw [hnode]
    exact h.len
  held i hi hw := Keeps.of_eq hnode hcache i _ (h.held i hi hw)
  inside := by
    rw [hcache]
    exact h.inside
  cap := by
    rw [hcache]
    exact h.cap

/-- A disk file with an empty cache shows the same through any other empty one. -/
theorem Shows.recache (hempty : st.pageCache.entries = [])
    (hdisk : env.inMemory = false) (cache : LruCache Nat PageCache)
    (hcache : ∀ pn, cache.peek pn = none) :
    Shows env { st with pageCache := cache } s lo hi where
  len := h.len
  held i hi hw := by
    have hheld := h.held i hi hw
    refine hheld.transfer hheld.inside rfl ?_
    rw [show _ = none from hcache _, eq_comm, peek_eq_none_iff, hempty]
    exact fun _ => List.not_mem_nil
  inside pn page hp := absurd (hp.symm.trans (hcache pn)) (by simp)
  cap hmem := by
    rw [hdisk] at hmem
    cases hmem

end Views

/-! ## §2. Lookup without faults. -/

section Specs

variable {lo hi pn : Nat}

section

variable (hio : ∀ k, env.io k = .ok)
include hio

theorem writeBackOk_of_io (st : FileState) (pn : Nat)
    (page : PageCache) : writeBackOk env st pn page = true := by
  simp [writeBackOk, hio, IoOutcome.isErr, IoOutcome.covers]

theorem syncLoopOk_of_io : ∀ (rounds : Nat) (st : FileState), syncLoopOk env rounds st = true := by
  intro rounds
  induction rounds with
  | zero =>
    intro st
    rfl
  | succ rounds ih =>
    intro st
    unfold syncLoopOk
    split
    · rw [writeBackOk_of_io hio]
      exact after_of_wp (wp_of_forall (fun _ => ih) (fun _ _ => trivial))
    · rfl

/-- A flush returns, and on disk it leaves an empty cache. -/
theorem sync_returns (dataOnly : Bool) (st : FileState) : wp (sync env dataOnly) st
      (fun _ st' => env.inMemory = false → st'.pageCache.entries = []) NoError := by
  apply wp_ite
  · intro hmem hdisk
    rw [hdisk] at hmem
    cases hmem
  intro _
  simp only [wp_bind, wp_get]
  refine wp_mono_ok (syncLoop_rule (fun _ => True) ?_ _ st trivial) ?_
  · intro st' pn page rest _ _
    refine wp_mono (evictPopped_effect env _ pn page) (fun _ _ hpost => ⟨trivial, hpost.1.cache⟩) ?_
    intro _ _ hpost
    have hok := hpost.1.refused
    rw [writeBackOk_of_io hio] at hok
    cases hok
  · intro _ st' hpost
    simp only [nodeSync, nodeCall, wp_bind, wp_modifyGet, hio, wp_pure]
    exact fun _ => hpost.2 le_rfl

end

/-- Every cached page starts inside the first `len` bytes, and an in-memory cache has room
for every page number. -/
def Roomy (env : Env) (st : FileState) (len : Nat) : Prop :=
  (∀ pn page, st.pageCache.peek pn = some page → pn * pageSize ≤ len)
    ∧ (env.inMemory = true → 2 ^ 32 < st.pageCache.cap)

/-- Page numbers below `maxEnd` are fewer than an in-memory cache has room for. -/
theorem Roomy.not_full {len : Nat} (h : Roomy env st len) (hmax : len ≤ maxEnd)
    (hmem : env.inMemory = true) : st.pageCache.len < st.pageCache.cap := by
  have hkeys : st.pageCache.len ≤ 2 ^ 32 := by
    apply len_le_of_keys_lt
    grind [Roomy, maxEnd, pageSize]
  exact Nat.lt_of_le_of_lt hkeys (h.2 hmem)

theorem no_isErr (hf : env.Faultless) {P : Prop} (h : ∃ k, (env.io k).isErr = true) : P := by
  obtain ⟨k, hk⟩ := h
  rw [hf.io k] at hk
  cases hk

theorem nodeLen_size (hf : env.Faultless) (st : FileState) :
    wp (nodeLen env) st (fun n st' => n = st.node.length ∧ st' = { st with ios := st.ios + 1 })
      NoError :=
  wp_mono_err (nodeLen_effect env st) (fun _ _ hpost => no_isErr hf ⟨_, hpost.2⟩)

section Loops

variable {len : Nat} (hf : env.Faultless) (hmax : len ≤ maxEnd)
include hf hmax

theorem Roomy.lookupOk (h : Roomy env st len) : lookupOk env st pn = true := by
  have hroom : roomOk env st = true := by
    unfold roomOk
    split
    next hfull =>
      split
      · rw [writeBackOk_of_io hf.io]
        cases hmem : env.inMemory with
        | false => rfl
        | true => exact absurd hfull (Nat.ne_of_lt (h.not_full hmax hmem))
      · rfl
    · rfl
  unfold Fs.lookupOk
  split
  · rfl
  · rw [hroom]
    exact after_of_wp (wp_of_forall (fun _ st' => by simp [hf.io, IoOutcome.covers])
      (fun _ _ => trivial))

/-- **The loop of `with_pages`** loses nothing, and the cache stays roomy. -/
theorem Roomy.loop {T : Type} (stop : Nat) (pageEach : T → PageCache → Nat → Nat → T × PageCache) :
    ∀ (pns : List Nat) (a : Nat) (acc : T) (st : FileState), (∀ pn ∈ pns, pn * pageSize ≤ len) →
      Roomy env st len → loopOk env stop pageEach pns a acc st = true
        ∧ wp (withPagesLoop env stop pageEach pns a acc) st (fun _ st' => Roomy env st' len)
          NoError := by
  intro pns
  induction pns with
  | nil =>
    intro a acc st _ h
    exact ⟨rfl, h⟩
  | cons pn pns ih =>
    intro a acc st hpns h
    have hpage : wp (onePage env stop pageEach pn a acc) st (fun _ st' => Roomy env st' len)
        NoError := by
      refine wp_seq (wp_mono (pageOrInsert_trace pn (.refl env (fun _ => True) st))
        (fun _ _ hq => hq.2) (fun _ _ he => absurd he.2.2 hf.not_faulted)) ?_
      intro found st₁ hfound
      refine ⟨?_, by rw [cap_getMut, hfound.cap]; exact h.2⟩
      intro pn' page hp
      by_cases heq : pn' = pn
      · rw [heq]
        exact hpns pn (.head _)
      rw [peek_getMut, if_neg heq] at hp
      cases hold : st.pageCache.peek pn' with
      | none =>
        rw [hfound.others pn' heq hold] at hp
        cases hp
      | some page' => exact h.1 pn' page' hold
    have hrest := fun acc' st₁ => ih 0 acc' st₁ (fun p hp => hpns p (.tail _ hp))
    refine ⟨?_, ?_⟩
    · simp only [loopOk, h.lookupOk hf hmax, Bool.true_and]
      exact after_of_wp (wp_mono_ok hpage (fun acc' st₁ h₁ => (hrest acc' st₁ h₁).1))
    · rw [withPagesLoop_cons]
      exact wp_seq hpage (fun acc' st₁ h₁ => (hrest acc' st₁ h₁).2)

theorem Roomy.withPages {T : Type} (start stop : Nat)
    (pageEach : T → PageCache → Nat → Nat → T × PageCache) {pageInitial : FsM T}
    (hstop : stop ≤ len) (hinit : wp pageInitial st (fun _ st' => Roomy env st' len) NoError) :
    withPagesOk env start stop pageInitial pageEach st = true
      ∧ wp (withPages env start stop pageInitial pageEach) st (fun _ st' => Roomy env st' len)
        NoError := by
  have hpages : ∀ pn ∈ List.range' (u32 (start / pageSize))
      (u32 ((stop + (pageSize - 1)) / pageSize) - u32 (start / pageSize)), pn * pageSize ≤ len := by
    intro pn hpn
    rw [u32_ceil_page (by omega), List.mem_range'_1] at hpn
    have hlt := (lt_ceil_page_iff pn stop).mp (by omega)
    omega
  have hloop := fun initial st' => Roomy.loop hf hmax stop pageEach _ (start % pageSize) initial st'
    hpages
  exact ⟨after_of_wp (wp_mono_ok hinit (fun _ _ h => (hloop _ _ h).1)),
    wp_seq hinit (fun _ _ h => (hloop _ _ h).2)⟩

theorem Roomy.readAt {n off : Nat} (h : Roomy env st len) (hlen : st.node.length ≤ len) :
    readAtOk env n off st = true
      ∧ wp (readAt env n off) st (fun _ st' => Roomy env st' len) NoError := by
  have hsize := nodeLen_size hf st
  have hinit : wp (pure [] : FsM Bytes) { st with ios := st.ios + 1 }
    (fun _ st' => Roomy env st' len) NoError := h
  obtain ⟨hok, hpages⟩ := Roomy.withPages hf hmax off (min (u64 (off + n)) st.node.length) readEach
    (Nat.le_trans (Nat.min_le_right _ _) hlen) hinit
  refine ⟨after_of_wp (wp_mono_ok hsize ?_), wp_seq hsize ?_⟩
  · rintro _ _ ⟨rfl, rfl⟩
    rw [Bool.or_eq_true, decide_eq_true_iff]
    exact .inr hok
  · rintro _ _ ⟨rfl, rfl⟩
    exact wp_ite (fun _ => h) (fun _ => hpages)

end Loops

end Specs

end StarryOS.Fs
