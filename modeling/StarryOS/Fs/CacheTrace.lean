/-
  StarryOS.Fs.CacheTrace — WHAT A CALL CAN DO TO THE CACHE, said once.

  Whatever a cached file is asked to do, with whatever errors on the way, its
  state changes by a sequence of five kinds of `CacheStep`:

    • the node or one of the environment's counters changes,
    • a cached page is used: it keeps its frame, and a dirty one stays dirty,
    • a page that was not cached is inserted where there is room,
    • a page leaves the cache and its number is handed to the listeners,
    • a page of an in-memory file leaves the cache WITHOUT a word; `D` says
      which pages may go that way.

  `exec_trace` and `pageOrInsert_trace` say so for both exits of every program.
-/
import StarryOS.Fs.CacheEffects
import Mathlib.Logic.Relation

namespace StarryOS.Fs

open Lib LruCache

/-! ## §1. The steps. -/

/-- One effect on the state of a cached file. -/
inductive CacheStep (env : Env) (D : Nat → Prop) : FileState → FileState → Prop
  | node (st : FileState) (bytes : Bytes) (ios allocs : Nat) :
      CacheStep env D st { st with node := bytes, ios := ios, allocs := allocs }
  | use (st : FileState) (pn : Nat) (f : PageCache → PageCache)
      (h : ∀ page, st.pageCache.peek pn = some page →
        (f page).addr = page.addr ∧ (page.dirty = true → (f page).dirty = true)) :
      CacheStep env D st { st with pageCache := st.pageCache.getMut pn f }
  | insert (st : FileState) (pn : Nat) (page : PageCache)
      (hnew : st.pageCache.peek pn = none) (hroom : st.pageCache.len < st.pageCache.cap) :
      CacheStep env D st { st with pageCache := st.pageCache.put pn page }
  /-- `lost` is not empty when the write-back failed. -/
  | evict (st : FileState) (pn : Nat) (rest : LruCache Nat PageCache) (lost : List Nat)
      (hrest : ∀ j, rest.peek j = if j = pn then none else st.pageCache.peek j)
      (hlost : lost ≠ [] → ∃ k, env.io k = .err) :
      CacheStep env D st { st with
        pageCache := rest
        evictions := st.evictions ++ [pn]
        dirtyDrops := st.dirtyDrops ++ lost }
  | discard (st : FileState) (pn : Nat) (rest : LruCache Nat PageCache) (lost : List Nat)
      (hmem : env.inMemory = true) (hD : D pn)
      (hrest : ∀ j, rest.peek j = if j = pn then none else st.pageCache.peek j) :
      CacheStep env D st { st with pageCache := rest, dirtyDrops := st.dirtyDrops ++ lost }

/-- Any number of steps. -/
def Trace (env : Env) (D : Nat → Prop) : FileState → FileState → Prop :=
  Relation.ReflTransGen (CacheStep env D)

section Trace

variable {env : Env} {D : Nat → Prop} {st st' : FileState}

theorem Trace.refl (env : Env) (D : Nat → Prop) (st : FileState) : Trace env D st st :=
  Relation.ReflTransGen.refl

theorem Trace.next {st₀ st st' : FileState} (h : Trace env D st₀ st)
    (hs : CacheStep env D st st') : Trace env D st₀ st' := Relation.ReflTransGen.tail h hs

/-- A relation that every step respects is respected by every trace. -/
theorem Trace.preserves (P : FileState → Prop)
    (hstep : ∀ s s', P s → CacheStep env D s s' → P s') (h : Trace env D st st') (h₀ : P st) :
    P st' := by
  induction h with
  | refl => exact h₀
  | tail _ hs ih => exact hstep _ _ ih hs

theorem Trace.evictions_mono (h : Trace env D st st') {pn : Nat}
    (hpn : pn ∈ st.evictions) : pn ∈ st'.evictions := by
  refine h.preserves (fun s => pn ∈ s.evictions) ?_ hpn
  intro s s' hs hstep
  cases hstep with
  | evict pn' rest lost hrest hlost => exact List.mem_append_left _ hs
  | _ => exact hs

/-- **A cached page stays**, on its frame and dirty if it was, unless its number
was handed to the listeners or it went without a word. -/
theorem Trace.page_kept (h : Trace env D st st') {pn : Nat}
    {page : PageCache} (hpage : st.pageCache.peek pn = some page) :
    pn ∈ st'.evictions ∨ (env.inMemory = true ∧ D pn)
      ∨ ∃ page', st'.pageCache.peek pn = some page' ∧ page'.addr = page.addr
        ∧ (page.dirty = true → page'.dirty = true) := by
  refine h.preserves (fun s => pn ∈ s.evictions ∨ (env.inMemory = true ∧ D pn)
    ∨ ∃ page', s.pageCache.peek pn = some page' ∧ page'.addr = page.addr
      ∧ (page.dirty = true → page'.dirty = true)) ?_
    (.inr (.inr ⟨page, hpage, rfl, fun hd => hd⟩))
  intro s s' hs hstep
  rcases hs with hev | hD | ⟨page', hpeek, haddr, hdirty⟩
  · exact .inl (((Trace.refl env D s).next hstep).evictions_mono hev)
  · exact .inr (.inl hD)
  -- the page is there: each kind of step keeps it or says that it goes
  cases hstep with
  | node bytes ios allocs => exact .inr (.inr ⟨page', hpeek, haddr, hdirty⟩)
  | use pn' f hf =>
    right
    right
    by_cases heq : pn = pn'
    · grind
    · grind
  | insert pn' page'' hnew hroom =>
    right
    right
    refine ⟨page', ?_, haddr, hdirty⟩
    show (s.pageCache.put pn' page'').peek pn = some page'
    rw [peek_put _ _ _ hroom, if_neg]
    · exact hpeek
    · intro heq
      rw [← heq, hpeek] at hnew
      cases hnew
  | evict pn' rest lost hrest hlost => grind
  | discard pn' rest lost hmem hDpn hrest => grind

end Trace

/-! ## §2. The backing node. -/

section Programs

variable {env : Env} {D : Nat → Prop} {st₀ st : FileState}

/-- Either exit of a program continues the trace. -/
def Traced {α : Type} (env : Env) (D : Nat → Prop) (st₀ st : FileState) (m : FsM α) : Prop :=
  ends m st (Trace env D st₀)

/-- The node or the page allocator has failed a call. -/
def Env.Faulted (env : Env) : Prop := (∃ k, env.io k = .err) ∨ ∃ k, env.alloc k = none

theorem nodeLen_trace (h : Trace env D st₀ st) :
    wp (nodeLen env) st (fun n st' => Trace env D st₀ st' ∧ st'.node.length = st.node.length
        ∧ n = st.node.length)
      (fun _ st' => Trace env D st₀ st' ∧ st'.node.length = st.node.length) := by
  have hnext := h.next (.node st st.node (st.ios + 1) st.allocs)
  refine wp_mono (nodeLen_effect env st) ?_ ?_
  · rintro n st' ⟨rfl, rfl⟩
    exact ⟨hnext, rfl, rfl⟩
  · rintro _ st' ⟨rfl, -⟩
    exact ⟨hnext, rfl⟩

theorem nodeSetLen_trace (len : Nat) (h : Trace env D st₀ st) :
    wp (nodeSetLen env len) st (fun _ st' => Trace env D st₀ st' ∧ st'.node.length = len)
      (fun _ st' => Trace env D st₀ st' ∧ st'.node.length = st.node.length) := by
  refine wp_mono (nodeSetLen_effect env len st) ?_ ?_
  · rintro _ st' rfl
    exact ⟨h.next (.node st _ (st.ios + 1) st.allocs), length_resize _ _ _⟩
  · rintro _ st' ⟨rfl, -⟩
    exact ⟨h.next (.node st st.node (st.ios + 1) st.allocs), rfl⟩

/-! ## §3. Eviction and lookup. -/

/-- **Eviction of a page that was taken out of the cache.** -/
theorem evictPopped_trace {pn : Nat} (page : PageCache) {rest : LruCache Nat PageCache}
    (hrest : ∀ j, rest.peek j = if j = pn then none else st.pageCache.peek j)
    (h : Trace env D st₀ st) :
    wp (evictPopped env pn page) { st with pageCache := rest }
      (fun _ st' => (Trace env D st₀ st' ∧ st'.node.length = st.node.length)
        ∧ st'.pageCache = rest ∧ st'.evictions = st.evictions ++ [pn])
      (fun _ st' => (Trace env D st₀ st' ∧ st'.node.length = st.node.length)
        ∧ st'.evictions = st.evictions ++ [pn] ∧ env.Faulted) := by
  refine wp_mono (evictPopped_effect env _ pn page) ?_ ?_
  · rintro page' st' ⟨hback, -, bytes, ios, rfl⟩
    have hev := h.next (.evict st pn rest [] hrest (absurd rfl))
    rw [List.append_nil] at hev
    exact ⟨⟨hev.next (.node _ bytes ios _), hback.length⟩, rfl, rfl⟩
  · rintro _ st' ⟨-, herr, ios, lost, rfl⟩
    have hev := h.next (.evict st pn rest lost hrest (fun _ => herr))
    exact ⟨⟨hev.next (.node _ _ ios _), rfl⟩, rfl, .inl herr⟩

/-- `vpn` is the page that a full cache gives up next. -/
def FileState.Lru (st : FileState) (vpn : Nat) : Prop :=
  st.pageCache.len = st.pageCache.cap ∧ ∃ page rest, st.pageCache.popLru = some ((vpn, page), rest)

/-- A lookup of page `pn` evicts page `vpn`. -/
def FileState.Evicts (st : FileState) (pn vpn : Nat) : Prop :=
  st.pageCache.peek pn = none ∧ st.Lru vpn

/-- Making room evicts at most the least recently used page. -/
theorem evictIfFull_trace (h : Trace env D st₀ st) : wp (evictIfFull env) st
      (fun r st' => (Trace env D st₀ st' ∧ st'.node.length = st.node.length)
        ∧ st'.pageCache.len < st'.pageCache.cap
        ∧ (∀ pn, st.pageCache.peek pn = none → st'.pageCache.peek pn = none)
        ∧ (st'.pageCache.len ≤ st.pageCache.len ∧ st'.pageCache.cap = st.pageCache.cap)
        ∧ st'.evictions = st.evictions ++ r.toList.map Prod.fst ∧ ∀ e ∈ r, st.Lru e.1)
      (fun _ st' => (Trace env D st₀ st' ∧ st'.node.length = st.node.length)
        ∧ (∃ vpn, st'.evictions = st.evictions ++ [vpn] ∧ st.Lru vpn) ∧ env.Faulted) := by
  unfold evictIfFull
  rw [wp_bind]
  apply wp_ite
  · intro hfull
    obtain ⟨pn, page, rest, hpop⟩ := st.pageCache.exists_popLru_of_full hfull
    have hlru : st.Lru pn := ⟨hfull, page, rest, hpop⟩
    obtain ⟨-, hrest, hcap, hlen⟩ := peek_popLru hpop
    rw [hpop]
    simp only [wp_bind, wp_set]
    refine wp_mono (evictPopped_trace page hrest h) ?_ ?_
    · rintro page' st' ⟨htrace, hcache, hlog⟩
      refine ⟨htrace, ?_, ?_, ⟨?_, ?_⟩, hlog, ?_⟩
      · rw [hcache]
        omega
      · grind
      · rw [hcache]
        omega
      · rw [hcache, hcap]
      · intro e he
        cases he
        exact hlru
    · grind
  · intro hfull
    refine ⟨⟨h, rfl⟩, Nat.lt_of_le_of_ne st.pageCache.len_le hfull, fun _ => id,
      ⟨le_rfl, rfl⟩, ?_, ?_⟩
    · exact (List.append_nil _).symm
    · intro e he
      cases he

/-- What a lookup of page `pn` that returned `r` has done. -/
structure LookedUp (pn : Nat) (st : FileState) (r : PageCache × Option (Nat × PageCache))
    (st' : FileState) : Prop where
  peek : st'.pageCache.peek pn = some r.1
  len : st'.pageCache.len ≤ st.pageCache.len + 1
  cap : st'.pageCache.cap = st.pageCache.cap
  node : st'.node.length = st.node.length
  /-- The only page that it brings in is the one it looks for. -/
  others : ∀ j, j ≠ pn → st.pageCache.peek j = none → st'.pageCache.peek j = none
  log : st'.evictions = st.evictions ++ r.2.toList.map Prod.fst
  evicts : ∀ e ∈ r.2, st.Evicts pn e.1

/-- **Lookup continues the trace on both exits**, hands out the page that is
then cached, and evicts at most the least recently used page, for a page that
was not cached. -/
theorem pageOrInsert_trace (pn : Nat) (h : Trace env D st₀ st) :
    wp (pageOrInsert env pn) st (fun r st' => Trace env D st₀ st' ∧ LookedUp pn st r st')
      (fun _ st' => (Trace env D st₀ st' ∧ st'.node.length = st.node.length)
        ∧ (∀ vpn ∈ st'.evictions, vpn ∈ st.evictions ∨ st.Evicts pn vpn) ∧ env.Faulted) := by
  unfold pageOrInsert
  rw [wp_bind, wp_get]
  cases hpeek : st.pageCache.peek pn with
  | some page =>
    refine ⟨h.next (.use st pn id (fun _ _ => ⟨rfl, fun hd => hd⟩)), ?_,
      len_getMut_le _ _ _, cap_getMut _ _ _, rfl, ?_,
      (List.append_nil _).symm, ?_⟩
    · rw [peek_getMut, if_pos rfl, hpeek]
      rfl
    · intro j hj hnone
      rw [peek_getMut, if_neg hj]
      exact hnone
    · intro e he
      cases he
  | none =>
    simp only [wp_bind]
    refine wp_mono (evictIfFull_trace h) ?_ ?_
    · rintro r st₁ ⟨⟨htrace₁, hnode⟩, hroom, hnone, ⟨hlen, hcap⟩, hlog, hlru⟩
      -- from here on a failure only leaves the eviction behind
      have hlogged : ∀ vpn ∈ st₁.evictions, vpn ∈ st.evictions ∨ st.Evicts pn vpn := by
        intro vpn hvpn
        rw [hlog, List.mem_append, List.mem_map] at hvpn
        rcases hvpn with hold | ⟨e, he, rfl⟩
        · exact .inl hold
        · exact .inr ⟨hpeek, hlru e (Option.mem_toList.mp he)⟩
      unfold PageCache.new
      simp only [wp_bind, wp_get, wp_set]
      have htrace := fun ios => htrace₁.next (.node st₁ st₁.node ios (st₁.allocs + 1))
      cases halloc : env.alloc st₁.allocs with
      | none => exact ⟨⟨htrace st₁.ios, hnode⟩, hlogged, .inr ⟨_, halloc⟩⟩
      | some page₁ =>
        simp only [wp_pure]
        refine wp_mono (fillPage_effect env _ pn _) ?_ ?_
        · rintro page st₂ ⟨⟨ios, rfl⟩, -, -⟩
          refine ⟨(htrace ios).next (.insert _ pn page (hnone pn hpeek) hroom), ?_, ?_, hcap,
            hnode, ?_,
            hlog, fun e he => ⟨hpeek, hlru e he⟩⟩
          · exact (peek_put _ _ _ hroom _).trans (if_pos rfl)
          · exact Nat.le_trans (len_put_le st₁.pageCache pn page) (by omega)
          · intro j hj hold
            exact ((peek_put _ _ _ hroom _).trans (if_neg hj)).trans (hnone j hold)
        · rintro _ st₂ ⟨⟨ios, rfl⟩, herr⟩
          exact ⟨⟨htrace ios, hnode⟩, hlogged, .inl herr⟩
    · rintro _ st₁ ⟨htrace₁, ⟨vpn₁, hlog, hlru⟩, hfault⟩
      refine ⟨htrace₁, ?_, hfault⟩
      intro vpn hvpn
      rw [hlog, List.mem_append, List.mem_singleton] at hvpn
      rcases hvpn with hold | rfl
      · exact .inl hold
      · exact .inr ⟨hpeek, hlru⟩

/-! ## §4. The calls. -/

/-- The loop of `with_pages`, when the closure keeps frames and dirty bits; it never changes
the length of the node. -/
theorem withPagesLoop_trace {T : Type} (stop : Nat)
    (pageEach : T → PageCache → Nat → Nat → T × PageCache)
    (heach : ∀ acc page a b, (pageEach acc page a b).2.addr = page.addr
      ∧ (page.dirty = true → (pageEach acc page a b).2.dirty = true)) :
    ∀ (pns : List Nat) (a : Nat) (acc : T) (st : FileState), Trace env D st₀ st →
      ends (withPagesLoop env stop pageEach pns a acc) st
        (fun st' => Trace env D st₀ st' ∧ st'.node.length = st.node.length) := by
  intro pns
  induction pns with
  | nil =>
    intro a acc st h
    exact ⟨h, rfl⟩
  | cons pn pns ih =>
    intro a acc st h
    unfold ends withPagesLoop
    simp only [wp_bind]
    refine wp_mono (pageOrInsert_trace pn h) ?_ (fun _ _ he => he.1)
    rintro r st₁ ⟨htrace, hfound⟩
    simp only [storePage, wp_modify]
    have hpeek := hfound.peek
    rw [← hfound.node]
    refine ih _ _ { st₁ with pageCache := _ } (htrace.next (.use st₁ pn _ ?_))
    -- the page written back is the one that was handed out
    grind

theorem readEach_keeps (acc : Bytes) (page : PageCache) (a b : Nat) :
    (readEach acc page a b).2.addr = page.addr
      ∧ (page.dirty = true → (readEach acc page a b).2.dirty = true) :=
  ⟨rfl, fun hd => hd⟩

theorem writeEach_keeps (env : Env) (acc : Nat × Bytes) (page : PageCache) (a b : Nat) :
    (writeEach env acc page a b).2.addr = page.addr
      ∧ (page.dirty = true → (writeEach env acc page a b).2.dirty = true) := by
  refine ⟨rfl, ?_⟩
  intro hd
  show (page.dirty || !env.inMemory) = true
  rw [hd, Bool.true_or]

theorem writeAtLocked_trace (buf : Bytes) (off : Nat) (h : Trace env D st₀ st) :
    wp (writeAtLocked env buf off) st
      (fun _ st' => Trace env D st₀ st'
        ∧ st'.node.length = max st.node.length (u64 (off + buf.length)))
      (fun _ st' => Trace env D st₀ st' ∧ (st'.node.length = st.node.length
        ∨ st'.node.length = max st.node.length (u64 (off + buf.length)))) := by
  unfold writeAtLocked withPages
  simp only [wp_bind, wp_pure]
  refine wp_mono (growNode_effect env _ buf st) ?_ ?_
  · rintro r st₁ ⟨-, ios, rfl⟩
    refine wp_mono (withPagesLoop_trace _ _ (writeEach_keeps env) _ _ _ _
      (h.next (.node st _ ios st.allocs))) ?_ ?_
    · rintro _ st₂ ⟨h₂, hlen⟩
      rw [hlen, length_resize]
      exact ⟨h₂, rfl⟩
    · rintro _ st₂ ⟨h₂, hlen⟩
      rw [hlen, length_resize]
      exact ⟨h₂, .inr rfl⟩
  · rintro _ st₁ ⟨⟨ios, rfl⟩, -⟩
    exact ⟨h.next (.node st _ ios st.allocs), .inl rfl⟩

/-- The truncation loop removes exactly the listed pages and leaves the node;
its pages are clean, so nothing is written and nothing can fail. -/
theorem discardPages_effect : ∀ (keys : List Nat) (st : FileState), (∀ pn ∈ keys, D pn) →
    Trace env D st₀ st → wp (discardPages env keys) st (fun _ st' => Trace env D st₀ st'
      ∧ st'.node.length = st.node.length
      ∧ (∀ j, st'.node.getD j 0 = st.node.getD j 0)
      ∧ st'.pageCache.cap = st.pageCache.cap
      ∧ ∀ j, st'.pageCache.peek j = if j ∈ keys then none else st.pageCache.peek j) NoError := by
  intro keys
  -- a key may have left the cache already; then there is nothing to discard
  induction keys with
  | nil =>
    intro st _ h
    exact ⟨h, rfl, fun _ => rfl, rfl, fun j => by simp⟩
  | cons pn keys ih =>
    intro st hD h
    have hpn := hD pn (.head _)
    have hrestD : ∀ p ∈ keys, D p := fun p hp => hD p (.tail _ hp)
    unfold discardPages
    rw [wp_bind, wp_get]
    cases hp : st.pageCache.peek pn with
    | none =>
      simp only [pop, hp, Option.map_none]
      grind
    | some page =>
      have hrest := st.pageCache.peek_erase pn
      have hgone : ∀ j, (if j ∈ keys then none else (st.pageCache.erase pn).peek j)
          = if j ∈ pn :: keys then none else st.pageCache.peek j := by grind
      simp only [pop, hp, Option.map_some, wp_bind, wp_set]
      apply wp_ite
      · -- an in-memory page goes without telling the listeners
        intro hmem
        simp only [wp_bind, wp_modify]
        have hdrop : ∀ st₁ : FileState, (st₁.dropPage pn page).node = st₁.node
            ∧ (st₁.dropPage pn page).pageCache = st₁.pageCache := by grind [FileState.dropPage]
        have htrace : Trace env D st₀ (FileState.dropPage { st with
            pageCache := st.pageCache.erase pn } pn page) := by
          unfold FileState.dropPage
          split
          · exact h.next (.discard st pn _ [pn] hmem hpn hrest)
          · have hd := h.next (.discard st pn _ [] hmem hpn hrest)
            rw [List.append_nil] at hd
            exact hd
        refine wp_mono_ok (ih _ hrestD htrace) ?_
        intro _ st' hpost
        simp only [(hdrop _).1, (hdrop _).2] at hpost
        obtain ⟨h', hlen, hnode, hcap, hpeek⟩ := hpost
        exact ⟨h', hlen, hnode, hcap, fun j => (hpeek j).trans (hgone j)⟩
      · intro _
        rw [wp_bind]
        refine wp_mono (wp_and (evictPopped_trace { page with dirty := false } hrest h)
          (evictPopped_effect env _ pn { page with dirty := false })) ?_
          (fun _ _ hpost => absurd hpost.2.1.refused (by simp [writeBackOk]))
        rintro page' st₁ ⟨⟨⟨h₁, hlen₁⟩, hcache, -⟩, ⟨-, -, m, -, hnode₁⟩, -⟩
        refine wp_mono_ok (ih st₁ hrestD h₁) ?_
        rintro _ st' ⟨h', hlen, hnode, hcap, hpeek⟩
        refine ⟨h', hlen.trans hlen₁, ?_, ?_, ?_⟩
        · intro j
          rw [hnode, hnode₁, if_neg (by simp)]
        · rw [hcap, hcache]
          rfl
        · intro j
          rw [hpeek, hcache]
          exact hgone j

/-- The page at the old end after a growth to `len`: zero from the old end on. -/
def zeroedTail (oldLen len : Nat) (page : PageCache) : PageCache :=
  let pageStart := oldLen / pageSize * pageSize
  let a := oldLen - pageStart
  { page with
    data := storeBlock 0 page.data a
      (List.replicate (min (len - pageStart) pageSize - a) 0) }

/-- What a `set_len` that returned has done. -/
@[grind cases] structure Resized (len : Nat) (st st' : FileState) : Prop where
  length : st'.node.length = len
  node : ∀ j, j < len → st'.node.getD j 0 = st.node.getD j 0
  cap : st'.pageCache.cap = st.pageCache.cap
  grown : st.node.length < len → ∀ pn, st'.pageCache.peek pn
    = if pn = st.node.length / pageSize
      then (st.pageCache.peek pn).map (zeroedTail st.node.length len) else st.pageCache.peek pn
  /-- No page of the old file beyond the new last one is left. -/
  cut : ¬ st.node.length < len → ∀ pn, st'.pageCache.peek pn
    = if len / pageSize < st.node.length / pageSize ∧ len / pageSize < pn then none
      else st.pageCache.peek pn

/-- **`set_len`**; one that fails has changed nothing. -/
theorem setLen_effect {len : Nat} (hold : st.node.length ≤ maxEnd) (hnew : len ≤ maxEnd) :
    wp (setLen env len) st (fun _ st' => Resized len st st')
      (fun _ st' => (∃ ios, st' = { st with ios := ios }) ∧ ∃ k, (env.io k).isErr = true) := by
  unfold setLen
  rw [wp_bind]
  refine wp_mono (nodeLen_effect env st) ?_ (fun _ _ hpost => ⟨⟨_, hpost.1⟩, _, hpost.2⟩)
  rintro oldLen st₁ ⟨rfl, rfl⟩
  rw [wp_bind]
  refine wp_mono (nodeSetLen_effect env len _) ?_ (fun _ _ hpost => ⟨⟨_, hpost.1⟩, _, hpost.2⟩)
  intro _ st₂ hpost
  subst hpost
  simp only
  have hnode : ∀ j, j < len → (resize 0 len st.node).getD j 0 = st.node.getD j 0 := by
    intro j hj
    rw [getD_resize, if_pos hj]
  apply wp_ite
  · intro hgrow
    unfold zeroTail
    simp only [wp_modify, u32_div_page hold]
    refine ⟨length_resize _ _ _, hnode, cap_getMut _ _ _, ?_, absurd hgrow⟩
    intro _ pn
    show (st.pageCache.getMut _ _).peek pn = _
    rw [peek_getMut]
    split
    next hpn => rw [hpn]; rfl
    · rfl
  · intro hle
    rw [u32_div_page hold, u32_div_page hnew]
    apply wp_ite
    · intro hlast
      rw [wp_bind, wp_get]
      refine wp_mono (discardPages_effect _ _ (fun _ _ => trivial) (.refl env (fun _ => True) _)) ?_
        (fun _ _ he => he.elim)
      rintro _ st' ⟨-, hlen, hbytes, hcap, hpeek⟩
      refine ⟨by rw [hlen, length_resize], fun j hj => (hbytes j).trans (hnode j hj), hcap,
        fun h => absurd h hle, ?_⟩
      intro _ pn
      have hmem : pn ∈ st.pageCache.keys.filter (fun pn => decide (len / pageSize < pn)) ↔
          (∃ page, st.pageCache.peek pn = some page) ∧ len / pageSize < pn := by
        rw [List.mem_filter, mem_keys_iff, decide_eq_true_eq]
      rw [hpeek]
      cases hp : st.pageCache.peek pn with
      | none => simp
      | some page => grind
    · intro hlast
      refine ⟨length_resize _ _ _, hnode, rfl, fun h => absurd h hle, ?_⟩
      intro _ pn
      rw [if_neg (fun h => hlast h.1)]

theorem sync_trace (dataOnly : Bool) (h : Trace env D st₀ st) : ends (sync env dataOnly) st
      (fun st' => Trace env D st₀ st' ∧ st'.node.length = st.node.length) := by
  refine wp_exit ⟨h, rfl⟩ fun _ => ?_
  simp only [wp_bind, wp_get]
  refine wp_mono_ok (syncLoop_rule (fun st' => Trace env D st₀ st'
    ∧ st'.node.length = st.node.length) ?_ _ st ⟨h, rfl⟩) ?_
  · rintro st₁ pn page rest ⟨h₁, hlen⟩ hpop
    obtain ⟨-, hrest, -, -⟩ := peek_popLru hpop
    rw [← hlen]
    exact wp_mono (evictPopped_trace page hrest h₁) (fun _ _ hq => ⟨hq.1, hq.2.1⟩)
      (fun _ _ he => he.1)
  · rintro _ st₁ ⟨⟨h₁, hlen⟩, -⟩
    have hnext := h₁.next (.node st₁ st₁.node (st₁.ios + 1) st₁.allocs)
    unfold nodeSync nodeCall
    simp only [wp_bind, wp_modifyGet]
    cases env.io st₁.ios <;> exact ⟨hnext, hlen⟩

/-- The pages that a call on an in-memory file may drop without a word: those
behind the new last page of a truncation. -/
def FileState.Discards (st : FileState) : FileOp → Nat → Prop
  | .setLen len, pn => len ≤ st.node.length ∧ u32 (len / pageSize) < pn
  | _, _ => False

/-- How far the file can reach after a call. -/
def FileOp.reach (st : FileState) : FileOp → Nat
  | .writeAt buf off => u64 (off + buf.length)
  | .append buf => u64 (st.node.length + buf.length)
  | .setLen len => len
  | _ => 0

/-- **Every call is a sequence of cache steps**, however it ends. -/
theorem exec_trace (op : FileOp) (hD : ∀ pn, st.Discards op pn → D pn) (h : Trace env D st₀ st) :
    ends (exec env op) st (fun st' => Trace env D st₀ st'
      ∧ st'.node.length ≤ max st.node.length (op.reach st)) := by
  have hsize := nodeLen_trace h
  unfold ends
  cases op with
  | readAt n off =>
    simp only [exec, readAt, wp_bind, wp_pure]
    refine wp_mono hsize ?_ (fun _ _ he => ⟨he.1, by omega⟩)
    rintro len st₁ ⟨h₁, hlen, -⟩
    refine wp_exit ⟨h₁, by omega⟩ fun _ => ?_
    exact wp_mono (withPagesLoop_trace _ _ readEach_keeps _ _ _ _ h₁)
      (fun _ _ hq => ⟨hq.1, by omega⟩) (fun _ _ he => ⟨he.1, by omega⟩)
  | writeAt buf off =>
    simp only [exec, wp_bind, wp_pure, FileOp.reach]
    exact wp_mono (writeAtLocked_trace buf off h) (fun _ _ hq => ⟨hq.1, by omega⟩)
      (fun _ _ he => ⟨he.1, by omega⟩)
  | append buf =>
    simp only [exec, append, wp_bind, wp_pure, FileOp.reach]
    refine wp_mono hsize ?_ (fun _ _ he => ⟨he.1, by omega⟩)
    rintro len st₁ ⟨h₁, hlen, rfl⟩
    exact wp_mono (writeAtLocked_trace buf _ h₁) (fun _ _ hq => ⟨hq.1, by omega⟩)
      (fun _ _ he => ⟨he.1, by omega⟩)
  | setLen len =>
    simp only [exec, setLen, wp_bind, wp_pure, FileOp.reach]
    refine wp_mono hsize ?_ (fun _ _ he => ⟨he.1, by omega⟩)
    rintro oldLen st₁ ⟨h₁, hlen, rfl⟩
    refine wp_mono (nodeSetLen_trace len h₁) ?_ (fun _ _ he => ⟨he.1, by omega⟩)
    rintro _ st₂ ⟨h₂, hlen₂⟩
    have hreach : st₂.node.length ≤ max st.node.length len := by omega
    refine wp_exit ⟨h₂.next (.use st₂ _ _ (fun _ _ => ⟨rfl, fun hd => hd⟩)), hreach⟩ fun hgrow => ?_
    apply wp_ite
    · intro _
      refine wp_mono (discardPages_effect _ _ ?_ h₂) (fun _ _ hq => ⟨hq.1, hq.2.1 ▸ hreach⟩)
        (fun _ _ he => he.elim)
      intro pn hpn
      have hlast := (List.mem_filter.mp hpn).2
      exact hD pn ⟨by omega, by simpa using hlast⟩
    · intro _
      exact ⟨h₂, hreach⟩
  | sync dataOnly =>
    simp only [exec, wp_bind, wp_pure]
    exact wp_mono (sync_trace dataOnly h) (fun _ _ hq => ⟨hq.1, by omega⟩)
      (fun _ _ he => ⟨he.1, by omega⟩)

end Programs

end StarryOS.Fs
