/-
  StarryOS.Fs.CachedRefinement — CACHED I/O AGAINST A FLAT BYTE STRING.

  The reference is one byte string: a write past the end zero-fills the gap,
  `set_len` cuts or zero-extends, a read stops at the end.

  Growth happens on two paths.  `set_len` zeroes the tail of the old last page;
  `write_at` does not.  A write that starts beyond the end of the file while the
  page at the end is cached therefore shows whatever that page holds there.
  `GapClean` excludes exactly that, and `maxEnd` excludes the last page below
  2^44, whose exclusive end page number is truncated to zero by the conversion
  to `u32` (`cached_io_refines_flat_string`, `gap_write_shows_truncated_bytes`).
-/
import StarryOS.Fs.CachedView

namespace StarryOS.Fs

open Lib

/-! ## §1. The reference and the side condition. -/

/-- One call on the reference string: its result and the new string. -/
def refExec (s : Bytes) : FileOp → OpResult × Bytes
  | .readAt n off => (.read (slice s off n), s)
  | .writeAt buf off => (.wrote buf.length, overwrite 0 s off buf)
  | .append buf => (.appended buf.length (s.length + buf.length), overwrite 0 s s.length buf)
  | .setLen len => (.done, resize 0 len s)
  | .sync _ => (.done, s)

/-- The results of a sequence of calls on the reference string. -/
def refRun : Bytes → List FileOp → List (AxResult OpResult)
  | _, [] => []
  | s, op :: ops => .ok (refExec s op).1 :: refRun (refExec s op).2 ops

/-- The cached page at the end of the file is zero from the end up to `off`. -/
def GapClean (st : FileState) (off : Nat) : Prop :=
  ∀ page ∈ st.pageCache.peek (st.node.length / pageSize),
    ∀ j, j < pageSize → st.node.length % pageSize ≤ j →
      st.node.length / pageSize * pageSize + j < off → page.data j = 0

instance (st : FileState) (off : Nat) : Decidable (GapClean st off) := by
  unfold GapClean
  infer_instance

/-- The condition on the state before a call. -/
def StepSafe (st : FileState) : FileOp → Prop
  | .readAt n off => off + n < 2 ^ 64
  | .writeAt buf off => off + buf.length ≤ maxEnd ∧ GapClean st off
  | .append buf => st.node.length + buf.length ≤ maxEnd
  | .setLen len => len ≤ maxEnd
  | .sync _ => True

instance (st : FileState) : (op : FileOp) → Decidable (StepSafe st op)
  | .readAt n off => inferInstanceAs (Decidable (off + n < 2 ^ 64))
  | .writeAt buf off => inferInstanceAs (Decidable (off + buf.length ≤ maxEnd ∧ GapClean st off))
  | .append buf => inferInstanceAs (Decidable (st.node.length + buf.length ≤ maxEnd))
  | .setLen len => inferInstanceAs (Decidable (len ≤ maxEnd))
  | .sync _ => inferInstanceAs (Decidable True)

/-- Every call of the run is safe in the state it starts from. -/
def RunSafe (env : Env) : FileState → List FileOp → Prop
  | _, [] => True
  | st, op :: ops => StepSafe st op ∧ RunSafe env (execState env st op) ops

instance runSafeDecidable (env : Env) :
    (st : FileState) → (ops : List FileOp) → Decidable (RunSafe env st ops)
  | _, [] => inferInstanceAs (Decidable True)
  | st, op :: ops =>
    have := runSafeDecidable env (execState env st op) ops
    inferInstanceAs (Decidable (StepSafe st op ∧ RunSafe env (execState env st op) ops))

/-! ## §2. Reading. -/

section Specs

variable {env : Env} {st : FileState} {s : Bytes} (hf : env.Faultless)

include hf

variable {off len : Nat} {buf : Bytes}

theorem readAt_shows {n : Nat} (h : Shows env st s 0 0) (hmax : s.length ≤ maxEnd)
    (hn : off + n < 2 ^ 64) :
    wp (readAt env n off) st (fun r st' => Shows env st' s 0 0 ∧ r = slice s off n) NoError := by
  obtain ⟨hok, hroomy⟩ := Roomy.readAt hf hmax ⟨h.inside, h.cap⟩ (Nat.le_of_eq h.len)
  refine wp_mono (wp_and (readAt_keeps (by rw [h.len]; exact hmax) hn hok) hroomy) ?_
    (fun _ _ he => he.2)
  rintro r st' ⟨⟨⟨hkeeps, hlen⟩, hr, hbytes⟩, hinside, hcap⟩
  refine ⟨⟨hlen.trans h.len, fun i hi hw => hkeeps i _ (h.held i hi hw), hinside, hcap⟩, ?_⟩
  rw [h.len] at hr
  apply eq_of_getD 0
  · rw [length_slice]
    omega
  intro i hi
  have hb := hbytes (off + i) _ (h.held (off + i) (by omega) (.inr (Nat.zero_le _)))
    (Nat.le_add_right _ _) (by omega)
  rw [Nat.add_sub_cancel_left] at hb
  rw [getD_slice, if_pos (by omega), List.getD_eq_getElem?_getD, hb]
  rfl

/-! ## §3. Writing. -/

omit hf in
/-- An offset beyond the old end shows zero after the node has grown over it,
unless a cached page shows something else there. -/
theorem holds_zero_of_grown {i ios : Nat} (hold : st.node.length ≤ i) (hi : i < len)
    (hpage : ∀ page, st.pageCache.peek (i / pageSize) = some page → page.data (i % pageSize) = 0) :
    Holds env { st with node := resize 0 len st.node, ios := ios } i 0 where
  inside := by
    simp only [length_resize]
    exact hi
  cached := hpage
  backed _ := by
    unfold FileState.backing
    simp only [getD_resize, if_pos hi, getD_of_length_le 0 _ i hold, ite_self]

omit hf in
/-- The gap before a write shows zeros because the cached last page is clean there. -/
theorem Shows.gap {i ios : Nat} (h : Shows env st s 0 0) (hgap : GapClean st off)
    (hold : s.length ≤ i) (hi : i < off) (hlen : off ≤ len) : Holds env (st.grown len ios) i 0 := by
  refine holds_zero_of_grown (by rw [h.len]; exact hold) (by omega) ?_
  intro page hp
  -- a cached page that reaches beyond the end of the file is the last one
  have hin := h.inside _ page hp
  have hrange := (div_eq_page_iff i (i / pageSize)).mp rfl
  have hlast : s.length / pageSize = i / pageSize := by
    rw [div_eq_page_iff]
    omega
  have hmod := mod_eq_sub_page hlast
  have hmod' := mod_eq_sub_page (show i / pageSize = i / pageSize from rfl)
  apply hgap page
  · rw [h.len, hlast]
    exact hp
  · exact mod_lt_page i
  · rw [h.len]
    omega
  · rw [h.len, hlast]
    omega

theorem writeAtLocked_shows (h : Shows env st s 0 0) (hold : s.length ≤ maxEnd)
    (hmax : off + buf.length ≤ maxEnd) (hgap : GapClean st off) :
    wp (writeAtLocked env buf off) st (fun r st' =>
      Shows env st' (overwrite 0 s off buf) 0 0 ∧ r = buf.length) NoError := by
  have hgrow : wp (growNode env (u64 (off + buf.length)) buf) st
      (fun _ st' => Roomy env st' (max s.length (off + buf.length))) NoError := by
    refine wp_mono (growNode_effect env _ buf st) ?_ (fun _ _ hpost => no_isErr hf hpost.2)
    rintro r st' ⟨-, ios, rfl⟩
    exact ⟨fun pn page hp => Nat.le_trans (h.inside pn page hp) (Nat.le_max_left _ _), h.cap⟩
  obtain ⟨hok, hroomy⟩ := Roomy.withPages hf (Nat.max_le.mpr ⟨hold, hmax⟩) off
    (u64 (off + buf.length)) (writeEach env) (by rw [u64_of_le hmax]; omega) hgrow
  have hroomy : wp (writeAtLocked env buf off) st
      (fun _ st' => Roomy env st' (max s.length (off + buf.length))) NoError :=
    wp_seq hroomy (fun _ _ => id)
  have hlength := writeAtLocked_trace buf off (Trace.refl env (fun _ => True) st)
  refine wp_mono (wp_and (wp_and (writeAtLocked_holds hmax hok) hlength) hroomy) ?_
    (fun _ _ he => he.2)
  rintro r st' ⟨⟨⟨hr, hwrote⟩, -, hlen⟩, hinside, hcap⟩
  rw [u64_of_le hmax, h.len] at hlen
  refine ⟨⟨by rw [hlen, length_overwrite], ?_, by rw [length_overwrite]; exact hinside, hcap⟩, hr⟩
  intro i hi _
  rw [length_overwrite] at hi
  rw [getD_overwrite]
  refine hwrote i _ (by rw [h.len]; exact hi) ?_ ?_
  · intro hnone ios
    rw [byteOf_eq_none] at hnone
    rw [if_neg hnone]
    by_cases hin : i < s.length
    · exact (h.held i hin (.inr (Nat.zero_le i))).grow ios (Nat.le_max_left _ _)
    · rw [getD_of_length_le 0 s i (by omega)]
      exact h.gap hgap (by omega) (by omega) (Nat.le_add_right _ _)
  · intro c hc
    grind [byteOf]

/-! ## §4. `set_len` and `sync`. -/

omit hf in
/-- A resized file shows the resized string: the only cached page that can
reach beyond the old end is the one that was zeroed. -/
theorem Resized.shows {st' : FileState} (hr : Resized len st st') (h : Shows env st s 0 0) :
    Shows env st' (resize 0 len s) 0 0 := by
  have hlen := h.len
  refine ⟨by rw [hr.length, length_resize], ?_, ?_, by rw [hr.cap]; exact h.cap⟩
  · intro i hi _
    rw [length_resize] at hi
    rw [getD_resize, if_pos hi]
    -- a byte of the old file, or one that `set_len` has added
    by_cases hold : i < s.length
    · exact hr.holds hi (h.held i hold (.inr (Nat.zero_le i)))
    have hgrow : st.node.length < len := by omega
    have hpeek := hr.grown hgrow (i / pageSize)
    rw [getD_of_length_le 0 s i (by omega)]
    refine ⟨by rw [hr.length]; exact hi, ?_, ?_⟩
    · intro page' hp
      rw [hpeek] at hp
      by_cases hlast : i / pageSize = st.node.length / pageSize
      · have hrange := (div_eq_page_iff i _).mp hlast
        have hmod := mod_eq_sub_page hlast
        rw [if_pos hlast, Option.map_eq_some_iff] at hp
        obtain ⟨page, -, rfl⟩ := hp
        simp only [zeroedTail, storeBlock, List.length_replicate]
        grind
      · -- no page behind the last one is cached
        rw [if_neg hlast] at hp
        grind [div_eq_page_iff, pageSize]
    · intro _
      unfold FileState.backing
      rw [hr.node i hi, getD_of_length_le 0 _ i (by omega), ite_self]
  · intro pn page hp
    rw [length_resize]
    by_cases hgrow : st.node.length < len
    · rw [hr.grown hgrow] at hp
      split at hp
      next hlast =>
        rw [hlast]
        have := page_start_le st.node.length
        omega
      · have := h.inside pn page hp
        omega
    · rw [hr.cut hgrow] at hp
      split at hp
      · cases hp
      next hkept =>
        have hin := h.inside pn page hp
        have hle : pn ≤ s.length / pageSize := (Nat.le_div_iff_mul_le (by decide)).mpr hin
        rw [hlen] at hkept
        exact (Nat.le_div_iff_mul_le (by decide)).mp (by omega)

theorem setLen_shows (h : Shows env st s 0 0) (hold : s.length ≤ maxEnd) (hnew : len ≤ maxEnd) :
    wp (setLen env len) st (fun _ st' => Shows env st' (resize 0 len s) 0 0) NoError :=
  wp_mono (setLen_effect (by rw [h.len]; exact hold) hnew) (fun _ _ hr => hr.shows h)
    (fun _ _ hpost => no_isErr hf hpost.2)

theorem sync_shows {dataOnly : Bool} (h : Shows env st s 0 0) :
    wp (sync env dataOnly) st (fun _ st' => Shows env st' s 0 0) NoError := by
  cases hmem : env.inMemory with
  | true =>
    unfold sync
    rw [if_pos hmem]
    exact h
  | false =>
    refine wp_mono (wp_and (sync_returns hf.io dataOnly st)
      (wp_and (sync_trace dataOnly (.refl env (fun _ => True) st))
        (sync_keeps (by rw [syncLoopOk_of_io hf.io, Bool.or_true])))) ?_
      (fun _ _ hpost => hpost.1)
    rintro _ st' ⟨-, ⟨-, hlen⟩, hkeeps, hempty⟩
    refine ⟨hlen.trans h.len, fun i hi hw => hkeeps i _ (h.held i hi hw), ?_, ?_⟩
    · intro pn page hp
      rw [LruCache.peek_eq_some_iff, hempty hmem] at hp
      cases hp
    · intro hm
      rw [hmem] at hm
      cases hm

/-! ## §5. One call, and whole runs. -/

omit hf in
theorem gapClean_end (st : FileState) : GapClean st st.node.length := by
  intro page _ j _ hj hlt
  have := Nat.div_add_mod' st.node.length pageSize
  omega

theorem append_shows (h : Shows env st s 0 0) (hroom : s.length + buf.length ≤ maxEnd) :
    wp (append env buf) st (fun r st' => Shows env st' (overwrite 0 s s.length buf) 0 0
      ∧ r = (buf.length, s.length + buf.length)) NoError := by
  simp only [append, wp_bind, wp_pure]
  refine wp_mono_ok (nodeLen_size hf st) ?_
  rintro len st₁ ⟨rfl, rfl⟩
  have hend : GapClean { st with ios := st.ios + 1 } st.node.length := gapClean_end _
  rw [h.len] at hend ⊢
  refine wp_mono_ok (writeAtLocked_shows hf (h.congr rfl rfl) (by omega) hroom hend) ?_
  rintro r st' ⟨h', rfl⟩
  exact ⟨h', rfl⟩

/-- **One safe call** returns what the reference returns and shows its string,
on disk and in memory. -/
theorem exec_shows {op : FileOp} (h : Shows env st s 0 0) (hmax : s.length ≤ maxEnd)
    (hsafe : StepSafe st op) : wp (exec env op) st (fun r st' => Shows env st' (refExec s op).2 0 0
      ∧ r = (refExec s op).1) NoError := by
  cases op with
  | readAt n off =>
    simp only [exec, wp_bind, wp_pure]
    refine wp_mono_ok (readAt_shows hf h hmax hsafe) ?_
    rintro r st' ⟨h', rfl⟩
    exact ⟨h', rfl⟩
  | writeAt buf off =>
    simp only [exec, wp_bind, wp_pure]
    refine wp_mono_ok (writeAtLocked_shows hf h hmax hsafe.1 hsafe.2) ?_
    rintro r st' ⟨h', rfl⟩
    exact ⟨h', rfl⟩
  | append buf =>
    simp only [exec, wp_bind, wp_pure]
    have hroom : s.length + buf.length ≤ maxEnd := by
      rw [← h.len]
      exact hsafe
    refine wp_mono_ok (append_shows hf h hroom) ?_
    rintro r st' ⟨h', rfl⟩
    exact ⟨h', rfl⟩
  | setLen len =>
    simp only [exec, wp_bind, wp_pure]
    refine wp_mono_ok (setLen_shows hf h hmax hsafe) ?_
    intro _ st' h'
    exact ⟨h', rfl⟩
  | sync dataOnly =>
    simp only [exec, wp_bind, wp_pure]
    refine wp_mono_ok (sync_shows hf h) ?_
    intro _ st' h'
    exact ⟨h', rfl⟩

omit hf in
/-- A safe call keeps the file below `maxEnd`. -/
theorem refExec_le_maxEnd {op : FileOp} (hlen : st.node.length = s.length)
    (hmax : s.length ≤ maxEnd) (hsafe : StepSafe st op) : (refExec s op).2.length ≤ maxEnd := by
  cases op with
  | readAt n off => exact hmax
  | writeAt buf off =>
    simp only [refExec, length_overwrite]
    exact Nat.max_le.mpr ⟨hmax, hsafe.1⟩
  | append buf =>
    simp only [refExec, length_overwrite]
    exact Nat.max_le.mpr ⟨hmax, by rw [← hlen]; exact hsafe⟩
  | setLen len =>
    simp only [refExec, length_resize]
    exact hsafe
  | sync dataOnly => exact hmax

end Specs

/-- A safe run from any state that represents `s`. -/
theorem runOps_eq_refRun {env : Env} (hr : env.Reliable) :
    ∀ (ops : List FileOp) (st : FileState) (s : Bytes),
    Represents st s 0 0 → s.length ≤ maxEnd → RunSafe env st ops →
      runOps env st ops = refRun s ops := by
  intro ops
  induction ops with
  | nil => intro st s _ _ _; rfl
  | cons op ops ih =>
    intro st s h hmax hsafe
    obtain ⟨r, st', hexec, h', hres⟩ := exists_of_wp
      (exec_shows hr.faultless (h.shows hr.disk) hmax hsafe.1)
    have hstate : execState env st op = st' := by
      unfold execState stateAfter
      rw [hexec]
    have hresult : execResult env st op = .ok (refExec s op).1 := by
      unfold execResult
      rw [hexec, ← hres]
    have hrest := hsafe.2
    rw [hstate] at hrest
    show execResult env st op :: runOps env (execState env st op) ops = _
    rw [hresult, hstate, ih st' _ (h'.represents hr.disk)
      (refExec_le_maxEnd h.len hmax hsafe.1) hrest]
    rfl

theorem opened_represents (cap : Nat) (hcap : 0 < cap) (node : Bytes) :
    Represents (opened cap hcap node) node 0 0 where
  len := rfl
  bytes _ _ _ := rfl
  clean pn page hp := by
    have hnone : (opened cap hcap node).pageCache.peek pn = none := rfl
    cases hp
  inside pn page hp := by
    have hnone : (opened cap hcap node).pageCache.peek pn = none := rfl
    cases hp

/-- **CACHED I/O REFINES A FLAT BYTE STRING on every safe run**: at any cache
capacity and with any stale page contents, every call of the run returns what
the reference string returns. -/
theorem cached_io_refines_flat_string (env : Env) (hr : env.Reliable) (cap : Nat)
    (hcap : 0 < cap) (node : Bytes) (hlen : node.length ≤ maxEnd) (ops : List FileOp)
    (hsafe : RunSafe env (opened cap hcap node) ops) :
    runOps env (opened cap hcap node) ops = refRun node ops :=
  runOps_eq_refRun hr ops _ node (opened_represents cap hcap node) hlen hsafe

/-- An environment without faults, whose fresh pages hold `0xEE`. -/
def dirtyPages : Env where
  inMemory := false
  alloc k := some (k, fun _ => 0xEE)
  io _ := .ok

theorem dirtyPages_reliable : dirtyPages.Reliable := ⟨⟨rfl, fun _ => rfl⟩, fun _ => rfl⟩

/-- The theorem at work on a gap write: the last page was synced out, so the
gap comes from the node. -/
theorem synced_gap_write_reads_zeros : runOps dirtyPages (opened 64 (by decide) [])
        [.writeAt [65, 66, 67] 0, .setLen 1, .sync false, .writeAt [68] 3, .readAt 4 0]
      = [.ok (.wrote 3), .ok .done, .ok .done, .ok (.wrote 1), .ok (.read [65, 0, 0, 68])] :=
  cached_io_refines_flat_string dirtyPages dirtyPages_reliable 64 (by decide) [] (by decide)
    [.writeAt [65, 66, 67] 0, .setLen 1, .sync false, .writeAt [68] 3, .readAt 4 0] (by decide)

/-- **The gap of a write is not zeroed.**  Three bytes are written, two are cut
off, and a write beyond the new end brings them back. -/
theorem gap_write_shows_truncated_bytes : runOps dirtyPages (opened 64 (by decide) [])
        [.writeAt [65, 66, 67] 0, .setLen 1, .writeAt [68] 3, .readAt 4 0]
      ≠ refRun [] [.writeAt [65, 66, 67] 0, .setLen 1, .writeAt [68] 3, .readAt 4 0] := by
  decide

end StarryOS.Fs
