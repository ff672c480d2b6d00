/-
  StarryOS.Mm.CowIsolation — A SHARED FRAME IS NEVER WRITABLE.

  After a fork, parent and child map the same frames.  They stay isolated as
  long as no entry of a frame with a count above 1 has WRITE permission: the
  first write then faults and copies.

  `Isolated` is the invariant that carries this through every call, faults and
  failed calls included: a count is never below the number of entries (unless
  the `u8` has wrapped to 0, after which every use of the frame halts), so a
  frame with count 1 has at most one entry to share.

  One call does not keep it: `mprotect` sets the flags of present pages without
  a look at the counts.  `ProtectSpares` is what has to be true of a call that
  grants WRITE (`cow_isolation`, `mprotect_reopens_shared_page`).
-/
import StarryOS.Mm.FrameTrace
import StarryOS.Lib.Transition

namespace StarryOS.Mm.Cow

open Lib Table CowMem

/-! ## §1. The invariant. -/

/-- The entry maps frame `f`. -/
def mapsFrame (f : Nat) (_key : Nat × Nat) (pte : Pte) : Bool := pte.paddr == f

/-- The number of copy-on-write entries that map a frame. -/
def CowMem.mappings (m : CowMem) (f : Nat) : Nat := m.ptes.count (mapsFrame f)

/-- **No frame with a count above 1 is mapped with WRITE, in any page table.** -/
def SharedReadOnly (st : CowState) : Prop :=
  ∀ f c, st.mem.frames.lookup f = some c → 1 < c → ∀ key pte,
    st.mem.ptes.lookup key = some pte ∨ st.mem.others.lookup key = some pte →
    pte.paddr = f → pte.flags.write = false

/-- What every call keeps. -/
@[grind cases] structure Isolated (m : CowMem) : Prop where
  small : ∀ f c, m.frames.lookup f = some c → c < 256
  counted : ∀ f c, m.frames.lookup f = some c → c = 0 ∨ m.mappings f ≤ c
  owned : ∀ f, m.frames.lookup f = none → m.mappings f = 0
  readOnly : ∀ key pte c, m.ptes.lookup key = some pte → m.frames.lookup pte.paddr = some c →
    1 < c → pte.flags.write = false
  apart : ∀ key pte, m.others.lookup key = some pte → m.frames.lookup pte.paddr = none

theorem Isolated.sharedReadOnly {st : CowState} (h : Isolated st.mem) : SharedReadOnly st := by
  intro f c hc hlt key pte hpte hf
  grind

variable {m : CowMem} {t : PageTables} {pte : Pte}

variable {key : Nat × Nat}

theorem unused_iff {f : Nat} : m.unused f = true ↔
    m.frames.lookup f = none ∧ ∀ key pte, m.others.lookup key = some pte → pte.paddr ≠ f := by
  unfold unused
  rw [Bool.and_eq_true, Option.isNone_iff_eq_none, List.all_eq_true]
  constructor
  · intro h
    refine ⟨h.1, ?_⟩
    intro key pte hk
    simpa using h.2 (key, pte) ((m.others.lookup_eq_some_iff key pte).mp hk)
  · intro h
    refine ⟨h.1, ?_⟩
    intro e he
    simpa using h.2 e.1 e.2 ((m.others.lookup_eq_some_iff e.1 e.2).mpr he)

/-! ## §2. Counting the entries of a frame. -/

theorem mapsFrame_toNat (f : Nat) (key : Nat × Nat) (pte : Pte) :
    (mapsFrame f key pte).toNat = if pte.paddr = f then 1 else 0 := by
  unfold mapsFrame
  grind

theorem mappings_insert_new (f : Nat) (h : t.lookup key = none) :
    (t.insert key pte).count (mapsFrame f)
      = t.count (mapsFrame f) + if pte.paddr = f then 1 else 0 := by
  rw [count_insert_new _ _ h, mapsFrame_toNat]

theorem mappings_insert_old (f : Nat) (pte' : Pte) (h : t.lookup key = some pte) :
    (t.insert key pte').count (mapsFrame f) + (if pte.paddr = f then 1 else 0)
      = t.count (mapsFrame f) + if pte'.paddr = f then 1 else 0 := by
  have hcount := count_insert_old (mapsFrame f) pte' h
  rw [mapsFrame_toNat, mapsFrame_toNat] at hcount
  exact hcount

theorem mappings_reflag (flags : MappingFlags) (f : Nat) (h : t.lookup key = some pte) :
    (t.insert key { pte with flags := flags }).count (mapsFrame f) = t.count (mapsFrame f) := by
  have hcount := mappings_insert_old f { pte with flags := flags } h
  simp only at hcount
  omega

/-- A page that is shared has one entry more. -/
theorem mappings_share {key' : Nat × Nat} (flags : MappingFlags) (f : Nat)
    (hk : t.lookup key = some pte) (hnew : t.lookup key' = none) :
    ((t.insert key { pte with flags := flags }).insert key' ⟨pte.paddr, flags, pte.size⟩).count
      (mapsFrame f) = t.count (mapsFrame f) + if pte.paddr = f then 1 else 0 := by
  rw [mappings_insert_new, mappings_reflag flags f hk]
  rw [lookup_insert, if_neg]
  · exact hnew
  · rintro rfl
    rw [hk] at hnew
    cases hnew

theorem mappings_erase (f : Nat) (h : t.lookup key = some pte) :
    (t.erase key).count (mapsFrame f) + (if pte.paddr = f then 1 else 0)
      = t.count (mapsFrame f) := by
  have hcount := count_erase (mapsFrame f) h
  rw [mapsFrame_toNat] at hcount
  exact hcount

theorem mappings_pos (hk : m.ptes.lookup key = some pte) : 0 < m.mappings pte.paddr :=
  count_pos (mapsFrame pte.paddr) hk (by simp [mapsFrame])

theorem eq_of_mappings_le_one {key' : Nat × Nat} {pte' : Pte} (hone : m.mappings pte.paddr ≤ 1)
    (hk : m.ptes.lookup key = some pte) (hk' : m.ptes.lookup key' = some pte')
    (hf : pte'.paddr = pte.paddr) : key' = key :=
  eq_of_count_le_one (mapsFrame pte.paddr) hone hk (by simp [mapsFrame]) hk'
    (by simp [mapsFrame, hf])

/-! ## §3. Every step keeps it. -/

section Steps

variable {leaky : Prop} {K : Nat × Nat → Prop}

variable {f c : Nat} {key key' : Nat × Nat}

variable (h : Isolated m)
include h

theorem Isolated.addFrame (hf : m.unused f = true)
    (hcount : ∀ g, t.count (mapsFrame g) ≤ m.mappings g + if f = g then 1 else 0)
    (hro : ∀ key pte, t.lookup key = some pte → pte.paddr ≠ f → m.ptes.lookup key = some pte) :
    Isolated { m with frames := m.frames.insert f 1, ptes := t } := by
  obtain ⟨hnone, hother⟩ := unused_iff.mp hf
  refine ⟨?_, ?_, ?_, ?_, ?_⟩
  · grind
  · intro g c hc
    have hle := hcount g
    simp only [lookup_insert] at hc
    split at hc
    next hg =>
      injection hc with hc
      rw [if_pos hg.symm, hg, h.owned f hnone] at hle
      right
      show t.count (mapsFrame g) ≤ c
      rw [hg]
      omega
    next hg =>
      rw [if_neg (Ne.symm hg)] at hle
      rcases h.counted g c hc with hz | hle'
      · exact .inl hz
      · right
        show t.count (mapsFrame g) ≤ c
        omega
  · intro g hg
    have hle := hcount g
    simp only [lookup_insert] at hg
    split at hg
    · cases hg
    next hne =>
      rw [if_neg (Ne.symm hne), h.owned g hg] at hle
      show t.count (mapsFrame g) = 0
      omega
  · grind
  · grind

/-- The count of a frame changes; its entries are read-only if it is shared. -/
theorem Isolated.setCount {n : Nat} (hn : n < 256) (hsome : ∃ c, m.frames.lookup f = some c)
    (hcount : ∀ g, t.count (mapsFrame g) ≤ m.mappings g ∨ g = f)
    (hf : n = 0 ∨ t.count (mapsFrame f) ≤ n) (hro : ∀ key pte, t.lookup key = some pte →
      (pte.flags.write = true → m.ptes.lookup key = some pte)
        ∧ (pte.paddr = f → 1 < n → pte.flags.write = false)) :
    Isolated { m with frames := m.frames.insert f n, ptes := t } := by
  refine ⟨?_, ?_, ?_, ?_, ?_⟩
  · grind
  · intro g c hc
    simp only [lookup_insert] at hc
    split at hc
    next hg =>
      cases hc
      rw [hg]
      exact hf
    next hg =>
      rcases h.counted g c hc with hz | hle
      · exact .inl hz
      · right
        rcases hcount g with hle' | heq
        · exact Nat.le_trans hle' hle
        · exact absurd heq hg
  · intro g hg
    simp only [lookup_insert] at hg
    split at hg
    · cases hg
    next hne =>
      rcases hcount g with hle | heq
      · exact Nat.le_zero.mp (h.owned g hg ▸ hle)
      · exact absurd heq hne
  · grind
  · grind

/-- Entries go or change their flags; WRITE is only granted on a frame that is
not shared. -/
theorem Isolated.retable {o : PageTables} (hcount : ∀ g, t.count (mapsFrame g) ≤ m.mappings g)
    (hpte : ∀ key pte, t.lookup key = some pte → ∃ old, m.ptes.lookup key = some old
      ∧ old.paddr = pte.paddr ∧ (pte.flags.write = true → old.flags.write = true
        ∨ ∀ c, m.frames.lookup pte.paddr = some c → c ≤ 1))
    (hother : ∀ key pte, o.lookup key = some pte → ∃ old, m.others.lookup key = some old
      ∧ old.paddr = pte.paddr) : Isolated { m with ptes := t, others := o } := by
  refine ⟨h.small, ?_, ?_, ?_, ?_⟩
  · intro g c hc
    rcases h.counted g c hc with hz | hle
    · exact .inl hz
    · exact .inr (Nat.le_trans (hcount g) hle)
  · intro g hg
    exact Nat.le_zero.mp (h.owned g hg ▸ hcount g)
  · grind
  · grind

theorem Isolated.mappings_le (hc : m.frames.lookup f = some c) (hpos : 0 < c) :
    m.mappings f ≤ c := by
  rcases h.counted f c hc with hz | hle
  · omega
  · exact hle

/-- The other entries of a frame are read-only, or there are none. -/
theorem Isolated.others_readOnly {pte' : Pte} (hk : m.ptes.lookup key = some pte)
    (hc : m.frames.lookup pte.paddr = some c) (hpos : 0 < c) (hk' : m.ptes.lookup key' = some pte')
    (hne : key' ≠ key) (hpaddr : pte'.paddr = pte.paddr) : pte'.flags.write = false := by
  by_cases hone : 1 < c
  · exact h.readOnly key' pte' c hk' (by rw [hpaddr]; exact hc) hone
  · have hle := h.mappings_le hc hpos
    exact absurd (eq_of_mappings_le_one (by omega) hk hk' hpaddr) hne

/-- The last reference of a frame goes together with its entry. -/
theorem Isolated.dropLast (hk : m.ptes.lookup key = some pte)
    (hc : m.frames.lookup pte.paddr = some 1) :
    Isolated { m with ptes := m.ptes.erase key, frames := m.frames.erase pte.paddr } := by
  have hone : m.mappings pte.paddr ≤ 1 := h.mappings_le hc Nat.one_pos
  have herase : ∀ g, (m.ptes.erase key).count (mapsFrame g) ≤ m.mappings g := by
    intro g
    have := mappings_erase g hk
    unfold mappings
    omega
  refine ⟨?_, ?_, ?_, ?_, ?_⟩
  · grind
  · intro g c hg
    simp only [lookup_erase] at hg
    split at hg
    · cases hg
    · rcases h.counted g c hg with hz | hle
      · exact .inl hz
      · exact .inr (Nat.le_trans (herase g) hle)
  · intro g hg
    simp only [lookup_erase] at hg
    split at hg
    next heq =>
      have hgone := mappings_erase g hk
      rw [heq, if_pos rfl] at hgone
      show (m.ptes.erase key).count (mapsFrame g) = 0
      rw [heq]
      unfold mappings at hone
      omega
    · exact Nat.le_zero.mp (h.owned g hg ▸ herase g)
  · grind
  · grind

/-- **A shared page is copied**: its entry moves to a frame of its own. -/
theorem Isolated.copy (flags : MappingFlags) (hk : m.ptes.lookup key = some pte)
    (hc : m.frames.lookup pte.paddr = some (c + 2)) (hf : m.unused f = true) :
    Isolated { m with
      frames := (m.frames.insert f 1).insert pte.paddr (c + 1)
      ptes := m.ptes.insert key ⟨f, flags, pte.size⟩ } := by
  have hne : pte.paddr ≠ f := by
    intro heq
    rw [heq, (unused_iff.mp hf).1] at hc
    cases hc
  have hmoved : ∀ key' pte', (m.ptes.insert key ⟨f, flags, pte.size⟩).lookup key' = some pte' →
      pte'.paddr ≠ f → m.ptes.lookup key' = some pte' := by grind
  have hnew : Isolated { m with
      frames := m.frames.insert f 1
      ptes := m.ptes.insert key ⟨f, flags, pte.size⟩ } := by
    apply h.addFrame hf
    · grind [mappings_insert_old, mappings]
    · exact hmoved
  apply hnew.setCount
  · have hsmall := h.small _ _ hc
    omega
  · refine ⟨c + 2, ?_⟩
    simp only [lookup_insert, if_neg hne]
    exact hc
  · intro g
    exact .inl le_rfl
  · -- one of the entries has moved away
    right
    have hcount := mappings_insert_old pte.paddr ⟨f, flags, pte.size⟩ hk
    have hle := h.mappings_le hc (by omega)
    rw [if_pos rfl, if_neg hne.symm] at hcount
    unfold mappings at hle
    omega
  · grind

section

variable (hk : m.ptes.lookup key = some pte)
include hk

section

variable (hc : m.frames.lookup pte.paddr = some c) (hpos : 0 < c)
include hc hpos

/-- **The count of a frame goes up**, by no less than the entries that show it: the one that did
and those that come are read-only. -/
theorem Isolated.raise
    (hcount : ∀ g, t.count (mapsFrame g) ≤ m.mappings g + if pte.paddr = g then 1 else 0)
    (hro : ∀ key₁ pte₁, t.lookup key₁ = some pte₁ →
      pte₁.flags.write = false ∨ key₁ ≠ key ∧ m.ptes.lookup key₁ = some pte₁) :
    Isolated { m with frames := m.frames.insert pte.paddr ((c + 1) % 256), ptes := t } := by
  have hsmall := h.small _ _ hc
  have hle := h.mappings_le hc hpos
  apply h.setCount (Nat.mod_lt _ (by decide)) ⟨c, hc⟩
  · grind
  · have hone := hcount pte.paddr
    rw [if_pos rfl] at hone
    omega
  · intro key₁ pte₁ hk₁
    rcases hro key₁ pte₁ hk₁ with hw | ⟨hne, hold⟩
    · exact ⟨fun hwr => absurd (hw.symm.trans hwr) (by simp), fun _ _ => hw⟩
    · exact ⟨fun _ => hold, fun hpaddr _ => h.others_readOnly hk hc hpos hold hne hpaddr⟩

variable {flags : MappingFlags} (hw : flags.write = false)
include hw

/-- **A page is shared**: a second entry shows its frame, both read-only. -/
theorem Isolated.share (hnew : m.ptes.lookup key' = none) :
    Isolated { m with
      frames := m.frames.insert pte.paddr ((c + 1) % 256)
      ptes := (m.ptes.insert key { pte with flags := flags }).insert key'
        ⟨pte.paddr, flags, pte.size⟩ } := by
  refine h.raise hk hc hpos (fun g => (mappings_share flags g hk hnew).le) ?_
  grind

/-- The count goes up and the entry gets read-only, but no second entry comes. -/
theorem Isolated.shareFail :
    Isolated { m with
      frames := m.frames.insert pte.paddr ((c + 1) % 256)
      ptes := m.ptes.insert key { pte with flags := flags } } := by
  refine h.raise hk hc hpos (fun g => ?_) ?_
  · rw [mappings_reflag flags g hk]
    exact Nat.le_add_right _ _
  · grind

end

theorem Isolated.dropShared (hc : m.frames.lookup pte.paddr = some (c + 1)) (hpos : 0 < c) :
    Isolated { m with ptes := m.ptes.erase key, frames := m.frames.insert pte.paddr c } := by
  have hsmall := h.small _ _ hc
  apply h.setCount (by omega) ⟨c + 1, hc⟩
  · intro g
    have hcount := mappings_erase g hk
    unfold mappings
    omega
  · have hcount := mappings_erase pte.paddr hk
    have hle := h.mappings_le hc (by omega)
    rw [if_pos rfl] at hcount
    unfold mappings at hle
    omega
  · grind

end

/-- **Every step keeps the invariant**, leaks included. -/
theorem frameStep_isolated {m' : CowMem} (hs : FrameStep leaky K m m') : Isolated m' := by
  cases hs with
  | calls allocs reads maps otherCalls => exact ⟨h.small, h.counted, h.owned, h.readOnly, h.apart⟩
  | fresh key f flags size hf hnew hK =>
    apply h.addFrame hf
    · intro g
      exact Nat.le_of_eq (mappings_insert_new g hnew)
    · grind
  | upgrade key pte flags hk hone =>
    apply h.retable
    · intro g
      rw [mappings_reflag flags g hk]
      exact le_rfl
    · grind
    · intro key' pte' hk'
      exact ⟨pte', hk', rfl⟩
  | copy key pte f c flags hk hc hf => exact h.copy flags hk hc hf
  | share key key' pte c flags hk hnew hc hpos hlim hw hK => exact h.share hk hc hpos hw hnew
  | drop key pte c hk hc =>
    by_cases hz : c = 0
    · subst hz
      exact h.dropLast hk hc
    · simp only [if_neg hz]
      exact h.dropShared hk hc (Nat.pos_of_ne_zero hz)
  | stray key pte hk hc =>
    apply h.retable
    · intro g
      have hcount := mappings_erase g hk
      unfold mappings
      omega
    · grind
    · intro key₁ pte₁ hk₁
      exact ⟨pte₁, hk₁, rfl⟩
  | leak f hl hf =>
    apply h.addFrame hf
    · intro g
      exact Nat.le_add_right _ _
    · intro key pte hk _
      exact hk
  | limit f c hl hc hlim =>
    -- the count is 254 and becomes 255: the mappings are fewer, and read-only
    have hsmall := h.small _ _ hc
    have hle := h.mappings_le hc (by omega)
    apply h.setCount (Nat.mod_lt _ (by decide)) ⟨c, hc⟩
    · intro g
      exact .inl le_rfl
    · right
      unfold mappings at hle
      omega
    · grind
  | shareFail key pte c flags hl hk hc hpos hw => exact h.shareFail hk hc hpos hw
  | vanish p hl =>
    apply h.retable
    · intro g
      exact count_filterKeys_le (mapsFrame g) p m.ptes
    · grind
    · grind

end Steps

/-! ## §4. Every call keeps it. -/

/-- The invariant of a whole state. -/
def Iso (st : CowState) : Prop := Isolated st.mem

section Calls

variable {env : Env} {st : CowState}

/-- The traces of a system in which anything may fail. -/
theorem anyTrace (m : CowMem) : FrameTrace True (fun _ => True) m m := .refl m

/-- A program that follows the frame steps keeps the invariant. -/
theorem iso_of_trace {st' : CowState} (h : Iso st)
    (ht : FrameTrace True (fun _ => True) st.mem st'.mem) : Iso st' :=
  ht.preserves Isolated (fun _ _ hm hs => frameStep_isolated hm hs) h

variable {b : Backend} {s lo hi : Nat} {flags : MappingFlags}

theorem populate_iso {access : MappingFlags} (h : Iso st) :
    wp ((ops env).populate b s lo hi flags access) st (fun r st' => r.2 = none ∧ Iso st')
      (orHalt Iso) := by
  refine wp_mono (populate_trace (.inl trivial) (fun _ _ _ _ => trivial) (anyTrace st.mem)) ?_ ?_
  · intro r st' h'
    exact ⟨h'.1, iso_of_trace h h'.2.1⟩
  · intro e st' h'
    exact h'.imp_right (fun h' => iso_of_trace h h'.1)

theorem populateArea_iso {start size : Nat} {access : MappingFlags} (h : Iso st) :
    settles (populateArea (ops env) s start size access) st Iso := by
  refine populateArea_settles (fun _ => Iso) (fun _ _ => id) ?_ h
  intro st' sp a lo h' _ _ _
  exact wp_mono_ok (populate_iso h') (fun _ _ hq => hq.2)

theorem otherCall_iso (h : Iso st) :
    wp (otherCall env) st (fun _ st' => st'.spaces = st.spaces ∧ Iso st') (orHalt Iso) := by
  refine wp_mono (otherCall_trace (anyTrace st.mem)) ?_ ?_
  · intro _ st' h'
    exact ⟨h'.2, iso_of_trace h h'.1⟩
  · intro e st' h'
    exact h'.imp_right (fun h' => iso_of_trace h h'.1)

theorem unmap_iso (h : Iso st) :
    wp ((ops env).unmap b s lo hi) st (fun _ st' => st'.spaces = st.spaces ∧ Iso st')
      (orHalt Iso) := by
  cases b with
  | cow b =>
    refine wp_mono (unmap_trace (anyTrace st.mem)) ?_ ?_
    · intro _ st' h'
      exact ⟨h'.1.2, iso_of_trace h h'.1.1⟩
    · intro e st' h'
      exact h'.imp_right (fun h' => iso_of_trace h h'.1)
  | other size => exact otherCall_iso h

theorem map_iso (h : Iso st) : settles ((ops env).map b s lo hi flags) st Iso := by
  cases b with
  | cow b => exact h
  | other size => exact wp_mono_ok (otherCall_iso h) (fun _ _ h' => h'.2)

theorem cloneMapPages_iso {b : CowBackend} {t : Nat} : ∀ (vs : List Nat) (st : CowState), Iso st →
      settles (cloneMapPages env b s t flags.withoutWrite vs) st Iso := by
  intro vs
  induction vs with
  | nil =>
    intro st h
    exact h
  | cons v vs ih =>
    intro st h
    have hpage : Traced True (fun _ => True) st.mem st
        (cloneMapPage env b s t v flags.withoutWrite) :=
      cloneMapPage_trace trivial trivial rfl (anyTrace st.mem)
    refine settles_bind (wp_mono_err hpage ?_) ?_
    · intro e st' h'
      exact h'.imp_right (fun h' => iso_of_trace h h'.1)
    · intro _ st' h'
      exact ih st' (iso_of_trace h h'.1)

theorem cloneMap_iso {t : Nat} (h : Iso st) :
    settles ((ops env).cloneMap b s t lo hi flags) st Iso := by
  cases b with
  | cow b =>
    show settles (do
      let vs ← pagesOf lo hi b.size
      cloneMapPages env b s t flags.withoutWrite vs
      return Backend.cow b) st Iso
    refine settles_bind (wp_pagesOf h) ?_
    rintro vs st₁ ⟨rfl, -⟩
    refine settles_bind (cloneMapPages_iso vs st₁ h) ?_
    intro _ st₂ h₂
    exact h₂
  | other size => exact h

theorem mapArea_iso {a : MemoryArea Backend} (h : Iso st) :
    settles (mapArea (ops env) s a) st Iso :=
  mapArea_settles (P := Iso) (fun _ _ _ => map_iso h) (fun _ _ _ => h)

theorem dropSpace_iso (h : Iso st) : settles (dropSpace (ops env) s) st Iso := by
  refine dropSpace_settles (fun _ => Iso) (fun _ _ => h) ?_ ?_
  · intro st a rest h
    exact wp_mono (unmap_iso h) (fun _ _ h' => h'.2) (fun _ _ _ => trivial)
  · intro st h
    exact iso_of_trace h ((anyTrace st.mem).next
      (.vanish st.mem (fun key => key.1 != s) (.inl trivial)))

theorem tryClone_iso (h : Iso st) : settles (tryClone (ops env) s) st Iso := by
  refine tryClone_settles (fun _ => Iso) (fun _ _ => h) ?_ (fun _ => id)
  intro st' a rest h'
  have hpart : settles (do
      let backend ← (ops env).cloneMap a.backend s st.spaces.length a.start a.stop a.flags
      mapArea (ops env) st.spaces.length { a with backend := backend }) st' Iso :=
    settles_bind (cloneMap_iso h') (fun _ _ => mapArea_iso)
  exact wp_mono_err hpart (fun _ _ he => he.imp_right dropSpace_iso)

/-! ## §5. `mprotect`. -/

/-- A call that grants WRITE spares every present page of a shared frame. -/
def Spares (newFlags : MappingFlags) (s lo hi : Nat) (m : CowMem) : Prop :=
  newFlags.write = true → ∀ v pte c, m.ptes.lookup (s, v) = some pte →
    meets lo hi v pte = true → m.frames.lookup pte.paddr = some c → c ≤ 1

/-- The condition on a step: an `mprotect` that grants WRITE meets no page of a
frame with a count above 1. -/
def ProtectSpares (st : CowState) : CowOp → Prop
  | .mm (.protect s start size newFlags) => Spares newFlags s start (start + size) st.mem
  | _ => True

/-- `protect_region` inside a range that spares shared pages. -/
theorem protectRegion_iso {m : CowMem} {cutLo cutHi : Nat} {newFlags : MappingFlags}
    (h : Isolated m) (hok : Spares newFlags s lo hi m) (hlo : lo ≤ cutLo) (hhi : cutHi ≤ hi) :
    Isolated { m with
        ptes := m.ptes.mapVals (protectPte s cutLo cutHi newFlags)
        others := m.others.mapVals (protectPte s cutLo cutHi newFlags) }
      ∧ Spares newFlags s lo hi { m with
        ptes := m.ptes.mapVals (protectPte s cutLo cutHi newFlags)
        others := m.others.mapVals (protectPte s cutLo cutHi newFlags) } := by
  constructor
  · apply h.retable
    · intro g
      rw [count_mapVals]
      · exact le_rfl
      · intro key pte
        unfold mapsFrame
        rw [protectPte_paddr]
    · intro key pte hk
      rw [lookup_mapVals, Option.map_eq_some_iff] at hk
      obtain ⟨old, hold, rfl⟩ := hk
      refine ⟨old, hold, (protectPte_paddr ..).symm, ?_⟩
      intro hw
      rw [protectPte_paddr]
      unfold protectPte at hw
      split at hw
      next hmeets =>
        right
        intro c hc
        have hwide : meets lo hi key.2 old = true := by grind [meets]
        exact hok hw key.2 old c (by rw [← hmeets.1]; exact hold) hwide hc
      · exact .inl hw
    · intro key pte hk
      rw [lookup_mapVals, Option.map_eq_some_iff] at hk
      obtain ⟨old, hold, rfl⟩ := hk
      exact ⟨old, hold, (protectPte_paddr ..).symm⟩
  · intro hw v pte c hk hmeets hc
    simp only [lookup_mapVals, Option.map_eq_some_iff] at hk
    obtain ⟨old, hold, rfl⟩ := hk
    rw [protectPte_paddr] at hc
    refine hok hw v old c hold ?_ hc
    unfold meets at hmeets ⊢
    rw [protectPte_size] at hmeets
    exact hmeets

theorem protect_iso {start size : Nat} {newFlags : MappingFlags} (h : Iso st)
    (hok : Spares newFlags s start (start + size) st.mem) :
    settles (protect (ops env) s start size newFlags) st Iso := by
  -- the walk keeps the invariant together with the condition
  have hboth : settles (protect (ops env) s start size newFlags) st
      (fun st' => Iso st' ∧ Spares newFlags s start (start + size) st'.mem) := by
    refine carve_settles ?_ ⟨h, hok⟩
    intro st' sp a cut h' hsp ha hcut _ _
    obtain ⟨hcs, hce, -, -⟩ := Area.within_eq_some hcut
    unfold backendProtect
    rw [wp_bind]
    have hon : wp ((ops env).onProtect cut.backend newFlags) st'
        (fun _ st₁ => st₁.spaces = st'.spaces ∧ Iso st₁
          ∧ Spares newFlags s start (start + size) st₁.mem)
        (orHalt (fun st₁ => Iso st₁ ∧ Spares newFlags s start (start + size) st₁.mem)) := by
      cases cut.backend with
      | cow b => exact ⟨rfl, h'⟩
      | other psize =>
        show wp (otherCall env) st' _ _
        unfold otherCall modifyMem
        have hsame : Iso (st'.withMem (fun m => { m with otherCalls := m.otherCalls + 1 })) :=
          ⟨h'.1.small, h'.1.counted, h'.1.owned, h'.1.readOnly, h'.1.apart⟩
        refine wp_exit ⟨rfl, hsame, h'.2⟩ fun _ => ?_
        exact .inr ⟨hsame, h'.2⟩
    refine wp_mono_ok hon ?_
    intro _ st₁ h₁
    exact ⟨h₁.1, protectRegion_iso h₁.2.1 h₁.2.2 (by omega) (by omega)⟩
  exact wp_mono hboth (fun _ _ hq => hq.1) (fun _ _ he => he.imp_right And.left)

/-! ## §6. Isolation in every run, and the run that breaks it. -/

/-- **One step keeps the invariant** when `mprotect` spares shared pages. -/
theorem cowStep_iso {st' : CowState} {op : CowOp} (h : Iso st) (hok : ProtectSpares st op)
    (hs : cowStep env st op = some st') : Iso st' := by
  cases op with
  | mm op =>
    refine runStep_of_settles ?_ hs
    cases op with
    | newSpace base size => exact h
    | map s start size flags populate backend =>
      refine map_settles Iso h (fun _ _ _ => mapArea_iso h) ?_
      intro st₁ h₁
      split
      · exact populateArea_iso h₁
      · exact h₁
    | populateArea s start size access => exact populateArea_iso h
    | fault s v access =>
      refine settles_bind (handlePageFault_settles ?_ h) (fun _ _ => id)
      intro sp a _ _ _ _
      refine wp_mono_ok (populate_iso h) ?_
      intro r st₂ h₂
      unfold afterCallback
      rw [h₂.1]
      exact h₂.2
    | protect s start size newFlags => exact protect_iso h hok
    | unmap s start size =>
      refine carve_settles ?_ h
      intro st₁ sp a cut h₁ _ _ _ _ _
      exact unmap_iso h₁
    | fork s => exact tryClone_iso h
    | exit s => exact dropSpace_iso h
  | otherMap s v pte =>
    obtain ⟨hmay, rfl⟩ := guard_eq_some hs
    have hframe : st.mem.frames.lookup pte.paddr = none := by
      unfold otherMayMap at hmay
      rw [Bool.and_eq_true, Option.isNone_iff_eq_none] at hmay
      exact hmay.1
    refine ⟨h.small, h.counted, h.owned, h.readOnly, ?_⟩
    intro key pte' hk
    simp only [MmState.withMem, lookup_insert] at hk
    split at hk
    · cases hk
      exact hframe
    · exact h.apart key pte' hk
  | otherUnmap s v =>
    simp only [cowStep, Option.some.injEq] at hs
    subst hs
    refine ⟨h.small, h.counted, h.owned, h.readOnly, ?_⟩
    intro key pte' hk
    simp only [MmState.withMem, lookup_erase] at hk
    split at hk
    · cases hk
    · exact h.apart key pte' hk

end Calls

theorem boot_iso : Iso boot where
  small f c hc := absurd hc (by simp [boot])
  counted f c hc := absurd hc (by simp [boot])
  owned f _ := rfl
  readOnly key pte c hk := absurd hk (by simp [boot])
  apart key pte hk := absurd hk (by simp [boot])

/-- **COPY-ON-WRITE ISOLATION in every run whose `mprotect` calls spare shared
pages**: whatever fails on the way, no frame with a count above 1 is mapped
with WRITE in any page table. -/
theorem cow_isolation (env : Env) (st : CowState)
    (hst : Reach (cowStep env) ProtectSpares boot st) : SharedReadOnly st :=
  Isolated.sharedReadOnly
    (hst.invariant Iso boot_iso (fun _ _ _ => cowStep_iso))

/-- An environment without faults that hands out frames 0, 1, 2, … -/
def noFaults : Env where
  alloc k := some k
  readOk _ := true
  mapOk _ := true
  otherOk _ := true

/-- One page, written, then shared with a child. -/
def forked : List CowOp :=
  [.mm (.newSpace 0 65536), .mm (.map 0 0 4096 .rw false (.newAlloc 0 .size4K)),
    .mm (.fault 0 0 .rw), .mm (.fork 0)]

/-- The child gives up WRITE. -/
theorem forked_page_is_read_only : ∃ st, Reach (cowStep noFaults) ProtectSpares boot st
      ∧ st.mem.frames.lookup 0 = some 2 ∧ SharedReadOnly st := by
  have hguard : ∀ (st : CowState) (op : CowOp), (match op with
      | .mm (.protect _ _ _ newFlags) => !newFlags.write
      | _ => true) = true → ProtectSpares st op := by
    intro st op hg
    unfold ProtectSpares
    split
    · intro hw
      simp [hw] at hg
    · trivial
  obtain ⟨st, hst, hc⟩ := exists_reach_guarded (cowStep noFaults) boot _
    (forked ++ [.mm (.protect 1 0 4096 .ro)])
    (fun st => st.mem.frames.lookup 0 = some 2) (by decide) hguard
  exact ⟨st, hst, hc, cow_isolation noFaults st hst⟩

/-- **`mprotect` reopens a shared page.**  After the fork both entries are
read-only; granting WRITE to the parent's area makes its entry writable while
the child still maps the frame. -/
theorem mprotect_reopens_shared_page :
    ∃ st, Reach (cowStep noFaults) Always boot st ∧ ¬ SharedReadOnly st := by
  obtain ⟨st, hst, hc⟩ := exists_reach (cowStep noFaults) boot
    (forked ++ [.mm (.protect 0 0 4096 .rw)])
    (fun st => st.mem.frames.lookup 0 = some 2
      ∧ st.mem.ptes.lookup (0, 0) = some ⟨0, .rw, .size4K⟩) (by decide)
  refine ⟨st, hst, ?_⟩
  intro hro
  exact absurd (hro 0 2 hc.1 (by decide) (0, 0) _ (.inl hc.2) rfl) (by decide)

end StarryOS.Mm.Cow
