/-
  StarryOS.Mm.CowCounts — THE COUNT OF A FRAME IS THE NUMBER OF ITS ENTRIES.

  `FRAME_TABLE` frees a frame when its count reaches 0, so the count has to be
  the number of copy-on-write entries that map the frame: too low and a mapped
  frame is freed, too high and it is never freed.

  `Counted` carries this through a run.  Next to the exact counts it says that
  every entry belongs to a copy-on-write area of its space (`Covered`).

  Two things break it.  A fault between two statements (`Env.NoFault` excludes
  them: a failed read of the mapped file, a failed allocation of the page table
  itself; a failed allocation of a FRAME does no harm), and a fork that reaches
  the limit 255, which raises the count and then gives up (`ForkFits`).
-/
import StarryOS.Mm.CowIsolation

namespace StarryOS.Mm.Cow

open Lib Table AreaSet

/-! ## §1. Exact counts. -/

/-- **Every frame is counted with the number of its entries**; a frame without
entries is not in the table. -/
def ExactCounts (m : CowMem) : Prop :=
  ∀ f, m.frames.lookup f = if m.mappings f = 0 then none else some (m.mappings f)

namespace ExactCounts

variable {m : CowMem}

variable {f : Nat}

variable (h : ExactCounts m)
include h

theorem lookup_of_pos (hpos : 0 < m.mappings f) : m.frames.lookup f = some (m.mappings f) := by
  rw [h f, if_neg (by omega)]

theorem mappings_of_some {c : Nat} (hc : m.frames.lookup f = some c) : m.mappings f = c := by
  rw [h f] at hc
  split at hc
  · cases hc
  · injection hc

theorem mappings_of_none (hc : m.frames.lookup f = none) : m.mappings f = 0 := by
  rw [h f] at hc
  split at hc
  next hz => exact hz
  · cases hc

/-- The entries of one frame change in number, and its count with them. -/
theorem recount {n : Nat} {t : PageTables} {fr : Table Nat Nat}
    (hf : t.count (mapsFrame f) = n) (hn : fr.lookup f = if n = 0 then none else some n)
    (hcount : ∀ g, g ≠ f → t.count (mapsFrame g) = m.mappings g)
    (hfr : ∀ g, g ≠ f → fr.lookup g = m.frames.lookup g) :
    ExactCounts { m with ptes := t, frames := fr } := by
  intro g
  show fr.lookup g = if t.count (mapsFrame g) = 0 then none else some (t.count (mapsFrame g))
  by_cases hg : g = f
  · rw [hg, hf]
    exact hn
  · rw [hcount g hg, hfr g hg]
    exact h g

theorem retable {t o : PageTables} (hcount : ∀ g, t.count (mapsFrame g) = m.mappings g) :
    ExactCounts { m with ptes := t, others := o } := by
  intro g
  show m.frames.lookup g = if t.count (mapsFrame g) = 0 then none else some (t.count (mapsFrame g))
  rw [hcount g]
  exact h g

end ExactCounts

variable {m : CowMem} {st : CowState} {s : Nat}

/-- **Every step without a leak keeps the counts exact.** -/
theorem frameStep_exact {K : Nat × Nat → Prop} {m' : CowMem} (h : ExactCounts m)
    (hs : FrameStep False K m m') : ExactCounts m' := by
  cases hs with
  | calls allocs reads maps otherCalls => exact h
  | fresh key f flags size hf hnew hK =>
    have hzero := h.mappings_of_none (unused_iff.mp hf).1
    refine h.recount (f := f) (n := 1) ?_ ?_ ?_ ?_
    · rw [mappings_insert_new f hnew, if_pos rfl]
      show m.mappings f + 1 = 1
      rw [hzero]
    · rw [lookup_insert, if_pos rfl]
      rfl
    · intro g hg
      rw [mappings_insert_new g hnew, if_neg (Ne.symm hg)]
      rfl
    · intro g hg
      rw [lookup_insert, if_neg hg]
  | upgrade key pte flags hk hone => exact h.retable (fun g => mappings_reflag flags g hk)
  | copy key pte f c flags hk hc hf =>
    have hnone := (unused_iff.mp hf).1
    have hzero := h.mappings_of_none hnone
    have hold := h.mappings_of_some hc
    have hne : pte.paddr ≠ f := by
      intro heq
      rw [heq, hnone] at hc
      cases hc
    have hmoved := fun g => mappings_insert_old g ⟨f, flags, pte.size⟩ hk
    -- the new frame first, then the one that lost an entry
    have hnew : ∀ g, g ≠ pte.paddr → (m.ptes.insert key ⟨f, flags, pte.size⟩).count (mapsFrame g)
          = m.mappings g + if f = g then 1 else 0 := by
      intro g hg
      have hcount := hmoved g
      rw [if_neg (Ne.symm hg)] at hcount
      exact hcount
    intro g
    show ((m.frames.insert f 1).insert pte.paddr (c + 1)).lookup g
      = if (m.ptes.insert key ⟨f, flags, pte.size⟩).count (mapsFrame g) = 0 then none
        else some ((m.ptes.insert key ⟨f, flags, pte.size⟩).count (mapsFrame g))
    rw [lookup_insert, lookup_insert]
    by_cases hg : g = pte.paddr
    · have hcount := hmoved pte.paddr
      rw [if_pos rfl, if_neg (Ne.symm hne)] at hcount
      have hleft : (m.ptes.insert key ⟨f, flags, pte.size⟩).count (mapsFrame pte.paddr)
          = c + 1 := by
        unfold CowMem.mappings at hold
        omega
      rw [if_pos hg, hg, hleft, if_neg (by omega)]
    · rw [if_neg hg, hnew g hg]
      split
      next hgf =>
        rw [hgf, if_pos rfl, hzero]
        rfl
      next hgf =>
        rw [if_neg (Ne.symm hgf)]
        exact h g
  | share key key' pte c flags hk hnew hc hpos hlim hw hK =>
    have hold := h.mappings_of_some hc
    have hlim : c + 1 < 255 := by grind
    refine h.recount (f := pte.paddr) (n := c + 1) ?_ ?_ ?_ ?_
    · rw [mappings_share flags _ hk hnew, if_pos rfl]
      show m.mappings pte.paddr + 1 = c + 1
      rw [hold]
    · rw [lookup_insert, if_pos rfl, if_neg (by omega), Nat.mod_eq_of_lt (by omega)]
    · intro g hg
      rw [mappings_share flags _ hk hnew, if_neg (Ne.symm hg)]
      rfl
    · intro g hg
      rw [lookup_insert, if_neg hg]
  | drop key pte c hk hc =>
    have hold := h.mappings_of_some hc
    refine h.recount (f := pte.paddr) (n := c) ?_ ?_ ?_ ?_
    · have hcount := mappings_erase pte.paddr hk
      rw [if_pos rfl] at hcount
      unfold CowMem.mappings at hold
      omega
    · grind
    · intro g hg
      have hcount := mappings_erase g hk
      rw [if_neg (Ne.symm hg)] at hcount
      exact hcount
    · grind
  | stray key pte hk hc =>
    -- an entry's frame is counted
    have hpos := mappings_pos hk
    rw [h.mappings_of_none hc] at hpos
    exact absurd hpos (Nat.lt_irrefl 0)
  | leak f hl hf | limit f c hl hc hlim | shareFail key pte c flags hl hk hc hpos hw =>
    exact absurd hl id
  | vanish p hl =>
    rcases hl with hl | hall
    · exact absurd hl id
    · rw [filterKeys_of_all hall]
      exact h.retable (fun _ => rfl)

/-! ## §2. Entries lie in copy-on-write areas. -/

/-- The area is copy-on-write and holds part of the page at `v`.  The pages of
an area lie inside it unless its ends are not page boundaries. -/
def Holds (a : MemoryArea Backend) (v : Nat) : Prop :=
  ∃ b w, a.backend = .cow b ∧ v % b.size.bytes = 0 ∧ a.Has w ∧ v ≤ w ∧ w < v + b.size.bytes

/-- Some area of the space holds part of the page. -/
def Covered (spaces : List (AddrSpace Backend)) (key : Nat × Nat) : Prop :=
  ∃ sp a, spaces[key.1]? = some sp ∧ a ∈ sp.areas.areas ∧ Holds a key.2

/-- What every call keeps. -/
@[grind cases] structure Counted (st : CowState) : Prop where
  exact : ExactCounts st.mem
  covered : ∀ key pte, st.mem.ptes.lookup key = some pte → Covered st.spaces key

/-- A page that meets a window of whole pages lies inside it. -/
theorem in_window_of_aligned {lo hi v w n : Nat} (hv : v % n = 0) (hlo : lo % n = 0)
    (hw : lo ≤ w ∧ w < hi) (hvw : v ≤ w) (hwv : w < v + n) : lo ≤ v ∧ v < hi :=
  ⟨le_of_aligned hv hlo (by omega), by omega⟩

variable {st' : CowState}

/-- A trace that only adds covered entries keeps everything. -/
theorem counted_of_trace (h : Counted st)
    (ht : FrameTrace False (Covered st.spaces) st.mem st'.mem) (hspaces : st'.spaces = st.spaces) :
    Counted st' := by
  refine ⟨ht.preserves ExactCounts (fun _ _ => frameStep_exact) h.exact, ?_⟩
  intro key pte hk
  rw [hspaces]
  rcases ht.keys key pte hk with hK | ⟨old, hold⟩
  · exact hK
  · exact h.covered key old hold

/-- The areas of one space change; its entries have to stay covered. -/
theorem counted_withAreas {f : MemorySet Backend → MemorySet Backend} (hexact : ExactCounts st.mem)
    (hother : ∀ key pte, st.mem.ptes.lookup key = some pte → key.1 ≠ s → Covered st.spaces key)
    (hcov : ∀ v pte, st.mem.ptes.lookup (s, v) = some pte →
      ∃ sp a, st.spaces[s]? = some sp ∧ a ∈ (f sp.areas).areas ∧ Holds a v) :
    Counted (st.withAreas s f) := by
  refine ⟨hexact, ?_⟩
  intro key pte hk
  obtain ⟨u, v⟩ := key
  by_cases hu : s = u
  · subst hu
    obtain ⟨sp, a, hsp, ha, hv⟩ := hcov v pte hk
    refine ⟨{ sp with areas := f sp.areas }, a, ?_, ha, hv⟩
    rw [getElem?_withAreas, if_pos rfl, hsp]
    rfl
  · obtain ⟨sp, a, hsp, ha, hv⟩ := hother (u, v) pte hk (fun heq => hu heq.symm)
    refine ⟨sp, a, ?_, ha, hv⟩
    rw [getElem?_withAreas, if_neg hu]
    exact hsp

/-- **Carving** keeps the entries covered, unless they lie in the window. -/
theorem counted_carve (h : Counted st) {lo hi : Nat} {g : MappingFlags → Option MappingFlags}
    (hlohi : lo < hi) (hin : ∀ sp a v w b pte, st.spaces[s]? = some sp → a ∈ sp.areas.areas →
      st.mem.ptes.lookup (s, v) = some pte → a.backend = .cow b → v % b.size.bytes = 0 →
      a.Has w → v ≤ w → w < v + b.size.bytes → lo ≤ w → w < hi → ∃ flags, g a.flags = some flags) :
    Counted (st.withAreas s (fun as => as.carve lo hi g)) := by
  refine counted_withAreas h.exact (fun key pte hk _ => h.covered key pte hk) ?_
  intro v pte hk
  obtain ⟨sp, a, hsp, ha, b, w, hb, hmod, hw, hvw, hwv⟩ := h.covered (s, v) pte hk
  by_cases hout : w < lo ∨ hi ≤ w
  · obtain ⟨p, hp, hpw, hpb, -⟩ := exists_mem_carve_outside (g := g) hlohi ha hw hout
    exact ⟨sp, p, hsp, hp, b, w, hpb.trans hb, hmod, hpw, hvw, hwv⟩
  · obtain ⟨flags, hg⟩ := hin sp a v w b pte hsp ha hk hb hmod hw hvw hwv (by omega) (by omega)
    obtain ⟨p, hp, hpw, hpb, -⟩ := exists_mem_carve_inside hlohi ha hw (by omega) (by omega) hg
    exact ⟨sp, p, hsp, hp, b, w, hpb.trans hb, hmod, hpw, hvw, hwv⟩

/-! ## §3. Every call keeps it, when nothing fails between the statements. -/

variable {env : Env}

section Calls

variable {st : CowState}

/-- The traces of a system without faults, from a state on. -/
theorem cleanTrace (st : CowState) : FrameTrace False (Covered st.spaces) st.mem st.mem :=
  .refl st.mem

variable {s start size : Nat} {access : MappingFlags}

section

variable (h : Counted st)
include h

theorem otherCall_counted : wp (otherCall env) st
      (fun _ st' => st'.spaces = st.spaces ∧ st'.mem.ptes = st.mem.ptes ∧ Counted st')
      (orHalt Counted) := by
  unfold otherCall modifyMem
  have hsame : Counted (st.withMem (fun m => { m with otherCalls := m.otherCalls + 1 })) :=
    ⟨h.exact, h.covered⟩
  refine wp_exit ⟨rfl, rfl, hsame⟩ fun _ => ?_
  exact .inr hsame

/-- Populating pages, of which those of a copy-on-write area are covered. -/
theorem populate_counted (hno : env.NoFault) {b : Backend} {lo hi : Nat} {flags : MappingFlags}
    (hK : ∀ c, b = .cow c → ∀ v, lo ≤ v → v < hi → v % c.size.bytes = 0 →
      Covered st.spaces (s, v)) :
    wp ((ops env).populate b s lo hi flags access) st (fun r st' => r.2 = none ∧ Counted st')
      (orHalt Counted) := by
  cases b with
  | cow c =>
    refine wp_mono (populate_trace (.inr hno) (hK c rfl) (cleanTrace st)) ?_ ?_
    · intro r st' h'
      exact ⟨h'.1, counted_of_trace h h'.2.1 h'.2.2⟩
    · intro e st' h'
      exact h'.imp_right (fun h' => counted_of_trace h h'.1 h'.2)
  | other size => exact wp_seq (otherCall_counted h) (fun _ _ hq => ⟨rfl, hq.2.2⟩)

/-- **Unmapping part of an area.**  A backend that succeeds was called on whole
pages and left none of them. -/
theorem unmap_counted {cut : MemoryArea Backend} :
    wp ((ops env).unmap cut.backend s cut.start cut.stop) st
      (fun _ st' => st'.spaces = st.spaces ∧ Counted st'
        ∧ (∀ key pte, st'.mem.ptes.lookup key = some pte → st.mem.ptes.lookup key = some pte)
        ∧ ∀ v pte b w, st'.mem.ptes.lookup (s, v) = some pte → cut.backend = .cow b →
            v % b.size.bytes = 0 → v ≤ w → w < v + b.size.bytes → ¬ cut.Has w)
      (orHalt Counted) := by
  have hsub : ∀ st' : CowState, FrameTrace False (Covered st.spaces) st.mem st'.mem →
      st'.spaces = st.spaces → Counted st' := fun _ => counted_of_trace h
  match hb : cut.backend with
  | .cow b =>
    refine wp_mono (unmap_trace (cleanTrace st)) ?_ ?_
    · rintro _ st' ⟨⟨ht, hspaces, hkeep⟩, ⟨hlo, -⟩, hgone⟩
      refine ⟨hspaces, hsub st' ht hspaces, hkeep, ?_⟩
      intro v pte b' w hk hb' hmod hvw hwv hw
      cases hb'
      obtain ⟨hvlo, hvhi⟩ := in_window_of_aligned hmod hlo hw hvw hwv
      rw [hgone v hvlo hvhi hmod] at hk
      cases hk
    · intro e st' h'
      exact h'.imp_right (fun h' => hsub st' h'.1 h'.2)
  | .other size =>
    show wp (otherCall env) st _ _
    grind [wp_mono_ok, otherCall_counted]

theorem map_counted {b : Backend} {lo hi : Nat} {flags : MappingFlags} :
    wp ((ops env).map b s lo hi flags) st (fun _ st' => st'.spaces = st.spaces
      ∧ st'.mem.ptes = st.mem.ptes ∧ Counted st')
      (orHalt (fun st' => Counted st' ∧ ∃ size, b = .other size)) := by
  cases b with
  | cow b => exact ⟨rfl, rfl, h⟩
  | other size =>
    exact wp_mono_err (otherCall_counted h)
      (fun _ _ he => he.imp_right (fun hc => ⟨hc, size, rfl⟩))

theorem counted_insert {a : MemoryArea Backend} {sp : AddrSpace Backend}
    (hsp : st.spaces[s]? = some sp) (hov : sp.areas.overlaps a.start a.stop = false) :
    Counted (st.withAreas s (fun as => as.insert a)) := by
  refine counted_withAreas h.exact (fun key pte hk _ => h.covered key pte hk) ?_
  intro v pte hk
  obtain ⟨sp', a', hsp', ha', hv⟩ := h.covered (s, v) pte hk
  rw [hsp] at hsp'
  cases hsp'
  exact ⟨sp, a', hsp, (mem_insert hov).mpr (.inr ha'), hv⟩

theorem mapArea_counted {a : MemoryArea Backend} : settles (mapArea (ops env) s a) st Counted := by
  refine mapArea_settles (P := Counted) ?_ (fun _ _ _ => h)
  intro sp hsp hov
  refine wp_mono (map_counted h) ?_ (fun _ _ he => he.imp_right And.left)
  rintro _ st' ⟨hspaces, -, h'⟩
  exact counted_insert h' (hspaces ▸ hsp) hov

end

theorem populateArea_counted (hno : env.NoFault) (h : Counted st) :
    settles (populateArea (ops env) s start size access) st Counted := by
  refine populateArea_settles (fun _ => Counted) (fun _ _ => id) ?_ h
  rintro st' sp a lo h' hsp ha ⟨hlo, -⟩
  refine wp_mono_ok (populate_counted h' hno ?_) (fun _ _ hq => hq.2)
  intro b hb v hvlo hvhi hmod
  have hpos := b.size.bytes_pos
  refine ⟨sp, a, hsp, ha, b, v, hb, hmod, ⟨?_, ?_⟩, Nat.le_refl v, ?_⟩ <;> omega

theorem fault_counted (hno : env.NoFault) {v : Nat} (h : Counted st) :
    settles (handlePageFault (ops env) s v access) st Counted := by
  refine handlePageFault_settles ?_ h
  intro sp a hsp ha hv _
  refine wp_mono_ok (populate_counted h hno ?_) ?_
  · intro b hb w hlo hhi hmod
    rw [hb] at hlo hhi
    -- the only page of the range is the page of the faulting address
    obtain ⟨hdlo, hdhi⟩ := alignDown_spec v b.size
    have hpage : w = alignDown v b.size :=
      Nat.le_antisymm (le_of_aligned (alignDown_mod v b.size) hmod hhi) hlo
    refine ⟨sp, a, hsp, ha, b, v, hb, hmod, hv, ?_, ?_⟩
    · rw [hpage]
      exact hdlo
    · rw [hpage]
      exact hdhi
  · intro r st₁ h₁
    unfold afterCallback
    rw [h₁.1]
    exact h₁.2

theorem unmapArea_counted (h : Counted st) : settles (unmap (ops env) s start size) st Counted := by
  refine carve_settles ?_ h
  intro st' sp a cut h' hsp ha hcut _ _
  obtain ⟨hcs, hce, -, hcb⟩ := Area.within_eq_some hcut
  refine wp_mono_ok (unmap_counted h') ?_
  rintro _ st₁ ⟨hspaces, h₁, -, hgone⟩
  refine ⟨hspaces, counted_carve h₁ cut.nonempty ?_⟩
  intro sp' a' v w b pte hsp' ha' hk hb hmod hw hvw hwv hlo hhi
  -- an address of the window lies in the area that was unmapped
  rw [hspaces, hsp] at hsp'
  cases hsp'
  have haw : a.Has w := ⟨by omega, by omega⟩
  rw [eq_of_has ha' ha hw haw, ← hcb] at hb
  exact absurd ⟨hlo, hhi⟩ (hgone v pte b w hk hb hmod hvw hwv)

/-- `protect_region` moves no entry. -/
theorem protect_counted {newFlags : MappingFlags} (h : Counted st) :
    settles (protect (ops env) s start size newFlags) st Counted := by
  refine carve_settles ?_ h
  intro st' sp a cut h' hsp ha hcut _ _
  have hon : wp ((ops env).onProtect cut.backend newFlags) st'
      (fun _ st₁ => st₁.spaces = st'.spaces ∧ Counted st₁) (orHalt Counted) := by
    cases cut.backend with
    | cow b => exact ⟨rfl, h'⟩
    | other psize => exact wp_mono_ok (otherCall_counted h') (fun _ _ hq => ⟨hq.1, hq.2.2⟩)
  unfold backendProtect
  refine wp_seq hon ?_
  rintro _ st₁ ⟨hspaces, h₁⟩
  have hreflag : Counted (st₁.withMem (fun m => { m with
      ptes := m.ptes.mapVals (protectPte s cut.start cut.stop newFlags)
      others := m.others.mapVals (protectPte s cut.start cut.stop newFlags) })) := by
    constructor
    · apply h₁.exact.retable
      intro g
      rw [count_mapVals]
      · rfl
      · intro key pte
        unfold mapsFrame
        rw [protectPte_paddr]
    · grind [MmState.withMem, Option.map_eq_some_iff]
  exact ⟨hspaces, counted_carve hreflag cut.nonempty (fun _ _ _ _ _ _ _ _ _ _ _ _ _ _ _ _ =>
    ⟨newFlags, rfl⟩)⟩

/-- **Teardown**: while the areas `rest` are still to be unmapped, they hold
every entry of the space. -/
theorem dropSpace_counted (h : Counted st) : settles (dropSpace (ops env) s) st Counted := by
  refine dropSpace_settles (fun rest st' => Counted st' ∧ ∀ v pte,
    st'.mem.ptes.lookup (s, v) = some pte → ∃ a ∈ rest, Holds a v) ?_ ?_ ?_
  · intro sp hsp
    refine ⟨h, ?_⟩
    intro v pte hk
    obtain ⟨sp', a, hsp', ha, hv⟩ := h.covered (s, v) pte hk
    rw [hsp] at hsp'
    cases hsp'
    exact ⟨a, ha, hv⟩
  · rintro st' a rest ⟨h', hrest⟩
    refine wp_mono (unmap_counted h') ?_ (fun _ _ _ => trivial)
    rintro _ st₁ ⟨-, h₁, hkeep, hgone⟩
    refine ⟨h₁, ?_⟩
    intro v pte hk
    obtain ⟨a', ha', hv⟩ := hrest v pte (hkeep (s, v) pte hk)
    rcases List.mem_cons.mp ha' with rfl | ha'
    · obtain ⟨b, w, hb, hmod, hw, hvw, hwv⟩ := hv
      exact absurd hw (hgone v pte b w hk hb hmod hvw hwv)
    · exact ⟨a', ha', hv⟩
  · rintro st' ⟨h', hnone⟩
    have hkeys : ∀ key pte, st'.mem.ptes.lookup key = some pte → key.1 ≠ s := by grind
    have hempty : Counted (st'.withAreas s (fun _ => .empty)) :=
      counted_withAreas h'.exact (fun key pte hk _ => h'.covered key pte hk)
        (fun v pte hk => absurd rfl (hkeys (s, v) pte hk))
    exact counted_of_trace hempty ((cleanTrace _).next
      (.vanish st'.mem (fun key => key.1 != s) (.inr (fun key pte hk => by
        simpa using hkeys key pte hk)))) rfl

end Calls

/-! ## §4. Fork. -/

/-- The entries of space `s` from address `cur` on that map frame `f`. -/
def entriesFrom (s cur f : Nat) (key : Nat × Nat) (pte : Pte) : Bool :=
  key.1 == s && decide (cur ≤ key.2) && pte.paddr == f

/-- An entry before `cur` is not among them. -/
theorem entriesFrom_past (s v f u : Nat) (pte : Pte) :
    (entriesFrom s (v + 1) f (u, v) pte).toNat = 0 := by
  have hpast : decide (v + 1 ≤ v) = false := decide_eq_false (by omega)
  unfold entriesFrom
  rw [hpast, Bool.and_false]
  rfl

/-- Every count has room for the parent's entries from `cur` on. -/
def Room (s cur : Nat) (m : CowMem) : Prop :=
  ∀ f, m.mappings f + m.ptes.count (entriesFrom s cur f) ≤ 254

theorem Room.mono {cur cur' : Nat} (h : Room s cur m) (hle : cur ≤ cur') : Room s cur' m := by
  intro f
  have hfewer : m.ptes.count (entriesFrom s cur' f) ≤ m.ptes.count (entriesFrom s cur f) := by
    apply count_le_of_imp
    grind [entriesFrom]
  have := h f
  omega

/-- The fork of `s` into `t` has got as far as address `cur`: behind it the
child has no entry yet. -/
@[grind cases] structure Cloning (s t cur : Nat) (m : CowMem) : Prop where
  exact : ExactCounts m
  free : ∀ v, cur ≤ v → m.ptes.lookup (t, v) = none
  room : Room s cur m

theorem Cloning.mono {t cur cur' : Nat} (h : Cloning s t cur m) (hle : cur ≤ cur') :
    Cloning s t cur' m :=
  ⟨h.exact, fun v hv => h.free v (Nat.le_trans hle hv), h.room.mono hle⟩

/-- The parent's entry at `cur` is behind the fork once it is shared. -/
theorem entriesFrom_succ {v : Nat} {pte : Pte} {t : PageTables} (f : Nat)
    (hk : t.lookup (s, v) = some pte) :
    t.count (entriesFrom s (v + 1) f) + (if pte.paddr = f then 1 else 0)
      ≤ t.count (entriesFrom s v f) := by
  have hskip := count_erase (entriesFrom s (v + 1) f) hk
  have hthis := count_erase (entriesFrom s v f) hk
  have hrest : (t.erase (s, v)).count (entriesFrom s (v + 1) f)
      ≤ (t.erase (s, v)).count (entriesFrom s v f) := by
    apply count_le_of_imp
    grind [entriesFrom]
  grind [entriesFrom]

section Fork

variable {s t : Nat} {st : CowState} {a : MemoryArea Backend}
    {rest : List (MemoryArea Backend)}

/-- **One page**: the count is raised, both spaces map the frame. -/
theorem cloneMapPage_cloning (hno : env.NoFault) {b : CowBackend} {v : Nat}
    {cowFlags : MappingFlags} (hst : s ≠ t) (hw : cowFlags.write = false)
    (h : Cloning s t v st.mem) : wp (cloneMapPage env b s t v cowFlags) st
      (fun _ st' => st'.spaces = st.spaces ∧ Cloning s t (v + 1) st'.mem
        ∧ ∀ key pte, st'.mem.ptes.lookup key = some pte →
            (∃ old, st.mem.ptes.lookup key = some old) ∨ key = (t, v))
      (orHalt (fun _ => False)) := by
  have hroom : ∀ pte, st.mem.ptes.lookup (s, v) = some pte →
      ∃ c, st.mem.frames.lookup pte.paddr = some (c + 1) ∧ c + 2 < 255 := by
    intro pte hk
    have hpos := mappings_pos hk
    have hself := entriesFrom_succ pte.paddr hk
    rw [if_pos rfl] at hself
    have hbudget := h.room pte.paddr
    refine ⟨st.mem.mappings pte.paddr - 1, ?_, by omega⟩
    rw [Nat.sub_add_cancel hpos]
    exact h.exact.lookup_of_pos hpos
  refine wp_mono_ok (cloneMapPage_clean hno (h.free v (Nat.le_refl v)) hroom) ?_
  intro _ st' h'
  rcases h' with ⟨hnone, rfl⟩ | ⟨pte, c, hk, hc, hlim, rfl⟩
  · exact ⟨rfl, h.mono (Nat.le_succ v), fun key pte hk => .inl ⟨pte, hk⟩⟩
  have hnew := h.free v (Nat.le_refl v)
  have hnew₁ : (st.mem.ptes.insert (s, v) { pte with flags := cowFlags }).lookup (t, v) = none := by
    rw [lookup_insert, if_neg (by simp [Ne.symm hst])]
    exact hnew
  refine ⟨rfl, ⟨?_, ?_, ?_⟩, ?_⟩
  · have hshare := frameStep_exact (K := fun _ => True) h.exact (.share st.mem (s, v) (t, v) pte
      (c + 1) cowFlags hk hnew hc (Nat.succ_pos c) (.inl hlim) hw trivial)
    exact hshare
  · intro w hwv
    show ((st.mem.ptes.insert (s, v) _).insert (t, v) _).lookup (t, w) = none
    grind
  · intro f
    show ((st.mem.ptes.insert (s, v) { pte with flags := cowFlags }).insert (t, v)
        ⟨pte.paddr, cowFlags, pte.size⟩).count (mapsFrame f)
      + ((st.mem.ptes.insert (s, v) { pte with flags := cowFlags }).insert (t, v)
        ⟨pte.paddr, cowFlags, pte.size⟩).count (entriesFrom s (v + 1) f) ≤ 254
    have hchild := count_insert_new (entriesFrom s (v + 1) f) ⟨pte.paddr, cowFlags, pte.size⟩ hnew₁
    have hparent := count_insert_old (entriesFrom s (v + 1) f) { pte with flags := cowFlags } hk
    have hpast := entriesFrom_succ f hk
    have hbudget := h.room f
    rw [mappings_share cowFlags f hk hnew]
    rw [entriesFrom_past] at hchild
    rw [entriesFrom_past, entriesFrom_past] at hparent
    unfold CowMem.mappings at hbudget
    omega
  · intro key pte' hk'
    simp only [MmState.withMem, lookup_insert] at hk'
    grind

theorem cloneMapPages_cloning (hno : env.NoFault) {b : CowBackend} {stop : Nat}
    {cowFlags : MappingFlags} (hst : s ≠ t) (hw : cowFlags.write = false) :
    ∀ (vs : List Nat) (cur : Nat) (st : CowState), vs.Pairwise (fun v w => v < w) →
      (∀ v ∈ vs, cur ≤ v ∧ v < stop) → cur ≤ stop → Cloning s t cur st.mem →
      wp (cloneMapPages env b s t cowFlags vs) st
        (fun _ st' => st'.spaces = st.spaces ∧ Cloning s t stop st'.mem
          ∧ ∀ key pte, st'.mem.ptes.lookup key = some pte →
              (∃ old, st.mem.ptes.lookup key = some old) ∨ ∃ v ∈ vs, key = (t, v))
        (orHalt (fun _ => False)) := by
  intro vs
  induction vs with
  | nil =>
    intro cur st _ _ hle h
    exact ⟨rfl, h.mono hle, fun key pte hk => .inl ⟨pte, hk⟩⟩
  | cons v vs ih =>
    intro cur st hsorted hin _ h
    rw [List.pairwise_cons] at hsorted
    have hv := hin v (.head _)
    unfold cloneMapPages
    refine wp_seq (cloneMapPage_cloning hno hst hw (h.mono hv.1)) ?_
    rintro _ st₁ ⟨hspaces, h₁, hkeys⟩
    have hrest : ∀ w ∈ vs, v + 1 ≤ w ∧ w < stop := by grind
    refine wp_mono_ok (ih (v + 1) st₁ hsorted.2 hrest hv.2 h₁) ?_
    grind

/-- What the fork of `s` into `t` keeps while the areas `rest` are to come. -/
structure Forking (s t : Nat) (rest : List (MemoryArea Backend)) (st : CowState) :
    Prop where
  counted : Counted st
  /-- The child's areas lie before those to come. -/
  before : ∀ sp, st.spaces[t]? = some sp → ∀ c ∈ sp.areas.areas, ∀ a ∈ rest, c.stop ≤ a.start
  sorted : rest.Pairwise (fun a b => a.stop ≤ b.start)
  room : ∃ cur, (∀ a ∈ rest, cur ≤ a.start) ∧ Room s cur st.mem
  child : ∃ sp, st.spaces[t]? = some sp

section

variable (h : Forking s t (a :: rest) st)
include h

theorem Forking.cloning : Cloning s t a.start st.mem := by
  obtain ⟨cur, hcur, hroom⟩ := h.room
  refine ⟨h.counted.exact, ?_, hroom.mono (hcur a (.head _))⟩
  intro v hv
  cases hk : st.mem.ptes.lookup (t, v) with
  | none => rfl
  | some pte =>
    obtain ⟨sp, c, hsp, hc, b, w, -, -, hw, hvw, -⟩ := h.counted.covered (t, v) pte hk
    have := h.before sp hsp c hc a (.head _)
    unfold Area.Has at hw
    omega

theorem Forking.not_overlaps {sp : AddrSpace Backend} (hsp : st.spaces[t]? = some sp) :
    sp.areas.overlaps a.start a.stop = false := by
  unfold overlaps
  rw [List.any_eq_false]
  intro c hc
  have := h.before sp hsp c hc a (.head _)
  simp only [decide_eq_true_eq]
  omega

/-- The state after the area `a` was cloned and given to the child. -/
theorem Forking.next {a' : MemoryArea Backend}
    (hspan : a'.start = a.start ∧ a'.stop = a.stop) (hspaces : st'.spaces = st.spaces)
    (hexact : ExactCounts st'.mem) (hroom : Room s a.stop st'.mem)
    (hkeys : ∀ key pte, st'.mem.ptes.lookup key = some pte →
      (∃ old, st.mem.ptes.lookup key = some old) ∨ key.1 = t ∧ Holds a' key.2) :
    Forking s t rest (st'.withAreas t (fun as => as.insert a')) := by
  obtain ⟨spt, hspt⟩ := h.child
  have hov : spt.areas.overlaps a'.start a'.stop = false := by
    rw [hspan.1, hspan.2]
    exact h.not_overlaps hspt
  have hmem : ∀ c, c ∈ (spt.areas.insert a').areas ↔ c = a' ∨ c ∈ spt.areas.areas :=
    fun c => mem_insert hov
  have hsorted := List.pairwise_cons.mp h.sorted
  refine ⟨counted_withAreas hexact ?_ ?_, ?_, hsorted.2, ⟨a.stop, hsorted.1, hroom⟩, ?_⟩
  · intro key pte hk hne
    rcases hkeys key pte hk with ⟨old, hold⟩ | hnew
    · rw [hspaces]
      exact h.counted.covered key old hold
    · exact absurd hnew.1 hne
  · intro v pte hk
    rw [hspaces]
    rcases hkeys (t, v) pte hk with ⟨old, hold⟩ | hnew
    · obtain ⟨sp, c, hsp, hc, hv⟩ := h.counted.covered (t, v) old hold
      grind
    · exact ⟨spt, a', hspt, (hmem a').mpr (.inl rfl), hnew.2⟩
  · intro sp hsp c hc b hb
    rw [getElem?_withAreas, if_pos rfl, hspaces, hspt] at hsp
    cases hsp
    rcases (hmem c).mp hc with rfl | hc
    · rw [hspan.2]
      exact hsorted.1 b hb
    · exact h.before spt hspt c hc b (.tail _ hb)
  · rw [getElem?_withAreas, if_pos rfl, hspaces, hspt]
    exact ⟨_, rfl⟩

end

/-- **One area of the fork.**  On an error the child is dropped. -/
theorem cloneArea_forking (hno : env.NoFault) (hst : s ≠ t) (h : Forking s t (a :: rest) st) :
    wp (do
        let backend ← (ops env).cloneMap a.backend s t a.start a.stop a.flags
        mapArea (ops env) t { a with backend := backend }) st
      (fun _ => Forking s t rest) (orHalt Counted) := by
  match hb : a.backend with
  | .cow b =>
    show wp (do
      let backend ← (do
        let vs ← pagesOf a.start a.stop b.size
        cloneMapPages env b s t a.flags.withoutWrite vs
        return Backend.cow b)
      mapArea (ops env) t { a with backend := backend }) st _ _
    simp only [wp_bind, wp_pure]
    refine wp_mono_ok (wp_pagesOf h.counted) ?_
    rintro vs st₁ ⟨rfl, hvs⟩
    have hin : ∀ v ∈ vs, a.start ≤ v ∧ v < a.stop := by
      intro v hv
      have hv := (mem_pagesIn hvs).mp hv
      exact ⟨hv.1, hv.2.1⟩
    refine wp_mono (cloneMapPages_cloning hno hst rfl vs a.start st₁ (pagesIn_sorted hvs) hin
      (Nat.le_of_lt a.nonempty) h.cloning) ?_ (fun _ _ he => he.imp_right False.elim)
    rintro _ st₂ ⟨hspaces, h₂, hkeys⟩
    refine mapArea_settles (P := Forking s t rest) ?_ ?_
    · intro sp hsp hov
      show Forking s t rest
        (st₂.withAreas t (fun as => as.insert { a with backend := Backend.cow b }))
      refine h.next ⟨rfl, rfl⟩ hspaces h₂.exact h₂.room ?_
      intro key pte hk
      rcases hkeys key pte hk with hold | ⟨v, hv, rfl⟩
      · exact .inl hold
      · have hv := (mem_pagesIn hvs).mp hv
        have hpos := b.size.bytes_pos
        exact .inr ⟨rfl, b, v, rfl, hv.2.2, ⟨hv.1, hv.2.1⟩, Nat.le_refl v, by omega⟩
    · intro sp hsp hov
      rw [hspaces] at hsp
      rw [h.not_overlaps hsp] at hov
      cases hov
  | .other size =>
    show wp (mapArea (ops env) t { a with backend := Backend.other size }) st _ _
    refine mapArea_settles (P := Forking s t rest) ?_ (fun _ _ _ => h.counted)
    intro sp hsp hov
    show wp (otherCall env) st _ _
    unfold otherCall modifyMem
    apply wp_ite
    · intro _
      exact h.next ⟨rfl, rfl⟩ rfl h.counted.exact
        (h.cloning.room.mono (Nat.le_of_lt a.nonempty)) (fun key pte hk => .inl ⟨pte, hk⟩)
    · intro _
      exact .inr ⟨h.counted.exact, h.counted.covered⟩

/-- **`try_clone`** when every count has room for the parent's entries. -/
theorem tryClone_counted (hno : env.NoFault) (h : Counted st) (hroom : Room s 0 st.mem) :
    settles (tryClone (ops env) s) st Counted := by
  by_cases hs : s < st.spaces.length
  · refine tryClone_settles (Forking s st.spaces.length) ?_ ?_ ?_
    · intro sp hsp
      have hchild : (st.spaces ++ [⟨sp.vaStart, sp.vaStop, .empty⟩])[st.spaces.length]?
          = some ⟨sp.vaStart, sp.vaStop, .empty⟩ := List.getElem?_concat_length
      refine ⟨⟨h.exact, ?_⟩, ?_, sp.areas.sorted, ⟨0, fun _ _ => Nat.zero_le _, hroom⟩, _, hchild⟩
      · intro key pte hk
        obtain ⟨sp', a, hsp', ha, hv⟩ := h.covered key pte hk
        refine ⟨sp', a, ?_, ha, hv⟩
        grind
      · intro sp' hsp' c hc
        rw [hchild] at hsp'
        cases hsp'
        cases hc
    · intro st' a rest h'
      exact wp_mono_err (cloneArea_forking hno (Nat.ne_of_lt hs) h')
        (fun _ _ he => he.imp_right dropSpace_counted)
    · exact fun st' h' => h'.counted
  · -- there is no such space
    unfold tryClone getSpace
    simp only [settles, wp_bind, wp_get]
    rw [List.getElem?_eq_none (by omega)]
    exact .inl rfl

end Fork

/-! ## §5. Exact counts in every run, and a run that loses a frame. -/

/-- The condition on a step: a fork keeps every count below the limit. -/
def ForkFits (st : CowState) : CowOp → Prop
  | .mm (.fork s) => ∀ f, st.mem.mappings f
      + st.mem.ptes.count (fun key pte => key.1 == s && pte.paddr == f) ≤ 254
  | _ => True

/-- **One step keeps the counts exact.** -/
theorem cowStep_counted {env : Env} (hno : env.NoFault) {op : CowOp}
    (h : Counted st) (hok : ForkFits st op) (hs : cowStep env st op = some st') : Counted st' := by
  cases op with
  | mm op =>
    refine runStep_of_settles ?_ hs
    cases op with
    | newSpace base size =>
      refine ⟨h.exact, ?_⟩
      intro key pte hk
      obtain ⟨sp, a, hsp, ha, hv⟩ := h.covered key pte hk
      refine ⟨sp, a, ?_, ha, hv⟩
      grind
    | map s start size flags populate backend =>
      refine map_settles Counted h (fun _ _ _ => mapArea_counted h) ?_
      intro st₁ h₁
      split
      · exact populateArea_counted hno h₁
      · exact h₁
    | populateArea s start size access => exact populateArea_counted hno h
    | fault s v access => exact settles_bind (fault_counted hno h) (fun _ _ => id)
    | protect s start size newFlags => exact protect_counted h
    | unmap s start size => exact unmapArea_counted h
    | fork s =>
      refine tryClone_counted hno h ?_
      intro f
      have hall : entriesFrom s 0 f = fun key pte => key.1 == s && pte.paddr == f := by
        funext key pte
        simp [entriesFrom]
      rw [hall]
      exact hok f
    | exit s => exact dropSpace_counted h
  | otherMap s v pte =>
    obtain ⟨-, rfl⟩ := guard_eq_some hs
    exact ⟨h.exact, h.covered⟩
  | otherUnmap s v =>
    simp only [cowStep, Option.some.injEq] at hs
    subst hs
    exact ⟨h.exact, h.covered⟩

theorem boot_counted : Counted boot where
  exact f := rfl
  covered key pte hk := absurd hk (by simp [boot])

/-- **EXACT REFERENCE COUNTS in every run without a fault and whose forks keep
below the limit**: a frame is in `FRAME_TABLE` as long as some entry maps it,
with the number of its entries. -/
theorem cow_counts_exact (env : Env) (hno : env.NoFault) (st : CowState)
    (hst : Reach (cowStep env) ForkFits boot st) : ExactCounts st.mem :=
  (hst.invariant Counted boot_counted (fun _ _ _ => cowStep_counted hno)).exact

/-- A page is shared by a fork, copied by the child's write, and unmapped by
the parent: the parent's frame is free again. -/
theorem copied_page_frees_its_frame :
    ∃ st, Reach (cowStep noFaults) ForkFits boot st ∧ st.mem.frames.lookup 0 = none
      ∧ st.mem.frames.lookup 1 = some 1 ∧ ExactCounts st.mem := by
  have hguard : ∀ (st : CowState) (op : CowOp),
      decide (st.mem.ptes.entries.length ≤ 127) = true → ForkFits st op := by
    intro st op hlen
    unfold ForkFits
    split
    next s =>
      intro f
      have hall : ∀ P : Nat × Nat → Pte → Bool, st.mem.ptes.count P ≤ 127 := by
        intro P
        exact Nat.le_trans List.countP_le_length (by simpa using hlen)
      have h₁ := hall (mapsFrame f)
      have h₂ := hall (fun key pte => key.1 == s && pte.paddr == f)
      unfold CowMem.mappings
      omega
    · trivial
  obtain ⟨st, hst, hc⟩ := exists_reach_guarded (cowStep noFaults) boot _
    (forked ++ [.mm (.fault 1 0 .rw), .mm (.unmap 0 0 4096)])
    (fun st => st.mem.frames.lookup 0 = none ∧ st.mem.frames.lookup 1 = some 1) (by decide) hguard
  exact ⟨st, hst, hc.1, hc.2, cow_counts_exact noFaults ⟨fun _ => rfl, fun _ => rfl⟩ st hst⟩

/-- Reads of mapped files fail. -/
def failingReads : Env := { noFaults with readOk := fun _ => false }

/-- **A failed read leaks the frame.**  The first touch of a page of a private
file mapping allocates a frame and counts it, then the read fails and the page
is never mapped. -/
theorem failed_read_leaks_frame :
    ∃ st, Reach (cowStep failingReads) Always boot st ∧ ¬ ExactCounts st.mem := by
  obtain ⟨st, hst, hc⟩ := exists_reach (cowStep failingReads) boot
    [.mm (.newSpace 0 65536), .mm (.map 0 0 4096 .rw false (.newCow 0 .size4K 0 none)),
      .mm (.fault 0 0 .ro)]
    (fun st => st.mem.frames.lookup 0 = some 1 ∧ st.mem.mappings 0 = 0) (by decide)
  refine ⟨st, hst, ?_⟩
  intro hexact
  have hzero := hexact.mappings_of_some hc.1
  rw [hc.2] at hzero
  cases hzero

end StarryOS.Mm.Cow
