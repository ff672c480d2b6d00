/-
  StarryOS.Mm.FrameTrace — WHAT COPY-ON-WRITE DOES TO FRAMES AND PAGE TABLES, said
  once.

  Every call on a copy-on-write area changes counts and entries by a sequence
  of `FrameStep`s, each of which is ONE PAGE's worth of work:

    • `fresh`    — a new frame, count 1, one entry
    • `upgrade`  — the only entry of a frame gets new flags
    • `copy`     — an entry moves from a shared frame to a new one
    • `share`    — a second address space maps the frame, both read-only
    • `drop`     — an entry goes and its frame loses one reference

  The remaining kinds are what is left behind when a call fails between two
  statements: a frame that nobody maps (`leak`), a count that was raised for
  nothing (`limit`, `shareFail`), entries that go without their count
  (`vanish`).  They only occur when `leaky` holds; without faults every call
  is a trace of the first five.

  `K` bounds the entries that a call may add.
-/
import StarryOS.Mm.AddrSpaceRules
import StarryOS.Mm.CowBackend
import Mathlib.Logic.Relation

namespace StarryOS.Mm.Cow

open Lib

/-! ## §1. The steps. -/

/-- One page's worth of change. -/
inductive FrameStep (leaky : Prop) (K : Nat × Nat → Prop) : CowMem → CowMem → Prop
  /-- Only answers were used up. -/
  | calls (m : CowMem) (allocs reads maps otherCalls : Nat) :
      FrameStep leaky K m { m with
        allocs := allocs, reads := reads, maps := maps, otherCalls := otherCalls }
  | fresh (m : CowMem) (key : Nat × Nat) (f : Nat) (flags : MappingFlags) (size : PageSize)
      (hf : m.unused f = true) (hnew : m.ptes.lookup key = none) (hK : K key) :
      FrameStep leaky K m { m with
        frames := m.frames.insert f 1
        ptes := m.ptes.insert key ⟨f, flags, size⟩ }
  | upgrade (m : CowMem) (key : Nat × Nat) (pte : Pte) (flags : MappingFlags)
      (hk : m.ptes.lookup key = some pte) (hone : m.frames.lookup pte.paddr = some 1) :
      FrameStep leaky K m { m with ptes := m.ptes.insert key { pte with flags := flags } }
  | copy (m : CowMem) (key : Nat × Nat) (pte : Pte) (f c : Nat) (flags : MappingFlags)
      (hk : m.ptes.lookup key = some pte) (hc : m.frames.lookup pte.paddr = some (c + 2))
      (hf : m.unused f = true) :
      FrameStep leaky K m { m with
        frames := (m.frames.insert f 1).insert pte.paddr (c + 1)
        ptes := m.ptes.insert key ⟨f, flags, pte.size⟩ }
  /-- The count is a `u8`: at 255 it wraps. -/
  | share (m : CowMem) (key key' : Nat × Nat) (pte : Pte) (c : Nat) (flags : MappingFlags)
      (hk : m.ptes.lookup key = some pte) (hnew : m.ptes.lookup key' = none)
      (hc : m.frames.lookup pte.paddr = some c) (hpos : 0 < c)
      (hlim : c + 1 < 255 ∨ leaky ∧ (c + 1) % 256 ≠ 255) (hw : flags.write = false) (hK : K key') :
      FrameStep leaky K m { m with
        frames := m.frames.insert pte.paddr ((c + 1) % 256)
        ptes := (m.ptes.insert key { pte with flags := flags }).insert key'
          ⟨pte.paddr, flags, pte.size⟩ }
  | drop (m : CowMem) (key : Nat × Nat) (pte : Pte) (c : Nat)
      (hk : m.ptes.lookup key = some pte) (hc : m.frames.lookup pte.paddr = some (c + 1)) :
      FrameStep leaky K m { m with
        ptes := m.ptes.erase key
        frames := if c = 0 then m.frames.erase pte.paddr else m.frames.insert pte.paddr c }
  /-- An entry of a frame that is not counted. -/
  | stray (m : CowMem) (key : Nat × Nat) (pte : Pte)
      (hk : m.ptes.lookup key = some pte) (hc : m.frames.lookup pte.paddr = none) :
      FrameStep leaky K m { m with ptes := m.ptes.erase key }
  | leak (m : CowMem) (f : Nat) (hl : leaky) (hf : m.unused f = true) :
      FrameStep leaky K m { m with frames := m.frames.insert f 1 }
  | limit (m : CowMem) (f c : Nat) (hl : leaky) (hc : m.frames.lookup f = some c)
      (hlim : (c + 1) % 256 = 255) :
      FrameStep leaky K m { m with frames := m.frames.insert f ((c + 1) % 256) }
  | shareFail (m : CowMem) (key : Nat × Nat) (pte : Pte) (c : Nat) (flags : MappingFlags)
      (hl : leaky) (hk : m.ptes.lookup key = some pte)
      (hc : m.frames.lookup pte.paddr = some c) (hpos : 0 < c) (hw : flags.write = false) :
      FrameStep leaky K m { m with
        frames := m.frames.insert pte.paddr ((c + 1) % 256)
        ptes := m.ptes.insert key { pte with flags := flags } }
  /-- A page table is freed. -/
  | vanish (m : CowMem) (p : Nat × Nat → Bool)
      (hl : leaky ∨ ∀ key pte, m.ptes.lookup key = some pte → p key = true) :
      FrameStep leaky K m { m with
        ptes := m.ptes.filterKeys p
        others := m.others.filterKeys p }

/-- Any number of steps. -/
def FrameTrace (leaky : Prop) (K : Nat × Nat → Prop) : CowMem → CowMem → Prop :=
  Relation.ReflTransGen (FrameStep leaky K)

variable {leaky : Prop} {K : Nat × Nat → Prop}

section Trace

variable {m₀ m m' : CowMem}

theorem FrameTrace.refl (m : CowMem) : FrameTrace leaky K m m := Relation.ReflTransGen.refl

theorem FrameTrace.next (h : FrameTrace leaky K m₀ m) (hs : FrameStep leaky K m m') :
    FrameTrace leaky K m₀ m' := Relation.ReflTransGen.tail h hs

theorem FrameTrace.preserves (P : CowMem → Prop)
    (hstep : ∀ m m', P m → FrameStep leaky K m m' → P m') (h : FrameTrace leaky K m m')
    (h₀ : P m) : P m' := by
  induction h with
  | refl => exact h₀
  | tail _ hs ih => exact hstep _ _ ih hs

/-- Entries are only added where `K` allows. -/
theorem FrameTrace.keys (h : FrameTrace leaky K m m') (key : Nat × Nat) (pte' : Pte)
    (hk : m'.ptes.lookup key = some pte') : K key ∨ ∃ pte, m.ptes.lookup key = some pte := by
  refine h.preserves (fun m' => ∀ pte', m'.ptes.lookup key = some pte' →
    K key ∨ ∃ pte, m.ptes.lookup key = some pte) ?_ (fun pte hp => .inr ⟨pte, hp⟩) pte' hk
  intro m₁ m₂ ih hs pte' hk'
  -- a present key was present before, or it is the new one
  have hinsert : ∀ (key₁ : Nat × Nat) (v w : Pte) (t : PageTables),
      t.lookup key₁ = some w → (∀ pte, t.lookup key = some pte → K key ∨
        ∃ pte, m.ptes.lookup key = some pte) → (t.insert key₁ v).lookup key = some pte' →
      K key ∨ ∃ pte, m.ptes.lookup key = some pte := by grind
  cases hs with
  | calls allocs reads maps otherCalls | leak f hl hf | limit f c hl hc hlim => exact ih pte' hk'
  | fresh key₁ f flags size hf hnew hK => grind
  | upgrade key₁ pte flags hk₁ hone | copy key₁ pte f c flags hk₁ hc hf
  | shareFail key₁ pte c flags hl hk₁ hc hpos hw => exact hinsert key₁ _ pte m₁.ptes hk₁ ih hk'
  | share key₁ key₂ pte c flags hk₁ hnew hc hpos hlim hw hK => grind
  | drop key₁ pte c hk₁ hc | stray key₁ pte hk₁ hc => grind
  | vanish p hl => grind

end Trace

/-! ## §2. Programs as traces. -/

/-- No read of a mapped file fails, and the page tables never run out of
memory.  The frame allocator may. -/
@[grind cases] structure Env.NoFault (env : Env) : Prop where
  readOk : ∀ k, env.readOk k = true
  mapOk : ∀ k, env.mapOk k = true

section Programs

variable {env : Env} {m₀ : CowMem} {st : CowState}

/-- Both exits continue the trace and leave the areas alone. -/
def Traced {α : Type} (leaky : Prop) (K : Nat × Nat → Prop) (m₀ : CowMem) (st : CowState)
    (prog : CowM α) : Prop :=
  settles prog st (fun st' => FrameTrace leaky K m₀ st'.mem ∧ st'.spaces = st.spaces)

theorem otherCall_trace (h : FrameTrace leaky K m₀ st.mem) :
    Traced leaky K m₀ st (otherCall env) := by
  have hnext : FrameTrace leaky K m₀
      { st.mem with otherCalls := st.mem.otherCalls + 1 } := h.next (.calls _ _ _ _ _)
  unfold Traced settles otherCall modifyMem
  refine wp_exit ⟨hnext, rfl⟩ fun _ => ?_
  exact .inr ⟨hnext, rfl⟩

/-- A new frame is unused and counted once; a failed allocation only uses up an
answer. -/
theorem allocNewFrame_spec (env : Env) (st : CowState) :
    wp (allocNewFrame env) st
      (fun f st' => st.mem.unused f = true ∧ st' = st.withMem (fun m => { m with
        allocs := m.allocs + 1, frames := m.frames.insert f 1 }))
      (fun _ st' => st' = st.withMem (fun m => { m with allocs := m.allocs + 1 })) := by
  unfold allocNewFrame allocFrame setCount modifyMem
  simp only [wp_bind, wp_get, wp_modify]
  cases env.alloc st.mem.allocs with
  | none => rfl
  | some f =>
    apply wp_ite
    · intro hf
      exact ⟨hf, rfl⟩
    · intro _
      rfl

/-- `pt.map` fails without a trace, or adds the entry. -/
theorem ptMap_spec (env : Env) (st : CowState) (s v paddr : Nat) (size : PageSize)
    (flags : MappingFlags) :
    wp (ptMap env s v paddr size flags) st
      (fun _ st' => st.mem.ptes.lookup (s, v) = none ∧ st' = st.withMem (fun m => { m with
        maps := m.maps + 1, ptes := m.ptes.insert (s, v) ⟨paddr, flags, size⟩ }))
      (fun _ st' => (env.mapOk st.mem.maps = false ∨ st.mem.ptes.lookup (s, v) ≠ none)
        ∧ st' = st.withMem (fun m => { m with maps := m.maps + 1 })) := by
  unfold ptMap modifyMem
  apply wp_ite
  · intro _
    cases hl : st.mem.ptes.lookup (s, v) with
    | some pte => exact ⟨.inr (by simp), rfl⟩
    | none => exact ⟨rfl, rfl⟩
  · intro hno
    exact ⟨.inl (by simpa using hno), rfl⟩

variable {b : CowBackend} {s v lo hi : Nat} {flags : MappingFlags}

/-- **A page that is not mapped** gets a fresh frame, or a fault leaks it. -/
theorem allocNewAt_trace (hq : leaky ∨ env.NoFault) (hnew : st.mem.ptes.lookup (s, v) = none)
    (hK : K (s, v)) (h : FrameTrace leaky K m₀ st.mem) :
    Traced leaky K m₀ st (allocNewAt env b s v flags) := by
  refine settles_bind (wp_mono_err (allocNewFrame_spec env st) ?_) ?_
  · intro _ st' hst'
    subst hst'
    exact .inr ⟨h.next (.calls _ _ _ _ _), rfl⟩
  rintro f st₁ ⟨hf, rfl⟩
  -- the counters do not matter to the steps
  have hleak : leaky → ∀ r p : Nat, FrameTrace leaky K m₀ { st.mem with
      allocs := st.mem.allocs + 1, frames := st.mem.frames.insert f 1
      reads := r, maps := p } := by
    intro hl r p
    exact (h.next (.leak st.mem f hl hf)).next (.calls _ _ _ _ _)
  have hmap : ∀ (st' : CowState) (r : Nat), st'.mem = { st.mem with
        allocs := st.mem.allocs + 1, frames := st.mem.frames.insert f 1, reads := r } →
      st'.spaces = st.spaces →
      settles (ptMap env s v f b.size flags) st' (fun st'' =>
        FrameTrace leaky K m₀ st''.mem ∧ st''.spaces = st.spaces) := by
    intro st' r hmem hspaces
    refine wp_mono (ptMap_spec env st' s v f b.size flags) ?_ ?_
    · rintro _ st'' ⟨-, rfl⟩
      refine ⟨?_, hspaces⟩
      show FrameTrace leaky K m₀ { st'.mem with maps := _, ptes := _ }
      rw [hmem]
      exact (h.next (.fresh st.mem (s, v) f flags b.size hf hnew hK)).next (.calls _ _ _ _ _)
    rintro _ st'' ⟨hwhy, rfl⟩
    refine .inr ⟨?_, hspaces⟩
    show FrameTrace leaky K m₀ { st'.mem with maps := _ }
    rw [hmem] at hwhy ⊢
    rcases hq with hl | hno
    · exact hleak hl _ _
    · rcases hwhy with hfail | hmapped
      · rw [hno.mapOk] at hfail
        cases hfail
      · exact absurd hnew hmapped
  cases b.file with
  | none => exact hmap _ st.mem.reads rfl rfl
  | some range =>
    apply wp_ite
    · intro _
      rw [wp_bind]
      refine wp_exit (hmap _ (st.mem.reads + 1) rfl rfl) fun hread => ?_
      rcases hq with hl | hno
      · exact .inr ⟨hleak hl _ _, rfl⟩
      · rw [hno.readOk] at hread
        exact absurd rfl hread
    · intro _
      exact .inl rfl

/-- **A write fault** upgrades the only entry, or copies the frame. -/
theorem handleCowFault_trace {pte : Pte} (hk : st.mem.ptes.lookup (s, v) = some pte)
    (h : FrameTrace leaky K m₀ st.mem) :
    Traced leaky K m₀ st (handleCowFault env s v pte.paddr flags) := by
  unfold Traced settles handleCowFault
  rw [wp_bind, wp_get]
  match hc : st.mem.frames.lookup pte.paddr with
  | none => exact .inr ⟨h, rfl⟩
  | some 0 => exact .inl rfl
  | some 1 =>
    unfold ptProtect modifyMem
    simp only [wp_bind, wp_get, hk]
    exact ⟨h.next (.upgrade st.mem (s, v) pte flags hk hc), rfl⟩
  | some (c + 2) =>
    simp only [wp_bind]
    refine wp_mono (allocNewFrame_spec env st) ?_ ?_
    · rintro f st₁ ⟨hf, rfl⟩
      unfold ptRemap dropFrame setCount modifyMem
      simp only [wp_bind, wp_get]
      have hk₁ : (st.withMem (fun m => { m with
          allocs := m.allocs + 1, frames := m.frames.insert f 1 })).mem.ptes.lookup (s, v)
          = some pte := hk
      rw [hk₁]
      exact ⟨(h.next (.copy st.mem (s, v) pte f c flags hk hc hf)).next (.calls _ _ _ _ _), rfl⟩
    · intro _ st' hst'
      subst hst'
      exact .inr ⟨h.next (.calls _ _ _ _ _), rfl⟩

theorem populatePages_trace (hq : leaky ∨ env.NoFault) {access : MappingFlags} :
    ∀ (vs : List Nat) (pages : Nat) (st : CowState),
      (∀ v ∈ vs, K (s, v)) → FrameTrace leaky K m₀ st.mem →
      Traced leaky K m₀ st (populatePages env b s flags access vs pages) := by
  intro vs
  induction vs with
  | nil =>
    intro pages st _ h
    exact ⟨h, rfl⟩
  | cons v vs ih =>
    intro pages st hK h
    have hpage : Traced leaky K m₀ st (populatePage env b s v flags access) := by
      unfold Traced settles populatePage
      rw [wp_bind, wp_get]
      cases hk : st.mem.ptes.lookup (s, v) with
      | none =>
        simp only [wp_bind, wp_pure]
        exact allocNewAt_trace hq hk (hK v (.head _)) h
      | some pte =>
        refine wp_exit (.inl rfl) fun _ => ?_
        apply wp_ite
        · intro _
          simp only [wp_bind, wp_pure]
          exact handleCowFault_trace hk h
        · intro _
          exact ⟨h, rfl⟩
    refine settles_bind hpage ?_
    rintro n st₁ ⟨h₁, hspaces⟩
    have hrest := ih (pages + n) st₁ (fun w hw => hK w (.tail _ hw)) h₁
    unfold Traced at hrest
    rw [hspaces] at hrest
    exact hrest

/-- A trace on which entries go and none comes, with the areas left alone. -/
structure Shrinks (leaky : Prop) (K : Nat × Nat → Prop) (m₀ : CowMem) (st st' : CowState) :
    Prop where
  trace : FrameTrace leaky K m₀ st'.mem
  spaces : st'.spaces = st.spaces
  keep : ∀ key pte, st'.mem.ptes.lookup key = some pte → st.mem.ptes.lookup key = some pte

theorem Shrinks.trans {st₁ st₂ : CowState} (h₁ : Shrinks leaky K m₀ st st₁)
    (h₂ : Shrinks leaky K m₀ st₁ st₂) : Shrinks leaky K m₀ st st₂ :=
  ⟨h₂.trace, h₂.spaces.trans h₁.spaces, fun key pte hp => h₁.keep key pte (h₂.keep key pte hp)⟩

/-- **Unmapping** drops every entry of its pages; afterwards none is left. -/
theorem unmapPages_trace : ∀ (vs : List Nat) (st : CowState), FrameTrace leaky K m₀ st.mem →
    wp (unmapPages b s vs) st
      (fun _ st' => Shrinks leaky K m₀ st st' ∧ ∀ v ∈ vs, st'.mem.ptes.lookup (s, v) = none)
      (orHalt (Shrinks leaky K m₀ st)) := by
  intro vs
  induction vs with
  | nil =>
    intro st h
    exact ⟨⟨h, rfl, fun _ _ => id⟩, fun v hv => absurd hv List.not_mem_nil⟩
  | cons v vs ih =>
    intro st h
    -- one page: its entry is gone, the others are as they were
    have herase : ∀ key pte, (st.mem.ptes.erase (s, v)).lookup key = some pte →
        st.mem.ptes.lookup key = some pte := by grind
    have hgone : (st.mem.ptes.erase (s, v)).lookup (s, v) = none := by
      rw [Table.lookup_erase, if_pos rfl]
    have hpage : wp (unmapPage b s v) st
        (fun _ st' => Shrinks leaky K m₀ st st' ∧ st'.mem.ptes.lookup (s, v) = none)
        (orHalt (Shrinks leaky K m₀ st)) := by
      unfold unmapPage
      rw [wp_bind, wp_get]
      cases hk : st.mem.ptes.lookup (s, v) with
      | none => exact ⟨⟨h, rfl, fun _ _ => id⟩, hk⟩
      | some pte =>
        refine wp_exit (.inl rfl) fun _ => ?_
        simp only [wp_bind, wp_get, MmState.withMem]
        rcases hc : st.mem.frames.lookup pte.paddr with _ | _ | c
        · exact .inr ⟨h.next (.stray st.mem (s, v) pte hk hc), rfl, herase⟩
        · exact .inl rfl
        have hdrop := h.next (.drop st.mem (s, v) pte c hk hc)
        show wp (dropFrame pte.paddr (c + 1)) _ _ _
        unfold dropFrame setCount modifyMem
        rw [if_neg (by omega), Nat.add_sub_cancel]
        apply wp_ite
        · intro hzero
          rw [if_pos hzero] at hdrop
          exact ⟨⟨hdrop, rfl, herase⟩, hgone⟩
        · intro hzero
          rw [if_neg hzero] at hdrop
          exact ⟨⟨hdrop, rfl, herase⟩, hgone⟩
    unfold unmapPages
    rw [wp_bind]
    refine wp_mono hpage ?_ ?_
    · rintro _ st₁ ⟨h₁, hgone₁⟩
      refine wp_mono (ih st₁ h₁.trace) ?_ ?_
      · rintro _ st₂ ⟨h₂, hgone₂⟩
        refine ⟨h₁.trans h₂, ?_⟩
        intro w hw
        rcases List.mem_cons.mp hw with rfl | hw
        · -- the rest of the walk adds no entry
          cases hl : st₂.mem.ptes.lookup (s, w) with
          | none => rfl
          | some pte =>
            rw [h₂.keep _ pte hl] at hgone₁
            cases hgone₁
        · exact hgone₂ w hw
      · intro e st₂ h₂
        exact h₂.imp_right h₁.trans
    · intro e st₁ h₁
      exact h₁

/-- **Sharing one page**, with whatever fails between the statements. -/
theorem cloneMapPage_trace {t : Nat} {cowFlags : MappingFlags} (hl : leaky) (hK : K (t, v))
    (hw : cowFlags.write = false) (h : FrameTrace leaky K m₀ st.mem) :
    Traced leaky K m₀ st (cloneMapPage env b s t v cowFlags) := by
  unfold Traced settles cloneMapPage
  rw [wp_bind, wp_get]
  cases hk : st.mem.ptes.lookup (s, v) with
  | none => exact ⟨h, rfl⟩
  | some pte =>
    refine wp_exit (.inl rfl) fun hsize => ?_
    have hsize : pte.size = b.size := by
      by_contra hne
      exact hsize hne
    simp only [wp_bind, wp_get]
    rcases hc : st.mem.frames.lookup pte.paddr with _ | _ | c
    · exact .inr ⟨h, rfl⟩
    · exact .inl rfl
    unfold setCount modifyMem
    simp only [wp_bind, wp_modify]
    have hk₁ : (st.withMem (fun m => { m with
        frames := m.frames.insert pte.paddr ((c + 1 + 1) % 256) })).mem.ptes.lookup (s, v)
        = some pte := hk
    apply wp_ite
    · -- the limit is reached: the count has already been raised
      intro hlim
      exact .inr ⟨h.next (.limit st.mem pte.paddr (c + 1) hl hc hlim), rfl⟩
    intro hlim
    unfold ptProtect modifyMem
    simp only [wp_bind, wp_get, hk₁, wp_modify]
    rw [← hsize]
    refine wp_mono (ptMap_spec env _ t v pte.paddr pte.size cowFlags) ?_ ?_
    · rintro _ st' ⟨hnew, rfl⟩
      have hnew' : st.mem.ptes.lookup (t, v) = none := by
        have hins : (st.mem.ptes.insert (s, v) { pte with flags := cowFlags }).lookup
            (t, v) = none := hnew
        grind
      have hshare := h.next (.share st.mem (s, v) (t, v) pte (c + 1) cowFlags hk hnew'
        hc (Nat.succ_pos c) (.inr ⟨hl, hlim⟩) hw hK)
      exact ⟨hshare.next (.calls _ _ _ _ _), rfl⟩
    · rintro _ st' ⟨-, rfl⟩
      have hfail := h.next (.shareFail st.mem (s, v) pte (c + 1) cowFlags hl hk hc
        (Nat.succ_pos c) hw)
      exact .inr ⟨hfail.next (.calls _ _ _ _ _), rfl⟩

/-- **Sharing one page when nothing fails**: the child does not map it yet, the
frame is counted, and the count stays below the limit. -/
theorem cloneMapPage_clean (hno : env.NoFault) {t : Nat} {cowFlags : MappingFlags}
    (hnew : st.mem.ptes.lookup (t, v) = none)
    (hcount : ∀ pte, st.mem.ptes.lookup (s, v) = some pte →
      ∃ c, st.mem.frames.lookup pte.paddr = some (c + 1) ∧ c + 2 < 255) :
    wp (cloneMapPage env b s t v cowFlags) st
      (fun _ st' => (st.mem.ptes.lookup (s, v) = none ∧ st' = st)
        ∨ ∃ pte c, st.mem.ptes.lookup (s, v) = some pte
          ∧ st.mem.frames.lookup pte.paddr = some (c + 1) ∧ c + 2 < 255
          ∧ st' = st.withMem (fun m => { m with
              maps := m.maps + 1
              frames := m.frames.insert pte.paddr ((c + 1 + 1) % 256)
              ptes := (m.ptes.insert (s, v) { pte with flags := cowFlags }).insert (t, v)
                ⟨pte.paddr, cowFlags, pte.size⟩ }))
      (orHalt (fun _ => False)) := by
  unfold cloneMapPage
  rw [wp_bind, wp_get]
  cases hk : st.mem.ptes.lookup (s, v) with
  | none => exact .inl ⟨rfl, rfl⟩
  | some pte =>
    obtain ⟨c, hc, hlim⟩ := hcount pte hk
    refine wp_exit (.inl rfl) fun hsize => ?_
    have hsize : pte.size = b.size := by
      by_contra hne
      exact hsize hne
    simp only [wp_bind, wp_get, hc]
    unfold setCount modifyMem
    simp only [wp_modify]
    have hk₁ : (st.withMem (fun m => { m with
        frames := m.frames.insert pte.paddr ((c + 1 + 1) % 256) })).mem.ptes.lookup (s, v)
        = some pte := hk
    rw [if_neg (by omega)]
    unfold ptProtect modifyMem
    simp only [wp_bind, wp_get, hk₁, wp_modify]
    rw [← hsize]
    refine wp_mono (ptMap_spec env _ t v pte.paddr pte.size cowFlags) ?_ ?_
    · rintro _ st' ⟨-, rfl⟩
      exact .inr ⟨pte, c, rfl, hc, hlim, rfl⟩
    rintro _ st' ⟨hwhy, -⟩
    exfalso
    rcases hwhy with hfail | hmapped
    · cases (hfail.symm.trans (hno.mapOk st.mem.maps))
    · apply hmapped
      show (st.mem.ptes.insert (s, v) { pte with flags := cowFlags }).lookup (t, v) = none
      grind

/-! ## §3. The backend calls. -/

/-- `populate` only adds pages of its range. -/
theorem populate_trace (hq : leaky ∨ env.NoFault) {b : Backend} {access : MappingFlags}
    (hK : ∀ v, lo ≤ v → v < hi → v % ((ops env).pageSize b).bytes = 0 → K (s, v))
    (h : FrameTrace leaky K m₀ st.mem) : wp ((ops env).populate b s lo hi flags access) st
      (fun r st' => r.2 = none ∧ FrameTrace leaky K m₀ st'.mem ∧ st'.spaces = st.spaces)
      (orHalt (fun st' => FrameTrace leaky K m₀ st'.mem ∧ st'.spaces = st.spaces)) := by
  cases b with
  | cow b =>
    show wp (do
      let vs ← pagesOf lo hi b.size
      let n ← populatePages env b s flags access vs 0
      return (n, none)) st _ _
    refine wp_seq (wp_pagesOf ⟨h, rfl⟩) ?_
    rintro vs st₁ ⟨rfl, hvs⟩
    rw [wp_bind]
    have hpages : ∀ v ∈ vs, K (s, v) := by
      intro v hv
      have hv := (mem_pagesIn hvs).mp hv
      exact hK v hv.1 hv.2.1 hv.2.2
    exact wp_mono_ok (populatePages_trace hq vs 0 st₁ hpages h) (fun _ _ hp => ⟨rfl, hp⟩)
  | other size =>
    show wp (do
      otherCall env
      return (0, none)) st _ _
    exact wp_seq (otherCall_trace h) (fun _ _ hp => ⟨rfl, hp⟩)

/-- `unmap` of a copy-on-write area leaves no entry of its pages, and changes
no other entry. -/
theorem unmap_trace (h : FrameTrace leaky K m₀ st.mem) : wp ((ops env).unmap (.cow b) s lo hi) st
      (fun _ st' => Shrinks leaky K m₀ st st' ∧ (lo % b.size.bytes = 0 ∧ hi % b.size.bytes = 0)
        ∧ ∀ v, lo ≤ v → v < hi → v % b.size.bytes = 0 → st'.mem.ptes.lookup (s, v) = none)
      (orHalt (Shrinks leaky K m₀ st)) := by
  show wp (do unmapPages b s (← pagesOf lo hi b.size)) st _ _
  refine wp_seq (wp_pagesOf ⟨h, rfl, fun _ _ => id⟩) ?_
  rintro vs st₁ ⟨rfl, hvs⟩
  refine wp_mono_ok (unmapPages_trace vs st₁ h) ?_
  grind [pagesIn_eq_some_iff, mem_pagesIn]

end Programs

end StarryOS.Mm.Cow
