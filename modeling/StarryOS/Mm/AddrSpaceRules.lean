/-
  StarryOS.Mm.AddrSpaceRules — FROM THE BACKENDS TO THE ADDRESS SPACE.

  `AddrSpace` only walks areas and calls backends, so an invariant of the whole
  system follows from what the backend calls do to it.  Each rule below takes
  an invariant `I` and what ONE backend call keeps, in the situation in which
  `AddrSpace` makes that call, and concludes what the function keeps, at both
  of its exits:

    • a fault and `populate_area` call `populate` inside an area of the space,
    • `unmap` and `protect` call the backend on the part of an area inside the
      range and then carve that part out of the area set,
    • `drop` unmaps every area before the page table goes.
-/
import StarryOS.Mm.AddrSpace

namespace StarryOS.Mm

open Lib

variable {σ B : Type} {ops : BackendOps σ B} {I : MmState σ B → Prop}

/-! ## §1. Small programs. -/

/-- An error exit: the kernel has halted, or the state is in `P`. -/
def orHalt (P : MmState σ B → Prop) : Stop → MmState σ B → Prop := fun e st => e = .halt ∨ P st

/-- Both exits of a program lead into `P`; a halted kernel is not looked at. -/
def settles {α : Type} (m : MmM σ B α) (st : MmState σ B) (P : MmState σ B → Prop) : Prop :=
  wp m st (fun _ st' => P st') (orHalt P)

variable {st : MmState σ B} {P : MmState σ B → Prop} {s start size : Nat}

theorem settles_bind {α β : Type} {m : MmM σ B α} {f : α → MmM σ B β} {Q : α → MmState σ B → Prop}
    (hm : wp m st Q (orHalt P)) (hf : ∀ a st', Q a st' → settles (f a) st' P) :
    settles (m >>= f) st P := by
  exact wp_seq hm hf

theorem wp_getSpace :
    wp (getSpace s) st (fun sp st' => st' = st ∧ st.spaces[s]? = some sp) (orHalt P) := by
  unfold getSpace
  rw [wp_bind, wp_get]
  cases hs : st.spaces[s]? with
  | some sp => exact ⟨rfl, rfl⟩
  | none => exact .inl rfl

theorem wp_validateRegion {sp : AddrSpace B} (h : P st) : wp (validateRegion sp start size) st
      (fun _ st' => st' = st ∧ start % 4096 = 0 ∧ size % 4096 = 0) (orHalt P) := by
  refine wp_exit (.inr h) fun _ => ?_
  refine wp_exit (.inr h) fun hal => ?_
  exact ⟨rfl, by omega, by omega⟩

theorem wp_pagesOf {lo hi : Nat} {size : PageSize} (h : P st) :
    wp (pagesOf lo hi size) st (fun vs st' => st' = st ∧ pagesIn lo hi size = some vs)
      (orHalt P) := by
  unfold pagesOf
  cases hp : pagesIn lo hi size with
  | none => exact .inr h
  | some vs => exact ⟨rfl, rfl⟩

/-- A refused area operation leaves what the backend left. -/
theorem wp_orBadState {α : Type} {m : MmM σ B α} {Q : α → MmState σ B → Prop}
    (h : wp m st Q (orHalt P)) : wp (orBadState m) st Q (orHalt P) := by
  unfold orBadState
  rw [wp_tryCatch]
  refine wp_mono_err h ?_
  intro e st' hst'
  cases e with
  | err code =>
    rcases hst' with hhalt | hP
    · cases hhalt
    · exact .inr hP
  | halt => exact .inl rfl

theorem getElem?_withAreas (st : MmState σ B) (s u : Nat)
    (f : MemorySet B → MemorySet B) :
    (st.withAreas s f).spaces[u]?
      = if s = u then st.spaces[u]?.map (fun sp => { sp with areas := f sp.areas })
        else st.spaces[u]? := by
  unfold MmState.withAreas
  rw [List.getElem?_modify]
  split
  · rfl
  · simp

/-- The common start of the system calls: the space is fetched and the region
validated; nothing has changed when the rest begins. -/
theorem settles_validated {f : AddrSpace B → MmM σ B Unit} (h : I st)
    (hf : ∀ sp, st.spaces[s]? = some sp → start % 4096 = 0 → size % 4096 = 0 →
      settles (f sp) st I) : settles (do
      let sp ← getSpace s
      validateRegion sp start size
      f sp) st I := by
  refine settles_bind wp_getSpace ?_
  rintro sp st₁ ⟨rfl, hsp⟩
  refine settles_bind (wp_validateRegion h) ?_
  rintro _ st₂ ⟨rfl, hstart, hsize⟩
  exact hf sp hsp hstart hsize

/-! ## §2. Population and faults. -/

/-- **`populate_area`**, from `populate` inside one area after the other: `J lo`
holds when the walk has got as far as `lo`. -/
theorem populateArea_settles {access : MappingFlags} (J : Nat → MmState σ B → Prop)
    (hJ : ∀ lo st, J lo st → I st)
    (hpop : ∀ st sp a lo, J lo st → st.spaces[s]? = some sp → a ∈ sp.areas.areas → a.Has lo →
      wp (ops.populate a.backend s lo (min a.stop (start + size)) a.flags access) st
        (fun _ st' => J a.stop st') (orHalt I)) (h : J start st) :
    settles (populateArea ops s start size access) st I := by
  have hloop : ∀ (rounds lo : Nat) (st : MmState σ B), J lo st →
      settles (populateLoop ops s (start + size) access rounds lo) st I := by
    intro rounds
    induction rounds with
    | zero =>
      intro lo st h
      exact hJ lo st h
    | succ rounds ih =>
      intro lo st h
      refine settles_bind wp_getSpace ?_
      rintro sp st' ⟨rfl, hsp⟩
      cases hfind : sp.areas.find lo with
      | none => exact hJ lo _ h
      | some a =>
        obtain ⟨ha, hlo⟩ := AreaSet.find_eq_some_iff.mp hfind
        refine settles_bind (hpop _ sp a lo h hsp ha hlo) ?_
        intro r st₁ h₁
        refine wp_exit (hJ a.stop st₁ h₁) fun _ => ?_
        exact ih a.stop st₁ h₁
  refine settles_validated (hJ start st h) ?_
  intro sp _ _ _
  refine settles_bind (hloop _ _ _ h) ?_
  intro reached st₁ h₁
  refine wp_exit (.inr h₁) fun _ => ?_
  exact h₁

/-- What a fault needs of `populate`: its callback, if there is one, leads
into `P`. -/
def afterCallback (P : MmState σ B → Prop) (r : Nat × Option (MmM σ B Unit))
    (st : MmState σ B) : Prop :=
  match r.2 with
  | some cb => settles cb st P
  | none => P st

/-- Every error is turned into a refused fault. -/
theorem wp_refused {e : Stop} (h : orHalt I e st) : wp (match e with
      | .err _ => (return false : MmM σ B Bool)
      | .halt => throw .halt) st (fun _ => I) (orHalt I) := by
  cases e with
  | err code =>
    rcases h with hhalt | hI
    · cases hhalt
    · exact hI
  | halt => exact .inl rfl

/-- **`handle_page_fault`**, from `populate` on the page of the fault and the
callback that runs after it. -/
theorem handlePageFault_settles {v : Nat} {access : MappingFlags}
    (hpop : ∀ sp a, st.spaces[s]? = some sp → a ∈ sp.areas.areas → a.Has v →
      a.flags.contains access = true →
      wp (ops.populate a.backend s (alignDown v (ops.pageSize a.backend))
          (alignDown v (ops.pageSize a.backend) + (ops.pageSize a.backend).bytes)
          a.flags access) st (afterCallback I) (orHalt I)) (h : I st) :
    settles (handlePageFault ops s v access) st I := by
  refine settles_bind wp_getSpace ?_
  rintro sp st' ⟨rfl, hsp⟩
  apply wp_ite
  · intro _
    cases hfind : sp.areas.find v with
    | none => exact h
    | some a =>
      obtain ⟨ha, hv⟩ := AreaSet.find_eq_some_iff.mp hfind
      apply wp_ite
      · intro hflags
        unfold faultIn
        rw [wp_tryCatch, wp_bind]
        refine wp_mono (hpop sp a hsp ha hv hflags) ?_ (fun _ _ => wp_refused)
        intro r st₁ h₁
        obtain ⟨n, cb⟩ := r
        cases cb with
        | none => exact h₁
        | some cb =>
          rw [wp_bind]
          exact wp_mono_err h₁ (fun _ _ => wp_refused)
      · intro _
        exact h
  · intro _
    exact h

/-! ## §3. `map`. -/

/-- **Mapping an area**, from the backend's `map` and the insertion. -/
theorem mapArea_settles {a : MemoryArea B}
    (hmap : ∀ sp, st.spaces[s]? = some sp → sp.areas.overlaps a.start a.stop = false →
      wp (ops.map a.backend s a.start a.stop a.flags) st
        (fun _ st' => P (st'.withAreas s (fun as => as.insert a))) (orHalt I))
    (h : ∀ sp, st.spaces[s]? = some sp → sp.areas.overlaps a.start a.stop = true → I st) :
    wp (mapArea ops s a) st (fun _ st' => P st') (orHalt I) := by
  refine wp_seq wp_getSpace ?_
  rintro sp st' ⟨rfl, hsp⟩
  apply wp_ite
  · intro hov
    exact .inr (h sp hsp hov)
  · intro hov
    refine wp_seq (wp_orBadState (hmap sp hsp (by simpa using hov))) ?_
    intro _ st₁ h₁
    exact h₁

/-- **`AddrSpace::map`**, from mapping the area and populating it; `P` holds in
between. -/
theorem map_settles {flags : MappingFlags} {populate : Bool} {backend : B} (P : MmState σ B → Prop)
    (h : I st) (hmap : start % 4096 = 0 → size % 4096 = 0 → ∀ hlt : start < start + size,
      wp (mapArea ops s ⟨start, start + size, hlt, flags, backend⟩) st (fun _ st' => P st')
        (orHalt I))
    (hpop : ∀ st, P st → if populate then settles (populateArea ops s start size flags) st I
      else I st) : settles (map ops s start size flags populate backend) st I := by
  refine settles_validated h ?_
  intro sp _ hstart hsize
  split
  next hlt =>
    refine settles_bind (hmap hstart hsize hlt) ?_
    intro _ st₁ h₁
    have hrest := hpop st₁ h₁
    cases populate with
    | true => exact hrest
    | false => exact hrest
  · exact .inr h

/-! ## §4. `unmap` and `protect`. -/

variable {g : MappingFlags → Option MappingFlags}

theorem mem_carve_of_behind {as : MemorySet B} {a cut b : MemoryArea B}
    {lo hi : Nat} (hcut : a.within lo hi = some cut)
    (hb : b ∈ as.areas) (hab : a.stop ≤ b.start) : b ∈ (as.carve cut.start cut.stop g).areas := by
  obtain ⟨hcs, hce, -, -⟩ := Area.within_eq_some hcut
  exact AreaSet.mem_carve_of_disjoint cut.nonempty hb (.inr (by omega))

/-- **`AddrSpace::unmap` and `protect`**, from the backend's call on one part,
after which the part is carved. -/
theorem carve_settles {call : MemoryArea B → MmM σ B Unit}
    (hcall : ∀ st sp a cut, I st → st.spaces[s]? = some sp → a ∈ sp.areas.areas →
      a.within start (start + size) = some cut → start % 4096 = 0 → size % 4096 = 0 →
      wp (call cut) st
        (fun _ st' => st'.spaces = st.spaces
          ∧ I (st'.withAreas s (fun as => as.carve cut.start cut.stop g)))
        (orHalt I)) (h : I st) : settles (do
      let sp ← getSpace s
      validateRegion sp start size
      carveLoop s start (start + size) call g sp.areas.areas) st I := by
  refine settles_validated h ?_
  intro sp hsp hstart hsize
  -- the walk over the areas of `s`
  suffices hloop : ∀ (rest : List (MemoryArea B)) (st : MmState σ B) (sp : AddrSpace B),
      I st → st.spaces[s]? = some sp → rest.Pairwise (fun a b => a.stop ≤ b.start) →
      (∀ a ∈ rest, a ∈ sp.areas.areas) →
      settles (carveLoop s start (start + size) call g rest) st I by
    exact hloop sp.areas.areas st sp h hsp sp.areas.sorted (fun a ha => ha)
  intro rest
  induction rest with
  | nil =>
    intro st sp h _ _ _
    exact h
  | cons a rest ih =>
    intro st sp h hsp hsorted hmem
    rw [List.pairwise_cons] at hsorted
    unfold carveLoop
    cases hcut : a.within start (start + size) with
    | none => exact ih st sp h hsp hsorted.2 (fun b hb => hmem b (.tail _ hb))
    | some cut =>
      have hone := hcall st sp a cut h hsp (hmem a (.head _)) hcut hstart hsize
      refine settles_bind (wp_orBadState hone) ?_
      rintro _ st₁ ⟨hspaces, h₁⟩
      refine settles_bind (Q := fun _ st' => st' = _) (by rw [wp_modify]) ?_
      intro _ st₂ h₂
      subst h₂
      -- the areas that are left lie behind the one just carved
      refine ih _ { sp with areas := sp.areas.carve cut.start cut.stop g } h₁ ?_ hsorted.2 ?_
      · rw [getElem?_withAreas, if_pos rfl, hspaces, hsp]
        rfl
      · intro b hb
        exact mem_carve_of_behind hcut (hmem b (.tail _ hb)) (hsorted.1 b hb)

/-! ## §5. Teardown and fork. -/

/-- **`AddrSpace::drop`**: `J rest` holds while the areas `rest` are still to be
unmapped.  A backend that fails here panics the kernel. -/
theorem dropSpace_settles (J : List (MemoryArea B) → MmState σ B → Prop)
    (hstart : ∀ sp, st.spaces[s]? = some sp → J sp.areas.areas st)
    (hunmap : ∀ st a rest, J (a :: rest) st →
      wp (ops.unmap a.backend s a.start a.stop) st (fun _ st' => J rest st') (fun _ _ => True))
    (hend : ∀ st, J [] st → settles (ops.dropPageTable s) (st.withAreas s (fun _ => .empty)) I) :
    settles (dropSpace ops s) st I := by
  have hloop : ∀ (rest : List (MemoryArea B)) (st : MmState σ B), J rest st →
      wp (clearLoop ops s rest) st (fun _ => J []) (orHalt I) := by
    intro rest
    induction rest with
    | nil =>
      intro st h
      exact h
    | cons a rest ih =>
      intro st h
      unfold clearLoop
      rw [wp_bind, wp_tryCatch]
      exact wp_mono (hunmap st a rest h) (fun _ => ih) (fun _ _ _ => .inl rfl)
  refine settles_bind (Q := fun _ st' => settles (ops.dropPageTable s) st' I) ?_ (fun _ _ => id)
  refine wp_seq wp_getSpace ?_
  rintro sp st' ⟨rfl, hsp⟩
  refine wp_seq (hloop _ _ (hstart sp hsp)) ?_
  intro _ st₁ hJ
  exact hend st₁ hJ

/-- **`try_clone`**: `J rest` holds while the areas `rest` are still to be
cloned into the child; a failure drops the child. -/
theorem tryClone_settles (J : List (MemoryArea B) → MmState σ B → Prop)
    (hstart : ∀ sp, st.spaces[s]? = some sp → J sp.areas.areas { st with
      spaces := st.spaces ++ [{ vaStart := sp.vaStart, vaStop := sp.vaStop, areas := .empty }] })
    (hclone : ∀ st' a rest, J (a :: rest) st' → wp (do
          let backend ← ops.cloneMap a.backend s st.spaces.length a.start a.stop a.flags
          mapArea ops st.spaces.length { a with backend := backend }) st'
        (fun _ st'' => J rest st'')
        (orHalt (fun st'' => settles (dropSpace ops st.spaces.length) st'' I)))
    (hend : ∀ st', J [] st' → I st') : settles (tryClone ops s) st I := by
  have hloop : ∀ (rest : List (MemoryArea B)) (st' : MmState σ B), J rest st' →
      wp (cloneLoop ops s st.spaces.length rest) st' (fun _ => I)
        (orHalt (fun st'' => settles (dropSpace ops st.spaces.length) st'' I)) := by
    intro rest
    induction rest with
    | nil =>
      intro st' h'
      exact hend st' h'
    | cons a rest ih =>
      intro st' h'
      have hpart := hclone st' a rest h'
      rw [wp_bind] at hpart
      grind [cloneLoop, wp_seq]
  refine settles_bind wp_getSpace ?_
  rintro sp st' ⟨rfl, hsp⟩
  unfold settles
  simp only [wp_bind, wp_get, wp_modify, wp_tryCatch]
  refine wp_mono_err (hloop _ _ (hstart sp hsp)) ?_
  intro e st₁ h₁
  cases e with
  | err code =>
    rcases h₁ with hhalt | hdrop
    · cases hhalt
    · exact wp_seq hdrop (fun _ _ => .inr)
  | halt => exact .inl rfl

/-- A step keeps what both exits of its program keep. -/
theorem runStep_of_settles {m : MmM σ B Unit} {st' : MmState σ B} (h : settles m st I)
    (hs : runStep m st = some st') : I st' := by
  unfold settles wp at h
  unfold runStep at hs
  revert h hs
  cases m st with
  | ok a st₁ =>
    intro h hs
    cases hs
    exact h
  | error e st₁ =>
    cases e with
    | err code =>
      intro h hs
      injection hs with hs
      rcases h with hhalt | hI
      · cases hhalt
      · exact hs ▸ hI
    | halt =>
      intro _ hs
      cases hs

end StarryOS.Mm
