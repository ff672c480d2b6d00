/-
  StarryOS.Exec.SpaceRules — ADDRESS SPACES as the loader changes them.

  A mapping of the loader is a `Region`, and `addRegion` is what `map` does with
  one: a space with one more area, or nothing.  Each call does this, never
  panics, and fails only where `addRegion` does or when memory runs out.
-/
import StarryOS.Exec.Loader
import StarryOS.Mm.AddrSpaceRules

namespace StarryOS.Exec

open Lib Mm

/-! ## §1. Regions. -/

/-- What `AddrSpace::map` is asked for. -/
structure Region where
  start : Nat
  size : Nat
  flags : MappingFlags
  backend : Backend
  deriving Repr, DecidableEq

/-- The region is one that `map` accepts. -/
def Admits (sp : AddrSpace Backend) (r : Region) : Prop :=
  sp.containsRange r.start r.size = true ∧ r.start % 4096 = 0 ∧ r.size % 4096 = 0
    ∧ r.start < r.start + r.size ∧ sp.areas.overlaps r.start (r.start + r.size) = false

instance (sp : AddrSpace Backend) (r : Region) : Decidable (Admits sp r) := by
  unfold Admits
  infer_instance

/-- The space with one more region. -/
def addRegion (sp : AddrSpace Backend) (r : Region) : Option (AddrSpace Backend) :=
  if h : Admits sp r then
    some { sp with
      areas := sp.areas.insert ⟨r.start, r.start + r.size, h.2.2.2.1, r.flags, r.backend⟩ }
  else none

/-- Regions one after the other. -/
def addRegions : AddrSpace Backend → List Region → Option (AddrSpace Backend)
  | sp, [] => some sp
  | sp, r :: rest => (addRegion sp r).bind (fun sp' => addRegions sp' rest)

/-- Some call of a backend is refused. -/
def LoadEnv.OutOfMemory (env : LoadEnv) : Prop := ∃ k, env.mmOk k = false

/-! ## §2. The calls. -/

section Space

variable {env : LoadEnv} {st : MmState LoadMem Backend} {s : Nat} {sp : AddrSpace Backend}

theorem getSpace_spec (hsp : st.spaces[s]? = some sp) {E : Stop → MmState LoadMem Backend → Prop} :
    wp (getSpace s) st (fun sp' st' => sp' = sp ∧ st' = st) E := by
  unfold getSpace
  rw [wp_bind, wp_get, hsp]
  exact ⟨rfl, rfl⟩

theorem memCall_spec : wp (memCall env) st (fun _ st' => st'.spaces = st.spaces)
      (fun e _ => e ≠ .halt ∧ env.OutOfMemory) := by
  unfold memCall
  refine wp_exit rfl fun hno => ?_
  exact ⟨by simp, _, Bool.eq_false_iff.mpr hno⟩

/-- **`AddrSpace::map`** adds the region, or the space does not admit it, or
memory has run out. -/
theorem map_spec (hsp : st.spaces[s]? = some sp) (r : Region) :
    wp (map (ops env) s r.start r.size r.flags false r.backend) st
      (fun _ st' => ∃ sp', addRegion sp r = some sp' ∧ st'.spaces[s]? = some sp')
      (fun e _ => e ≠ .halt ∧ (addRegion sp r = none ∨ env.OutOfMemory)) := by
  have hrefused : ¬ Admits sp r → addRegion sp r = none := fun hno => dif_neg hno
  refine wp_seq (getSpace_spec hsp) ?_
  rintro sp₀ st₀ ⟨rfl, rfl⟩
  rw [wp_bind]
  apply wp_ite
  · intro hout
    exact ⟨by simp, .inl (hrefused (fun hadm => hout hadm.1))⟩
  intro hin
  apply wp_ite
  · intro hal
    exact ⟨by simp, .inl (hrefused (fun hadm => by have := hadm.2.1; have := hadm.2.2.1; omega))⟩
  intro hal
  show wp (if h : r.start < r.start + r.size then _ else _) st₀ _ _
  split
  next hlt =>
    unfold mapArea
    simp only [wp_bind]
    refine wp_mono_ok (getSpace_spec hsp) ?_
    rintro sp₁ st₁ ⟨rfl, rfl⟩
    apply wp_ite
    · intro hov
      refine ⟨by simp, .inl (hrefused (fun hadm => ?_))⟩
      cases hov.symm.trans hadm.2.2.2.2
    -- every check has been passed; only the backend may refuse
    intro hov
    have hadm : Admits sp₁ r := by
      rw [not_not] at hin
      exact ⟨hin, by omega, by omega, hlt, Bool.eq_false_iff.mpr hov⟩
    rw [wp_bind]
    unfold orBadState
    rw [wp_tryCatch]
    refine wp_mono memCall_spec ?_ ?_
    · intro _ st₂ hpost
      refine ⟨_, dif_pos hadm, ?_⟩
      rw [getElem?_withAreas, if_pos rfl, hpost, hsp]
      rfl
    · intro e st₂ hpost
      cases e with
      | err code => exact ⟨by simp, .inr hpost.2⟩
      | halt => exact absurd rfl hpost.1
  next hlt => exact ⟨by simp, .inl (hrefused (fun hadm => hlt hadm.2.2.2.1))⟩

/-- `map` that populates is `map` and then `populate_area`. -/
theorem map_populate_eq (r : Region) : map (ops env) s r.start r.size r.flags true r.backend
      = (map (ops env) s r.start r.size r.flags false r.backend
        >>= fun _ => populateArea (ops env) s r.start r.size r.flags) := by
  unfold map
  simp only [bind_assoc]
  -- the lookup of the space and the checks are the same
  congr 1
  funext sp
  congr 1
  funext _
  by_cases hlt : r.start < r.start + r.size
  · simp only [hlt, dif_pos, bind_assoc, if_true, Bool.false_eq_true, if_false, pure_bind]
  · simp only [hlt, dif_neg, not_false_eq_true]
    rfl

theorem populate_spec (b : Backend) (lo hi : Nat) (flags access : MappingFlags) :
    wp ((ops env).populate b s lo hi flags access) st
      (fun _ st' => st'.spaces = st.spaces) (fun e _ => e ≠ .halt) := by
  show wp (do
    let call := (← get).mem.calls
    memCall env
    modify _
    return ((hi - lo) / 4096, none)) st _ _
  rw [wp_bind, wp_get]
  rw [wp_bind]
  exact wp_mono memCall_spec (fun _ _ hpost => hpost) (fun _ _ he => he.1)

variable (hsp : st.spaces[s]? = some sp)
include hsp

/-- `populate_area` never panics and leaves the areas as they are. -/
theorem populateArea_noHalt (start size : Nat) (access : MappingFlags) :
    wp (populateArea (ops env) s start size access) st (fun _ st' => st'.spaces = st.spaces)
      (fun e _ => e ≠ .halt) := by
  have hloop : ∀ (rounds lo : Nat) (st' : MmState LoadMem Backend), st'.spaces = st.spaces →
      wp (populateLoop (ops env) s (start + size) access rounds lo) st'
        (fun _ st'' => st''.spaces = st.spaces) (fun e _ => e ≠ .halt) := by
    intro rounds
    -- on the rounds that are left: one for each area of the range
    induction rounds with
    | zero =>
      intro lo st' h'
      exact h'
    | succ rounds ih =>
      intro lo st' h'
      refine wp_seq (getSpace_spec (by rw [h']; exact hsp)) ?_
      rintro sp₁ st₁ ⟨rfl, rfl⟩
      split
      · exact h'
      next a _ =>
        rw [wp_bind]
        refine wp_mono_ok (populate_spec a.backend _ _ _ _) ?_
        intro _ st₂ hpost
        exact wp_exit (hpost.trans h') fun _ => ih _ st₂ (hpost.trans h')
  refine wp_seq (getSpace_spec hsp) ?_
  rintro sp₀ st₀ ⟨rfl, rfl⟩
  rw [wp_bind]
  apply wp_ite
  · intro _
    simp
  intro _
  apply wp_ite
  · intro _
    simp
  intro _
  rw [wp_pure, wp_bind]
  refine wp_mono_ok (hloop _ _ st₀ rfl) ?_
  intro reached st₁ h₁
  apply wp_ite
  · intro _
    simp
  · intro _
    exact h₁

/-- `map` with `populate` set never panics. -/
theorem mapPopulated_noHalt (r : Region) :
    wp (map (ops env) s r.start r.size r.flags true r.backend) st (fun _ _ => True)
      (fun e _ => e ≠ .halt) := by
  rw [map_populate_eq, wp_bind]
  refine wp_mono (map_spec hsp r) ?_ (fun _ _ he => he.1)
  grind [wp_mono_ok, populateArea_noHalt]

/-- `write` never panics and changes no mapping. -/
theorem writeSpace_spec (start : Nat) (data : Bytes) :
    wp (writeSpace s start data) st (fun _ st' => st' = st) (fun e _ => e ≠ .halt) := by
  refine wp_seq (getSpace_spec hsp) ?_
  rintro sp₀ st₀ ⟨rfl, rfl⟩
  apply wp_ite
  · intro _
    exact wp_exit rfl fun _ => by simp
  · intro _
    simp

/-- `AddrSpace::clear` leaves an empty space. -/
theorem clear_spec : wp (clear (ops env) s) st
      (fun _ st' => st'.spaces[s]? = some { sp with areas := .empty }) NoError := by
  have hloop : ∀ (rest : List (MemoryArea Backend)) (st' : MmState LoadMem Backend),
      st'.spaces = st.spaces →
      wp (clearLoop (ops env) s rest) st' (fun _ st'' => st''.spaces = st.spaces) NoError := by
    intro rest
    induction rest with
    | nil =>
      intro st' h'
      exact h'
    | cons a rest ih =>
      intro st' h'
      -- an error of `unmap` is caught and dropped
      unfold clearLoop
      exact ih _ h'
  refine wp_seq (getSpace_spec hsp) ?_
  rintro sp₀ st₀ ⟨rfl, rfl⟩
  refine wp_seq (hloop _ st₀ rfl) ?_
  intro _ st₁ h₁
  rw [wp_modify]
  rw [getElem?_withAreas, if_pos rfl, h₁, hsp]
  rfl

end Space

end StarryOS.Exec
