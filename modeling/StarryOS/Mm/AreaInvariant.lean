/-
  StarryOS.Mm.AreaInvariant — A PROPERTY OF EVERY AREA, through all system calls.

  Areas come from `map` and from fork, are cut by `unmap` and `protect`, and go
  with their space.  A property `R` of an area therefore holds for every area
  of every space in every run, when

    • the area of a `map` call has it,
    • a piece of an area that has it has it too,
    • `clone_map` hands it on to the child,
    • and no backend call takes it away: what happens to the memory is always
      `Later`, and `R` survives that.
-/
import StarryOS.Mm.AddrSpaceRules

namespace StarryOS.Mm

open Lib

variable {σ B : Type}

/-- The areas of all spaces have property `R`. -/
def EveryArea (R : σ → Nat → MemoryArea B → Prop) (st : MmState σ B) : Prop :=
  ∀ (s : Nat) sp a, st.spaces[s]? = some sp → a ∈ sp.areas.areas → R st.mem s a

/-- No area changes, and the memory becomes later. -/
def Onward (Later : σ → σ → Prop) (st st' : MmState σ B) : Prop :=
  st'.spaces = st.spaces ∧ Later st.mem st'.mem

/-- Both exits of a program go onward. -/
def Quiet {α : Type} (Later : σ → σ → Prop) (m : MmM σ B α) : Prop :=
  ∀ st, wp m st (fun _ st' => Onward Later st st') (fun _ st' => Onward Later st st')

/-- What the rule needs of a backend. -/
structure KeepsAreas (ops : BackendOps σ B) (R : σ → Nat → MemoryArea B → Prop)
    (Later : σ → σ → Prop) : Prop where
  refl : ∀ m, Later m m
  trans : ∀ m m' m'', Later m m' → Later m' m'' → Later m m''
  later : ∀ m m' s a, R m s a → Later m m' → R m' s a
  piece : ∀ m s a a', R m s a → a.start ≤ a'.start → a'.backend = a.backend → R m s a'
  map : ∀ b s lo hi flags, Quiet Later (ops.map b s lo hi flags)
  unmap : ∀ b s lo hi, Quiet Later (ops.unmap b s lo hi)
  onProtect : ∀ b flags, Quiet Later (ops.onProtect b flags)
  protectRegion : ∀ s lo hi flags, Quiet Later (ops.protectRegion s lo hi flags)
  populate : ∀ b s lo hi flags access st, wp (ops.populate b s lo hi flags access) st
    (fun r st' => Onward Later st st' ∧ ∀ cb, r.2 = some cb → Quiet Later cb)
    (fun _ st' => Onward Later st st')
  cloneMap : ∀ s t a st, R st.mem s a →
    wp (ops.cloneMap a.backend s t a.start a.stop a.flags) st
      (fun b st' => Onward Later st st' ∧ R st'.mem t { a with backend := b })
      (fun _ st' => Onward Later st st')
  dropPageTable : ∀ s, Quiet Later (ops.dropPageTable s)

section Rule

variable {ops : BackendOps σ B} {R : σ → Nat → MemoryArea B → Prop} {Later : σ → σ → Prop}
  {m₀ : σ} {st : MmState σ B}

/-- The invariant of the rule: every area has `R`, and the memory is later than
it was. -/
def Kept (R : σ → Nat → MemoryArea B → Prop) (Later : σ → σ → Prop) (m₀ : σ)
    (st : MmState σ B) : Prop :=
  EveryArea R st ∧ Later m₀ st.mem

theorem Kept.onward (hk : KeepsAreas ops R Later) {st' : MmState σ B} (h : Kept R Later m₀ st)
    (hon : Onward Later st st') : Kept R Later m₀ st' := by
  refine ⟨?_, hk.trans _ _ _ h.2 hon.2⟩
  intro s sp a hsp ha
  rw [hon.1] at hsp
  exact hk.later _ _ s a (h.1 s sp a hsp ha) hon.2

theorem Kept.quiet {α : Type} (hk : KeepsAreas ops R Later) {m : MmM σ B α}
    (hm : Quiet Later m) (h : Kept R Later m₀ st) : settles m st (Kept R Later m₀) :=
  wp_mono (hm st) (fun _ _ => h.onward hk) (fun _ _ hon => .inr (h.onward hk hon))

variable {s start size : Nat}

/-- The areas of one space are replaced by areas that have `R`. -/
theorem Kept.withAreas (h : Kept R Later m₀ st) {f : MemorySet B → MemorySet B}
    (hf : ∀ sp a, st.spaces[s]? = some sp → a ∈ (f sp.areas).areas → R st.mem s a) :
    Kept R Later m₀ (st.withAreas s f) := by
  refine ⟨?_, h.2⟩
  intro u sp a hsp ha
  rw [getElem?_withAreas] at hsp
  split at hsp
  next heq =>
    subst heq
    obtain ⟨sp₀, hsp₀, rfl⟩ := Option.map_eq_some_iff.mp hsp
    exact hf sp₀ a hsp₀ ha
  · exact h.1 u sp a hsp ha

/-- A new space has no areas. -/
theorem Kept.newSpace (h : Kept R Later m₀ st) (lo hi : Nat) :
    Kept R Later m₀ { st with spaces := st.spaces ++ [⟨lo, hi, .empty⟩] } := by
  refine ⟨?_, h.2⟩
  intro u sp a hsp ha
  rw [List.getElem?_append] at hsp
  split at hsp
  · exact h.1 u sp a hsp ha
  rw [List.getElem?_singleton] at hsp
  split at hsp
  · cases hsp
    cases ha
  · cases hsp

variable (hk : KeepsAreas ops R Later) (h : Kept R Later m₀ st)
include hk h

/-- A cut leaves pieces of the areas that were there. -/
theorem Kept.carve {lo hi : Nat} {g : MappingFlags → Option MappingFlags} (hlt : lo < hi) :
    Kept R Later m₀ (st.withAreas s (fun as => as.carve lo hi g)) := by
  refine h.withAreas ?_
  intro sp p hsp hp
  obtain ⟨a, ha, hstart, -, hb, -⟩ := AreaSet.of_mem_carve hlt hp
  exact hk.piece _ s a p (h.1 s sp a hsp ha) hstart hb

theorem Kept.mapArea {a : MemoryArea B} (ha : R st.mem s a) :
    settles (mapArea ops s a) st (Kept R Later m₀) := by
  refine mapArea_settles ?_ (fun _ _ _ => h)
  intro sp hsp hov
  refine wp_mono (hk.map a.backend s a.start a.stop a.flags st) ?_
    (fun _ _ hon => .inr (h.onward hk hon))
  intro _ st' hon
  refine (h.onward hk hon).withAreas ?_
  intro sp' b hsp' hb
  rw [hon.1, hsp] at hsp'
  cases hsp'
  rcases (AreaSet.mem_insert hov).mp hb with rfl | hb
  · exact hk.later _ _ s b ha hon.2
  · exact hk.later _ _ s b (h.1 s sp b hsp hb) hon.2

theorem Kept.populateArea {access : MappingFlags} :
    settles (populateArea ops s start size access) st (Kept R Later m₀) := by
  refine populateArea_settles (fun _ => Kept R Later m₀) (fun _ _ => id) ?_ h
  intro st' sp a lo h' _ _ _
  exact wp_mono (hk.populate a.backend s lo _ a.flags access st')
    (fun _ _ hq => h'.onward hk hq.1) (fun _ _ hon => .inr (h'.onward hk hon))

theorem Kept.fault {v : Nat}
    {access : MappingFlags} : settles (handlePageFault ops s v access) st (Kept R Later m₀) := by
  refine handlePageFault_settles ?_ h
  intro sp a _ _ _ _
  refine wp_mono (hk.populate a.backend s _ _ a.flags access st) ?_
    (fun _ _ hon => .inr (h.onward hk hon))
  intro r st' hq
  unfold afterCallback
  split
  next cb hcb => exact (h.onward hk hq.1).quiet hk (hq.2 cb hcb)
  · exact h.onward hk hq.1

theorem Kept.unmap : settles (unmap ops s start size) st (Kept R Later m₀) := by
  refine carve_settles ?_ h
  intro st' sp a cut h' _ _ _ _ _
  refine wp_mono (hk.unmap cut.backend s cut.start cut.stop st') ?_
    (fun _ _ hon => .inr (h'.onward hk hon))
  intro _ st₁ hon
  exact ⟨hon.1, (h'.onward hk hon).carve hk cut.nonempty⟩

theorem Kept.protect {newFlags : MappingFlags} :
    settles (protect ops s start size newFlags) st (Kept R Later m₀) := by
  refine carve_settles ?_ h
  intro st' sp a cut h' _ _ _ _ _
  unfold backendProtect
  rw [wp_bind]
  refine wp_mono (hk.onProtect cut.backend newFlags st') ?_ (fun _ _ hon => .inr (h'.onward hk hon))
  intro _ st₁ hon₁
  refine wp_mono (hk.protectRegion s cut.start cut.stop newFlags st₁) ?_
    (fun _ _ hon => .inr ((h'.onward hk hon₁).onward hk hon))
  intro _ st₂ hon₂
  exact ⟨hon₂.1.trans hon₁.1, ((h'.onward hk hon₁).onward hk hon₂).carve hk cut.nonempty⟩

theorem Kept.dropSpace : settles (dropSpace ops s) st (Kept R Later m₀) := by
  refine dropSpace_settles (fun _ => Kept R Later m₀) (fun _ _ => h) ?_ ?_
  · intro st' a rest h'
    exact wp_mono (hk.unmap a.backend s a.start a.stop st')
      (fun _ _ => h'.onward hk) (fun _ _ _ => trivial)
  · intro st' h'
    refine Kept.quiet hk (hk.dropPageTable s) (h'.withAreas ?_)
    intro sp a _ ha
    cases ha

theorem Kept.tryClone : settles (tryClone ops s) st (Kept R Later m₀) := by
  refine tryClone_settles (fun rest st' => Kept R Later m₀ st' ∧ ∀ a ∈ rest, R st'.mem s a) ?_ ?_
    (fun _ h' => h'.1)
  · intro sp hsp
    exact ⟨h.newSpace _ _, fun a => h.1 s sp a hsp⟩
  rintro st' a rest ⟨h', hrest⟩
  rw [wp_bind]
  refine wp_mono (hk.cloneMap s st.spaces.length a st' (hrest a (.head _))) ?_
    (fun _ _ hon => .inr ((h'.onward hk hon).dropSpace hk))
  rintro b st₁ ⟨hon, hb⟩
  -- while the area is mapped, the areas still to come keep their property
  have hboth : settles (StarryOS.Mm.mapArea ops st.spaces.length { a with backend := b }) st₁
      (Kept R Later st₁.mem) :=
    Kept.mapArea hk ⟨((h'.onward hk hon)).1, hk.refl _⟩ hb
  refine wp_mono hboth ?_ ?_
  · intro _ st₂ h₂
    refine ⟨⟨h₂.1, hk.trans _ _ _ (h'.onward hk hon).2 h₂.2⟩, ?_⟩
    intro c hc
    exact hk.later _ _ s c (hk.later _ _ s c (hrest c (.tail _ hc)) hon.2) h₂.2
  · intro e st₂ he
    rcases he with hhalt | h₂
    · exact .inl hhalt
    · right
      exact Kept.dropSpace hk ⟨h₂.1, hk.trans _ _ _ (h'.onward hk hon).2 h₂.2⟩

theorem Kept.map {flags : MappingFlags} {populate : Bool} {b : B}
    (ha : ∀ hlt : start < start + size, R st.mem s ⟨start, start + size, hlt, flags, b⟩) :
    settles (map ops s start size flags populate b) st (Kept R Later m₀) := by
  refine map_settles (Kept R Later m₀) h (fun _ _ hlt => h.mapArea hk (ha hlt)) ?_
  intro st' h'
  split
  · exact h'.populateArea hk
  · exact h'

/-- **Every system call keeps the property of every area.** -/
theorem Kept.execOp {op : MmOp B}
    (hmap : ∀ s start size flags populate b, op = .map s start size flags populate b →
      ∀ hlt : start < start + size, R st.mem s ⟨start, start + size, hlt, flags, b⟩) :
    settles (execOp ops op) st (Kept R Later m₀) := by
  cases op with
  | newSpace base size => exact h.newSpace _ _
  | map s start size flags populate b => exact h.map hk (hmap s start size flags populate b rfl)
  | populateArea s start size access => exact h.populateArea hk
  | fault s v access => exact settles_bind (h.fault hk) (fun _ _ => id)
  | protect s start size newFlags => exact h.protect hk
  | unmap s start size => exact h.unmap hk
  | fork s => exact h.tryClone hk
  | exit s => exact h.dropSpace hk

end Rule

end StarryOS.Mm
