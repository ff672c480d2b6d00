/-
  StarryOS.Lib.Transition — LABELLED TRANSITION SYSTEMS, with a side condition on
  every step.

  A system is a step function `step : σ → ι → Option σ`: the label carries
  every choice that the code does not make itself (which thread moves, what
  the environment answers), `none` means that the step is not enabled.

  `Reach step ok s₀ s` is the set of states reached from `s₀` by steps that
  ALL meet the condition `ok` in the state they start from.  With
  `ok = Always` this is plain reachability.  The two rules:

    • `Reach.invariant` — what holds at the start and is kept by every step
      that meets `ok` holds in every state reached,
    • `Reach.of_runs` — an executed list of labels gives a reached state, so
      a concrete run can be evaluated.
-/
import Mathlib.Algebra.Order.Ring.Nat
import Mathlib.Logic.Function.Basic

namespace StarryOS.Lib

variable {σ ι : Type}

/-- The trivial side condition: every step is allowed. -/
def Always : σ → ι → Prop := fun _ _ => True

/-- The states reached from `s₀` by steps that all meet `ok` where they start. -/
inductive Reach (step : σ → ι → Option σ) (ok : σ → ι → Prop) (s₀ : σ) : σ → Prop
  | start : Reach step ok s₀ s₀
  | next {s s' : σ} (i : ι) (hr : Reach step ok s₀ s) (hok : ok s i)
      (hs : step s i = some s') : Reach step ok s₀ s'

variable {step : σ → ι → Option σ} {ok : σ → ι → Prop} {s₀ s : σ}

/-- **The invariant rule**: initial, and kept by every allowed step. -/
theorem Reach.invariant (Inv : σ → Prop) (h₀ : Inv s₀)
    (hstep : ∀ s i s', Inv s → ok s i → step s i = some s' → Inv s') (hr : Reach step ok s₀ s) :
    Inv s := by
  induction hr with
  | start => exact h₀
  | next i _ hok hs ih => exact hstep _ i _ ih hok hs

theorem guard_eq_some {p : Prop} [Decidable p] {a b : σ}
    (h : (if p then some a else none) = some b) : p ∧ b = a := by
  obtain ⟨hp, hb⟩ := Option.ite_none_right_eq_some.mp h
  exact ⟨hp, (Option.some.inj hb).symm⟩

/-- A step that takes over one result. -/
theorem bind_pure_eq_some {α β : Type} {x : Option α} {f : α → β} {b : β}
    (h : (do let a ← x; return f a) = some b) : ∃ a, x = some a ∧ f a = b := by
  obtain ⟨a, ha, hb⟩ := Option.bind_eq_some_iff.mp h
  exact ⟨a, ha, Option.some.inj hb⟩

theorem unless_eq_some {p : Prop} [Decidable p] {a b : σ}
    (h : (if p then none else some a) = some b) : ¬ p ∧ b = a := by
  obtain ⟨hp, hb⟩ := Option.ite_none_left_eq_some.mp h
  exact ⟨hp, (Option.some.inj hb).symm⟩

/-- A run of labels, stopped at the first step that is not enabled. -/
def runs (step : σ → ι → Option σ) : σ → List ι → Option σ
  | s, [] => some s
  | s, i :: is => (step s i).bind (fun s' => runs step s' is)

/-- Every step of a run meets `ok` in the state it starts from. -/
def RunsOk (step : σ → ι → Option σ) (ok : σ → ι → Prop) : σ → List ι → Prop
  | _, [] => True
  | s, i :: is => ok s i ∧ ∀ s', step s i = some s' → RunsOk step ok s' is

/-- Where `ok` says which steps are enabled, a run goes to its end if and only if all its
steps meet `ok`. -/
theorem runs_isSome_iff (is : List ι) (h : ∀ i ∈ is, ∀ s, (step s i).isSome = true ↔ ok s i)
    (s : σ) : (runs step s is).isSome = true ↔ RunsOk step ok s is := by
  induction is generalizing s with
  | nil => exact ⟨fun _ => trivial, fun _ => rfl⟩
  | cons i is ih =>
    have hi := h i (.head _) s
    simp only [runs, RunsOk, ← hi]
    cases step s i with
    | none => simp
    | some s' => simpa using ih (fun j hj => h j (.tail _ hj)) s'

private theorem reach_of_runs_from :
    ∀ (is : List ι) (s s' : σ), Reach step ok s₀ s → RunsOk step ok s is →
      runs step s is = some s' → Reach step ok s₀ s' := by
  intro is
  induction is with
  | nil =>
    intro s s' hr _ h
    cases h
    exact hr
  | cons i is ih =>
    intro s s' hr hok h
    simp only [runs, Option.bind_eq_some_iff] at h
    obtain ⟨t, ht, hrest⟩ := h
    exact ih t s' (.next i hr hok.1 ht) (hok.2 t ht) hrest

/-- **An executed run reaches its last state.** -/
theorem Reach.of_runs (is : List ι) (hok : RunsOk step ok s₀ is) (h : runs step s₀ is = some s) :
    Reach step ok s₀ s :=
  reach_of_runs_from is s₀ s .start hok h

theorem runsOk_always (step : σ → ι → Option σ) :
    ∀ (is : List ι) (s : σ), RunsOk step Always s is
  | [], _ => trivial
  | _ :: is, _ => ⟨trivial, fun s' _ => runsOk_always step is s'⟩

/-- A run that can be executed goes on from a reached state; its last state is a term that can be
evaluated further. -/
theorem Reach.run (h : Reach step Always s₀ s) (is : List ι)
    (hrun : (runs step s is).isSome = true) : Reach step Always s₀ ((runs step s is).getD s) := by
  obtain ⟨s', hs'⟩ := Option.isSome_iff_exists.mp hrun
  rw [hs']
  exact reach_of_runs_from is s s' h (runsOk_always step is s) hs'

/-- What holds at the end of an executed run holds in a reached state. -/
theorem exists_reach (step : σ → ι → Option σ) (s₀ : σ) (is : List ι)
    (P : σ → Prop) [DecidablePred P] (h : (runs step s₀ is).any P = true) :
    ∃ s, Reach step Always s₀ s ∧ P s := by
  obtain ⟨s, hs, hP⟩ := (Option.any_eq_true _ _).mp h
  exact ⟨s, .of_runs is (runsOk_always step is s₀) hs, of_decide_eq_true hP⟩

/-- The same for a run whose steps are checked, one by one, to meet `ok`. -/
theorem exists_reach_guarded (step : σ → ι → Option σ) (s₀ : σ) (guard : σ → ι → Bool)
    (is : List ι) (P : σ → Prop) [DecidablePred P]
    (h : (runs (fun s i => if guard s i then step s i else none) s₀ is).any P = true)
    (hguard : ∀ s i, guard s i = true → ok s i := by exact fun _ _ => id) :
    ∃ s, Reach step ok s₀ s ∧ P s := by
  obtain ⟨s, hs, hP⟩ := exists_reach _ s₀ is P h
  refine ⟨s, ?_, hP⟩
  clear hP h
  induction hs with
  | start => exact .start
  | next i _ _ hs ih =>
    simp only [Option.ite_none_right_eq_some] at hs
    exact .next i ih (hguard _ i hs.1) hs.2

end StarryOS.Lib
