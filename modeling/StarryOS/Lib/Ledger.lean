/-
  StarryOS.Lib.Ledger — CALLS THAT COUNT.  A call has a number and one thread that
  makes it.  What it puts into a log is counted under its number; when it ends it
  leaves a record.  All operations keep `Balanced`.
-/
import Mathlib.Algebra.Order.Ring.Nat
import Mathlib.Logic.Function.Basic

namespace StarryOS.Lib

open Function

/-- Calls in progress, and the records of the others. -/
@[ext] structure Ledger (ρ : Type) where
  /-- The next number. -/
  next : Nat
  /-- How many items are in the log under a number. -/
  count : Nat → Nat
  /-- The call that a thread makes, and what it has put into the log. -/
  active : Nat → Option (Nat × Nat)
  past : List (Nat × ρ)

namespace Ledger

variable {ρ : Type}

/-- A thread begins a call, under the next number. -/
def begin (l : Ledger ρ) (t : Nat) : Ledger ρ :=
  { l with next := l.next + 1, active := update l.active t (some (l.next, 0)) }

/-- `k` more items of the call are in the log. -/
def put (l : Ledger ρ) (t id n k : Nat) : Ledger ρ :=
  { l with
    count := update l.count id (n + k)
    active := update l.active t (some (id, n + k)) }

/-- The call ends. -/
def close (l : Ledger ρ) (t id : Nat) (r : ρ) : Ledger ρ :=
  { l with active := update l.active t none, past := (id, r) :: l.past }

/-- A call ends before it has begun. -/
def refuse (l : Ledger ρ) (r : ρ) : Ledger ρ :=
  { l with next := l.next + 1, past := (l.next, r) :: l.past }

/-- **The books are right**: a thread knows what its call has put into the log, and the records
are `Good` for what is there. -/
@[grind cases] structure Balanced (Good : Nat → ρ → Prop) (l : Ledger ρ) : Prop where
  fresh : ∀ id, l.next ≤ id → l.count id = 0
  active : ∀ t id n, l.active t = some (id, n) → id < l.next ∧ l.count id = n
  unique : ∀ t u id n m, l.active t = some (id, n) → l.active u = some (id, m) → t = u
  past : ∀ e ∈ l.past, e.1 < l.next ∧ Good (l.count e.1) e.2 ∧ ∀ t n, l.active t ≠ some (e.1, n)

section Rules

variable {Good : Nat → ρ → Prop} {l : Ledger ρ} {t id n : Nat} {r : ρ}

variable (h : l.Balanced Good)
include h

/-- A new call has put nothing into the log. -/
theorem Balanced.begin (t : Nat) : (l.begin t).Balanced Good := by
  refine ⟨?_, ?_, ?_, ?_⟩
  · exact fun id hid => h.fresh id (by simp only [Ledger.begin] at hid; omega)
  · intro u id n hu
    simp only [Ledger.begin, update_apply] at hu ⊢
    grind
  · -- the numbers of the calls in progress are smaller than the new one
    intro u v id n m hu hv
    simp only [Ledger.begin, update_apply] at hu hv
    grind
  · intro e he
    obtain ⟨hlt, hgood, hnone⟩ := h.past e he
    refine ⟨by simp only [Ledger.begin]; omega, hgood, ?_⟩
    intro u n hu
    simp only [Ledger.begin, update_apply] at hu
    have hnot := hnone u n
    grind

/-- The thread of the call counts the items too. -/
theorem Balanced.put (ha : l.active t = some (id, n)) (k : Nat) :
    (l.put t id n k).Balanced Good := by
  -- nobody else makes this call
  have hother : ∀ u i m, u ≠ t → l.active u = some (i, m) → i ≠ id := by
    rintro u i m hne hu rfl
    exact hne (h.unique u t i m n hu ha)
  refine ⟨?_, ?_, ?_, ?_⟩
  · intro i hi
    have hlt := (h.active t id n ha).1
    simp only [Ledger.put] at hi ⊢
    rw [update_of_ne (by omega)]
    exact h.fresh i hi
  · intro u i m hu
    simp only [Ledger.put, update_apply] at hu ⊢
    grind
  · intro u v i m m' hu hv
    simp only [Ledger.put, update_apply] at hu hv
    grind
  · intro e he
    obtain ⟨hlt, hgood, hnone⟩ := h.past e he
    have hne : e.1 ≠ id := fun heq => hnone t n (heq ▸ ha)
    simp only [Ledger.put, update_apply, if_neg hne]
    refine ⟨hlt, hgood, ?_⟩
    intro u m hu
    have hnot := hnone u m
    grind

/-- The record has to be `Good` for what the call has put. -/
theorem Balanced.close (ha : l.active t = some (id, n)) (hr : Good n r) :
    (l.close t id r).Balanced Good := by
  have hback : ∀ u i m, (l.close t id r).active u = some (i, m) →
      u ≠ t ∧ l.active u = some (i, m) := by
    intro u i m hu
    simp only [Ledger.close, update_apply] at hu
    grind
  refine ⟨h.fresh, fun u i m hu => h.active u i m (hback u i m hu).2, ?_, ?_⟩
  · exact fun u v i m m' hu hv => h.unique u v i m m' (hback u i m hu).2 (hback v i m' hv).2
  intro e he
  rcases List.mem_cons.mp he with rfl | he
  · obtain ⟨hlt, hcount⟩ := h.active t id n ha
    refine ⟨hlt, hcount ▸ hr, ?_⟩
    grind
  · obtain ⟨hlt, hgood, hnone⟩ := h.past e he
    exact ⟨hlt, hgood, fun u m hu => hnone u m (hback u e.1 m hu).2⟩

/-- The record has to be `Good` for nothing. -/
theorem Balanced.refuse (hr : Good 0 r) : (l.refuse r).Balanced Good := by
  have hlater : ∀ i, i < l.next → i < (l.refuse r).next := fun i => Nat.lt_succ_of_lt
  refine ⟨?_, ?_, h.unique, ?_⟩
  · exact fun i hi => h.fresh i (by simp only [Ledger.refuse] at hi; omega)
  · exact fun u i m hu => ⟨hlater i (h.active u i m hu).1, (h.active u i m hu).2⟩
  intro e he
  rcases List.mem_cons.mp he with rfl | he
  · refine ⟨Nat.lt_succ_self _, (h.fresh l.next le_rfl).symm ▸ hr, ?_⟩
    intro u m hu
    exact Nat.lt_irrefl _ (h.active u _ m hu).1
  · obtain ⟨hlt, hrest⟩ := h.past e he
    exact ⟨hlater _ hlt, hrest⟩

end Rules

/-- The items of one call in a log. -/
def inLog {α : Type} (log : List (Nat × α)) (id : Nat) : Nat := log.countP (fun e => e.1 = id)

/-- Items are added under one number. -/
theorem inLog_append {α : Type} (log : List (Nat × α)) (items : List α) (id i : Nat) :
    inLog (log ++ items.map (fun b => (id, b))) i
      = inLog log i + if i = id then items.length else 0 := by
  unfold inLog
  rw [List.countP_append, List.countP_map]
  congr 1
  split
  next heq =>
    subst heq
    rw [List.countP_eq_length]
    intro b _
    simp
  next hne =>
    rw [List.countP_eq_zero]
    intro b _
    simpa using Ne.symm hne

end Ledger

end StarryOS.Lib
