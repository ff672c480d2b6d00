/-
  StarryOS.Lib.StatusBits — STICKY STATUS REGISTERS: words of event bits.

  A device raises an event by setting a bit; the bit stays until software
  writes a ONE to it (`clearOnes`).  Such a write only ever removes bits, and
  removes none that the written word does not name.
-/
import Mathlib.Algebra.Order.Ring.Nat
import Mathlib.Logic.Basic

namespace StarryOS.Lib

variable {n k : Nat} {reg v : BitVec n}

/-- The register after a write of `v` to it, where a one clears the bit. -/
def clearOnes (reg v : BitVec n) : BitVec n := reg &&& ~~~v

theorem getLsbD_of_clearOnes (h : (clearOnes reg v).getLsbD k = true) : reg.getLsbD k = true := by
  rw [clearOnes, BitVec.getLsbD_and, Bool.and_eq_true] at h
  exact h.1

/-- A bit that a write takes away is a bit of the word that was written. -/
theorem getLsbD_clearOnes (h : reg.getLsbD k = true) :
    (clearOnes reg v).getLsbD k = true ∨ v.getLsbD k = true := by
  cases hv : v.getLsbD k with
  | true => exact .inr rfl
  | false =>
    refine .inl ?_
    have hk : k < n := BitVec.lt_of_getLsbD h
    rw [clearOnes, BitVec.getLsbD_and, BitVec.getLsbD_not, h, hv, decide_eq_true hk]
    rfl

end StarryOS.Lib
