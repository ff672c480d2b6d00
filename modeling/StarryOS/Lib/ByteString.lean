/-
  StarryOS.Lib.ByteString — FLAT STRINGS WITH A FILL VALUE — the reference object
  of file I/O.

  A string over any alphabet with a fill letter `z` (zero, for bytes).  Three
  operations: `resize` (cut or fill at the end), `overwrite` (write a block at
  an offset, filling a gap before it) and `slice` (read a block, stopping at the
  end).  Each is characterised by its length and by its letters, read with `getD
  · z`.
-/
import Mathlib.Algebra.Order.Ring.Nat
import Mathlib.Data.List.GetD

namespace StarryOS.Lib

/-- A Rust `[u8]`. -/
abbrev Bytes := List UInt8

open List

variable {α : Type} (z : α)

/-- Cut `s` to `n` letters, or fill it up to `n` letters with `z`. -/
def resize (n : Nat) (s : List α) : List α :=
  s.take n ++ List.replicate (n - s.length) z

/-- Write `b` at offset `off`, filling the gap between the end of `s` and
`off` with `z`. -/
def overwrite (s : List α) (off : Nat) (b : List α) : List α :=
  resize z off s ++ b ++ s.drop (off + b.length)

/-- At most `n` letters of `s` from offset `off`, stopping at the end. -/
def slice (s : List α) (off n : Nat) : List α := (s.drop off).take n

/-! ## §1. Lengths. -/

@[simp] theorem length_resize (n : Nat) (s : List α) : (resize z n s).length = n := by
  simp only [resize, length_append, length_take, length_replicate]
  omega

@[simp] theorem length_overwrite (s : List α) (off : Nat) (b : List α) :
    (overwrite z s off b).length = max s.length (off + b.length) := by
  simp only [overwrite, length_append, length_resize, length_drop]
  omega

@[simp] theorem length_slice (s : List α) (off n : Nat) :
    (slice s off n).length = min n (s.length - off) := by
  simp [slice]

/-! ## §2. Letters. -/

theorem getD_of_length_le (s : List α) (i : Nat) (h : s.length ≤ i) : s.getD i z = z := by
  rw [getD_eq_getElem?_getD, getElem?_eq_none h]
  rfl

theorem getD_resize (n : Nat) (s : List α) (i : Nat) :
    (resize z n s).getD i z = if i < n then s.getD i z else z := by
  split
  next hn =>
    by_cases hs : i < s.length
    · rw [resize, getD_append _ _ _ _ (by simp; omega)]
      simp only [getD_eq_getElem?_getD, getElem?_take, if_pos hn]
    · rw [getD_of_length_le z s i (by omega), resize, getD_append_right _ _ _ _ (by simp; omega)]
      simp only [getD_eq_getElem?_getD, getElem?_replicate]
      split <;> rfl
  · rw [getD_of_length_le z _ i (by simp; omega)]

theorem resize_length_self (s : List α) : resize z s.length s = s := by
  simp [resize]

theorem overwrite_at_end (s b : List α) : overwrite z s s.length b = s ++ b := by
  unfold overwrite
  rw [resize_length_self, drop_of_length_le (Nat.le_add_right _ _), append_nil]

theorem getD_overwrite (s : List α) (off : Nat) (b : List α) (i : Nat) :
    (overwrite z s off b).getD i z
      = if off ≤ i ∧ i < off + b.length then b.getD (i - off) z else s.getD i z := by
  by_cases h1 : i < off
  · rw [if_neg (by omega), overwrite, getD_append _ _ _ _ (by simp; omega),
        getD_append _ _ _ _ (by simp; omega), getD_resize, if_pos h1]
  by_cases h2 : i < off + b.length
  · rw [if_pos (by omega), overwrite, getD_append _ _ _ _ (by simp; omega),
        getD_append_right _ _ _ _ (by simp; omega)]
    simp
  · rw [if_neg (by omega), overwrite, getD_append_right _ _ _ _ (by simp; omega)]
    simp only [getD_eq_getElem?_getD, getElem?_drop, length_append, length_resize]
    congr 2
    omega

theorem getD_slice (s : List α) (off n i : Nat) :
    (slice s off n).getD i z = if i < n then s.getD (off + i) z else z := by
  simp only [slice, getD_eq_getElem?_getD, getElem?_take, getElem?_drop]
  split <;> rfl

/-- **Two strings are equal when they have the same length and letters.** -/
theorem eq_of_getD {s t : List α} (hl : s.length = t.length)
    (h : ∀ i, i < s.length → s.getD i z = t.getD i z) : s = t := by
  apply ext_getElem hl
  grind

/-! ## §3. Blocks read off a letter function. -/

/-- The letters `f a, …, f (b - 1)` of an indexed block. -/
def blockOf (f : Nat → α) (a b : Nat) : List α := (List.range' a (b - a)).map f

@[simp] theorem length_blockOf (f : Nat → α) (a b : Nat) : (blockOf f a b).length = b - a := by
  simp [blockOf]

theorem getD_blockOf (f : Nat → α) (a b i : Nat) :
    (blockOf f a b).getD i z = if i < b - a then f (a + i) else z := by
  simp only [blockOf, getD_eq_getElem?_getD, getElem?_map]
  grind

theorem take_blockOf (f : Nat → α) (a b k : Nat) :
    (blockOf f a b).take k = blockOf f a (min b (a + k)) := by
  apply ext_getElem
  · simp only [length_take, length_blockOf]
    omega
  · intro i _ _
    simp [blockOf]

/-- The block `b` stored into the letters of `f` from index `a` on. -/
def storeBlock (f : Nat → α) (a : Nat) (b : List α) : Nat → α :=
  fun i => if a ≤ i ∧ i < a + b.length then b.getD (i - a) z else f i

/-! ## §4. Little-endian words. -/

/-- The lowest `w` bytes of `n`, lowest first. -/
def wordBytes : Nat → Nat → List UInt8
  | 0, _ => []
  | w + 1, n => UInt8.ofNat n :: wordBytes w (n / 256)

/-- The number that a word stands for. -/
def wordValue (bytes : List UInt8) : Nat := bytes.foldr (fun b n => b.toNat + 256 * n) 0

theorem wordValue_wordBytes : ∀ w n, wordValue (wordBytes w n) = n % 256 ^ w := by
  intro w
  induction w with
  | zero =>
    intro n
    rw [Nat.pow_zero, Nat.mod_one]
    rfl
  | succ w ih =>
    intro n
    have hsplit : n % 256 ^ (w + 1) = n % 256 + 256 * (n / 256 % 256 ^ w) := by
      rw [Nat.pow_succ', Nat.mod_mul]
    show (UInt8.ofNat n).toNat + 256 * wordValue (wordBytes w (n / 256)) = _
    rw [ih, UInt8.toNat_ofNat', hsplit]

end StarryOS.Lib
