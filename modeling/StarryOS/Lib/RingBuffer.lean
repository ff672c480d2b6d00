/-
  StarryOS.Lib.RingBuffer — A RING OF FIXED CAPACITY, with the part of it that is
  in use.

  The ring is an array of cells; the used part starts at `head`, is `len` cells
  long and may wrap around the end.  A user sees TWO SLICES, of the used part
  and of the vacant part, which it reads or fills itself before it moves the
  index.

  The abstract view is the list of what is in the ring, in order (`contents`):

      asSlices      left ++ right = contents
      advanceRead   drops from the front of `contents`
      fill          followed by advanceWrite, appends to `contents`
      pushSlice     appends as much as there is room for
-/
import Mathlib.Algebra.Order.Ring.Nat
import Mathlib.Data.List.Basic
import Mathlib.Data.List.Range
import Mathlib.Tactic.Cases

namespace StarryOS.Lib

open List

/-- `len` cells are in use, from `head` on. -/
structure RingBuffer (α : Type) where
  cells : Nat → α
  capacity : Nat
  head : Nat
  len : Nat
  head_lt : head < capacity
  len_le : len ≤ capacity

namespace RingBuffer

variable {α : Type} (rb : RingBuffer α)

/-! ## §1. Operations. -/

def new (capacity : Nat) (h : 0 < capacity) (a : α) : RingBuffer α where
  cells := fun _ => a
  capacity := capacity
  head := 0
  len := 0
  head_lt := h
  len_le := Nat.zero_le _

/-- The cell `i` places after the head. -/
def index (i : Nat) : Nat :=
  if rb.head + i < rb.capacity then rb.head + i else rb.head + i - rb.capacity

/-- What is in the ring, oldest first. -/
def contents : List α := (List.range rb.len).map (fun i => rb.cells (rb.index i))

def vacantLen : Nat := rb.capacity - rb.len

/-- The used part, up to the end of the array and from its beginning. -/
def asSlices : List α × List α :=
  ((List.range (min rb.len (rb.capacity - rb.head))).map (fun i => rb.cells (rb.head + i)),
    (List.range (rb.len - (rb.capacity - rb.head))).map rb.cells)

/-- The lengths of the two slices of the vacant part. -/
def vacantSlices : Nat × Nat :=
  let left := min rb.vacantLen (rb.capacity - rb.index rb.len)
  (left, rb.vacantLen - left)

/-- Cells are overwritten from `pos` on. -/
def store (cells : Nat → α) (pos : Nat) (xs : List α) : Nat → α :=
  fun j => if pos ≤ j then xs[j - pos]?.getD (cells j) else cells j

/-- The beginnings of the two vacant slices are filled. -/
def fill (left right : List α) : RingBuffer α :=
  { rb with cells := store (store rb.cells (rb.index rb.len) left) 0 right }

variable {i pos : Nat} {cells : Nat → α} {xs left right : List α}

theorem index_lt (h : i ≤ rb.capacity) : rb.index i < rb.capacity := by
  have hhead := rb.head_lt
  unfold index
  split <;> omega

/-- The read index moves; it never passes the used part. -/
def advanceRead (n : Nat) : RingBuffer α :=
  { rb with
    head := rb.index (min n rb.len)
    len := rb.len - n
    head_lt := rb.index_lt (Nat.le_trans (Nat.min_le_right _ _) rb.len_le)
    len_le := Nat.le_trans (Nat.sub_le _ _) rb.len_le }

/-- The write index moves; it never passes the vacant part. -/
def advanceWrite (n : Nat) : RingBuffer α :=
  { rb with len := min (rb.len + n) rb.capacity, len_le := Nat.min_le_right _ _ }

/-- As many elements as there is room for. -/
def pushSlice (xs : List α) : RingBuffer α :=
  let (left, right) := rb.vacantSlices
  (rb.fill (xs.take left) ((xs.drop left).take right)).advanceWrite (min xs.length rb.vacantLen)

/-! ## §2. The slices are the contents. -/

@[simp] theorem length_contents : rb.contents.length = rb.len := by
  unfold contents
  rw [length_map, length_range]

theorem getElem?_contents (i : Nat) :
    rb.contents[i]? = if i < rb.len then some (rb.cells (rb.index i)) else none := by
  unfold contents
  grind

@[simp] theorem contents_new (capacity : Nat) (h : 0 < capacity) (a : α) :
    (new capacity h a).contents = [] := rfl

/-- **The two slices, one after the other.** -/
theorem asSlices_append : rb.asSlices.1 ++ rb.asSlices.2 = rb.contents := by
  have hlen : rb.len = min rb.len (rb.capacity - rb.head)
      + (rb.len - (rb.capacity - rb.head)) := by omega
  have hhead := rb.head_lt
  unfold asSlices contents
  conv_rhs => rw [hlen, range_add, map_append, map_map]
  congr 1
  · refine map_congr_left ?_
    intro i hi
    have hi := mem_range.mp hi
    unfold index
    rw [if_pos (by omega)]
  refine map_congr_left ?_
  intro i hi
  have hi := mem_range.mp hi
  show rb.cells i = rb.cells (rb.index (min rb.len (rb.capacity - rb.head) + i))
  unfold index
  rw [if_neg (by omega)]
  congr 1
  omega

theorem length_asSlices : rb.asSlices.1.length + rb.asSlices.2.length = rb.len := by
  rw [← length_append, asSlices_append, length_contents]

/-- **Reading moves past what was read.** -/
theorem contents_advanceRead {n : Nat} (h : n ≤ rb.len) :
    (rb.advanceRead n).contents = rb.contents.drop n := by
  have hhead := rb.head_lt
  have hlen := rb.len_le
  refine ext_getElem? (fun i => ?_)
  rw [getElem?_drop, getElem?_contents, getElem?_contents]
  show (if i < rb.len - n then some (rb.cells ((rb.advanceRead n).index i)) else none) = _
  split
  · rw [if_pos (by omega)]
    congr 2
    show (if rb.index (min n rb.len) + i < rb.capacity then rb.index (min n rb.len) + i
      else rb.index (min n rb.len) + i - rb.capacity) = rb.index (n + i)
    unfold index
    split <;> split <;> split <;> omega
  · rw [if_neg (by omega)]

/-! ## §3. Filling the vacant slices. -/

theorem store_of_lt {j : Nat} (h : j < pos) : store cells pos xs j = cells j :=
  if_neg (by omega)

theorem store_of_ge {j : Nat} (h : pos + xs.length ≤ j) : store cells pos xs j = cells j := by
  unfold store
  rw [if_pos (by omega), getElem?_eq_none (by omega)]
  rfl

theorem store_add (h : i < xs.length) : store cells pos xs (pos + i) = xs[i] := by
  unfold store
  rw [if_pos (by omega), Nat.add_sub_cancel_left, getElem?_eq_getElem h]
  rfl

section

variable (hleft : left.length ≤ rb.vacantSlices.1) (hright : right.length ≤ rb.vacantSlices.2)
include hleft hright

/-- The used part is out of reach of `fill`. -/
theorem fill_used (hi : i < rb.len) :
    (rb.fill left right).cells (rb.index i) = rb.cells (rb.index i) := by
  have hhead := rb.head_lt
  have hlen := rb.len_le
  simp only [vacantSlices, vacantLen, index] at hleft hright
  have hout : ∀ j, j = rb.index i →
      (right.length ≤ j ∧ (j < rb.index rb.len ∨ rb.index rb.len + left.length ≤ j)) := by
    grind [index]
  obtain ⟨hr, hl⟩ := hout _ rfl
  show store (store rb.cells (rb.index rb.len) left) 0 right (rb.index i) = _
  rw [store_of_ge (by omega)]
  rcases hl with hl | hl
  · exact store_of_lt hl
  · exact store_of_ge hl

/-- What is filled comes after it, first the left slice and then the right one. -/
theorem fill_vacant
    (hfull : left.length < rb.vacantSlices.1 → right = []) (hi : i < (left ++ right).length) :
    (rb.fill left right).cells (rb.index (rb.len + i)) = (left ++ right)[i] := by
  have hhead := rb.head_lt
  have hlen := rb.len_le
  rw [length_append] at hi
  show store (store rb.cells (rb.index rb.len) left) 0 right _ = _
  by_cases hil : i < left.length
  · rw [getElem_append_left hil]
    have hpos : rb.index (rb.len + i) = rb.index rb.len + i
        ∧ right.length ≤ rb.index rb.len + i := by grind [vacantSlices, vacantLen, index]
    rw [hpos.1, store_of_ge (by omega), store_add hil]
  · -- the left slice is full, so the next cell is the first of the array
    have hnil : rb.vacantSlices.1 ≤ left.length := by grind
    have hpos : rb.index (rb.len + i) = 0 + (i - left.length) := by
      grind [vacantSlices, vacantLen, index]
    rw [getElem_append_right (by omega), hpos, store_add (by omega)]

/-- **Writing appends what was written.** -/
theorem contents_fill (hfull : left.length < rb.vacantSlices.1 → right = []) :
    ((rb.fill left right).advanceWrite (left.length + right.length)).contents
      = rb.contents ++ (left ++ right) := by
  have hroom : rb.len + (left.length + right.length) ≤ rb.capacity := by
    have hlen := rb.len_le
    simp only [vacantSlices, vacantLen] at hleft hright
    omega
  refine ext_getElem? (fun i => ?_)
  rw [getElem?_contents]
  show (if i < min (rb.len + (left.length + right.length)) rb.capacity then
    some ((rb.fill left right).cells (rb.index i)) else none) = _
  rw [Nat.min_eq_left hroom]
  by_cases hold : i < rb.len
  · rw [if_pos (by omega), getElem?_append_left (by rw [length_contents]; exact hold),
      getElem?_contents, if_pos hold, rb.fill_used hleft hright hold]
  rw [getElem?_append_right (by rw [length_contents]; omega), length_contents]
  by_cases hnew : i < rb.len + (left.length + right.length)
  · have hi : i - rb.len < (left ++ right).length := by
      rw [length_append]
      omega
    have hcell := rb.fill_vacant hleft hright hfull hi
    grind
  · rw [if_neg hnew, getElem?_eq_none (by rw [length_append]; omega)]

end

theorem vacantSlices_add : rb.vacantSlices.1 + rb.vacantSlices.2 = rb.vacantLen := by
  simp only [vacantSlices]
  omega

theorem contents_pushSlice (xs : List α) :
    (rb.pushSlice xs).contents = rb.contents ++ xs.take rb.vacantLen := by
  have hadd := rb.vacantSlices_add
  have hlength : min xs.length rb.vacantLen = (xs.take rb.vacantSlices.1).length
      + ((xs.drop rb.vacantSlices.1).take rb.vacantSlices.2).length := by
    simp only [length_take, length_drop]
    omega
  have hjoin : xs.take rb.vacantSlices.1 ++ (xs.drop rb.vacantSlices.1).take rb.vacantSlices.2
      = xs.take rb.vacantLen := by rw [← hadd, take_add]
  show ((rb.fill (xs.take rb.vacantSlices.1)
    ((xs.drop rb.vacantSlices.1).take rb.vacantSlices.2)).advanceWrite
      (min xs.length rb.vacantLen)).contents = _
  rw [hlength, rb.contents_fill (length_take_le _ _) (length_take_le _ _), hjoin]
  intro hshort
  rw [length_take] at hshort
  rw [drop_eq_nil_of_le (by omega), take_nil]

end RingBuffer

end StarryOS.Lib
