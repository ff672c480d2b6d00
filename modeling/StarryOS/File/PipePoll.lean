/-
  StarryOS.File.PipePoll — DOES `Pipe::poll` SAY WHAT A READ OR A WRITE WOULD DO?
  (`kernel/src/file/pipe.rs`).

      read end     IN  if there are bytes,  HUP if the write end is gone
      write end    OUT if there is room;    nothing if the read end is gone

  A writer is not told that its write would fail at once
  (`pipe_poll_agrees_iff`, `full_pipe_without_reader_is_not_ready`).
-/
import StarryOS.File.Pipe

namespace StarryOS.File

open Lib StarryOS.Task

/-- The events that `poll` can report, and `ERR`. -/
structure PipeEvents where
  isIn : Bool
  isOut : Bool
  isHup : Bool
  isErr : Bool
  deriving Repr, DecidableEq

namespace PipeState

variable (st : PipeState)

/-- `Pipe::poll`, on the read end or on the write end. -/
def poll (readSide : Bool) : PipeEvents :=
  if readSide then ⟨0 < st.buffer.len, false, st.closed .read, false⟩
  else ⟨false, 0 < st.buffer.vacantLen, false, false⟩

/-- The closure of a `read` into one byte. -/
def tryRead : Option (AxResult Nat) :=
  let (left, right) := st.buffer.asSlices
  (copied (left, right) (.ok (min left.length 1))
    (.ok (min right.length (1 - min left.length 1)))).map
    fun answer => answer.bind fun count =>
      if 0 < count then .ok count else if st.closed .read then .ok 0 else .error .wouldBlock

/-- The closure of a `write` of the byte `b`. -/
def tryWrite (b : UInt8) : Option (AxResult Nat) :=
  let (left, right) := st.buffer.vacantSlices
  if st.closed (.write st.nextId 1 0) then some (.error .brokenPipe)
  else (filled (left, right) 1 (.ok (.replicate (min left 1) b))
      (.ok (.replicate (min right (1 - min left 1)) b))).map
    fun answer => answer.bind fun (ls, rs) =>
      if 0 < ls.length + rs.length then .ok (ls.length + rs.length) else .error .wouldBlock

theorem copied_one (left right : Bytes) :
    copied (left, right) (.ok (min left.length 1)) (.ok (min right.length (1 - min left.length 1)))
      = some (.ok (min (left.length + right.length) 1)) := by
  unfold copied
  simp only
  split
  · omega
  split
  · congr 2
    omega
  · split
    · omega
    · congr 2
      omega

theorem filled_one (left right : Nat) (b : UInt8) : ∃ ls rs,
    filled (left, right) 1 (.ok (.replicate (min left 1) b))
        (.ok (.replicate (min right (1 - min left 1)) b)) = some (.ok (ls, rs))
      ∧ ls.length + rs.length = min (left + right) 1 := by
  unfold filled
  simp only [List.length_replicate, lt_self_iff_false, if_false]
  split
  · exact ⟨_, _, rfl, by simp; omega⟩
  · exact ⟨_, _, rfl, by simp; omega⟩

theorem tryRead_eq : st.tryRead = some (if 0 < st.buffer.len then .ok 1
    else if st.closed .read then .ok 0 else .error .wouldBlock) := by
  simp only [tryRead, copied_one, st.buffer.length_asSlices, Option.map_some, Except.bind]
  by_cases hpos : 0 < st.buffer.len
  · rw [if_pos (by omega), if_pos hpos, Nat.min_eq_right hpos]
  · rw [if_neg (by omega), if_neg hpos]

theorem tryWrite_eq (b : UInt8) : st.tryWrite b = some (if st.readEnd = .released then
    .error .brokenPipe else if 0 < st.buffer.vacantLen then .ok 1 else .error .wouldBlock) := by
  obtain ⟨ls, rs, hfilled, hcount⟩ := filled_one st.buffer.vacantSlices.1 st.buffer.vacantSlices.2 b
  rw [st.buffer.vacantSlices_add] at hcount
  by_cases hgone : st.readEnd = .released
  · simp [tryWrite, closed, peer, hgone]
  simp only [tryWrite, closed, peer, hgone, hfilled, hcount, decide_false, Bool.false_eq_true,
    if_false, Option.map_some, Except.bind]
  by_cases hpos : 0 < st.buffer.vacantLen
  · rw [if_pos (by omega), if_pos hpos, Nat.min_eq_right hpos]
  · rw [if_neg (by omega), if_neg hpos]

/-- **`poll` AGREES WITH A CALL FOR ONE BYTE**, unless the pipe is full and its read end gone. -/
theorem pipe_poll_agrees_iff (st : PipeState) (b : UInt8) :
    st.tryRead.isSome = true ∧ (st.tryWrite b).isSome = true ∧
    (((((st.poll true).isIn ∨ (st.poll true).isHup) ↔ st.tryRead ≠ some (.error .wouldBlock))
      ∧ (((st.poll false).isOut ∨ (st.poll false).isErr)
        ↔ st.tryWrite b ≠ some (.error .wouldBlock)))
    ↔ ¬ (st.readEnd = .released ∧ st.buffer.vacantLen = 0)) := by
  rw [tryRead_eq, tryWrite_eq]
  refine ⟨rfl, rfl, ?_⟩
  rw [and_iff_right]
  · simp only [poll, Nat.pos_iff_ne_zero]
    by_cases hfull : st.buffer.vacantLen = 0 <;> by_cases hgone : st.readEnd = .released <;>
      simp [hfull, hgone]
  · simp only [poll]
    by_cases hpos : 0 < st.buffer.len <;> by_cases hclosed : st.closed .read <;>
      simp [hpos, hclosed]

/-- **A full pipe whose read end is gone**: a write of one byte fails with `BrokenPipe`, and `poll`
reports nothing. -/
theorem full_pipe_without_reader_is_not_ready : ∃ st, Reach step Always new st
    ∧ st.poll false = ⟨false, false, false, false⟩ ∧ st.tryWrite 7 = some (.error .brokenPipe) := by
  obtain ⟨st, hst, hfull, hgone⟩ := exists_reach step new
    [.resize 1 true, .write 0 true 4096, .next 0, .next 0,
      .copyIn 0 (.ok (List.replicate 4096 7)) (.ok []), .next 0, .next 0, .drop true, .release true]
    (fun st => st.buffer.vacantLen = 0 ∧ st.readEnd = .released) (by decide +kernel)
  exact ⟨st, hst, by simp [poll, hfull], by rw [tryWrite_eq, if_pos hgone]⟩

end PipeState

end StarryOS.File
