/-
  StarryOS.File.CloseRange — `close_range` (`kernel/src/syscall/fs/fd_ops.rs`).

  Without `UNSHARE` the call is exact.  With it the call never returns: the
  receiver of `old_files.write().clone_from(old_files.read().deref())` is
  evaluated first, so `read()` waits for a guard of the caller itself.
-/
import StarryOS.Errno
import Mathlib.Data.List.Basic
import Mathlib.Logic.Function.Basic

namespace StarryOS.File

open Function

structure FileDescriptor (F : Type) where
  inner : F
  cloexec : Bool

/-- The ids of a `FlattenObjects` that are in use, with their objects. -/
abbrev FileTable (F : Type) := List (Nat × FileDescriptor F)

/-- The tables, the next one, and the one that each process uses. -/
structure FdTables (F : Type) where
  tables : Nat → FileTable F
  next : Nat
  tableOf : Nat → Nat

/-- A table behind its lock; `writing` says that the caller has a write guard. -/
structure FilesLock (F : Type) where
  files : FileTable F
  writing : Bool

variable {F : Type}

/-- `none` is a call that waits forever: nobody else releases the guard. -/
def FilesLock.write (l : FilesLock F) : Option (FilesLock F) :=
  if l.writing then none else some { l with writing := true }

def FilesLock.read (l : FilesLock F) : Option (FileTable F) :=
  if l.writing then none else some l.files

/-- What happens to a descriptor of the range. -/
def closed (cloexec : Bool) (e : Nat × FileDescriptor F) : Option (Nat × FileDescriptor F) :=
  if cloexec then some (e.1, { e.2 with cloexec := true }) else none

/-- The loop over `first..=last.min(max_index)`; ids ascend, so the last one is the greatest. -/
def FileTable.closeRange (files : FileTable F) (first last : Nat) (cloexec : Bool) : FileTable F :=
  match (files.map Prod.fst).max? with
  | none => files
  | some maxIndex => (List.range' first (min last maxIndex + 1 - first)).foldl
      (fun files fd => files.filterMap
        (fun e => if e.1 = fd then closed cloexec e else some e)) files

namespace FdTables

/-- The block for `UNSHARE`. -/
def unshare (st : FdTables F) (me : Nat) : Option (FdTables F) := do
  let oldFiles := st.tableOf me
  -- `mem::take` leaves an empty table
  let st := { st with
    tables := update st.tables st.next []
    next := st.next + 1
    tableOf := update st.tableOf me st.next }
  let locked ← FilesLock.write ⟨st.tables oldFiles, false⟩
  let files ← locked.read
  return { st with tables := update st.tables oldFiles files }

/-- The arguments that `sys_close_range` refuses. -/
def refused (first last : Int) (flags : UInt32) : Bool :=
  first < 0 || last < first || flags &&& ~~~6 != 0

/-- `sys_close_range` in process `me`. -/
def sysCloseRange (st : FdTables F) (me : Nat) (first last : Int) (flags : UInt32) :
    Option (AxResult Unit × FdTables F) :=
  if refused first last flags then some (.error .invalidInput, st)
  else (if flags &&& 2 ≠ 0 then st.unshare me else some st).map fun st =>
    let files := (st.tables (st.tableOf me)).closeRange first.toNat last.toNat (flags &&& 4 ≠ 0)
    (.ok (), { st with tables := update st.tables (st.tableOf me) files })

/-- **What the call promises.** -/
def Exact (st : FdTables F) (me : Nat) (first last : Int) (flags : UInt32) : Prop :=
  ∃ result st', st.sysCloseRange me first last flags = some (result, st')
    ∧ if refused first last flags then result = .error .invalidInput ∧ st' = st
      else result = .ok ()
        ∧ st'.tables (st'.tableOf me) = (st.tables (st.tableOf me)).filterMap (fun e =>
            if first ≤ e.1 ∧ e.1 ≤ last then closed (flags &&& 4 ≠ 0) e else some e)
        ∧ (flags &&& 2 ≠ 0 → ∀ p, p ≠ me → st'.tableOf p ≠ st'.tableOf me
            ∧ st'.tables (st'.tableOf p) = st.tables (st.tableOf p))

end FdTables

/-- The loop changes each descriptor once. -/
theorem foldl_closed (cloexec : Bool) (n : Nat) : ∀ (first : Nat) (files : FileTable F),
    (List.range' first n).foldl
      (fun files fd => files.filterMap
        (fun e => if e.1 = fd then closed cloexec e else some e)) files
      = files.filterMap (fun e =>
        if first ≤ e.1 ∧ e.1 < first + n then closed cloexec e else some e) := by
  induction n with
  | zero =>
    intro first files
    rw [funext (fun e => if_neg (by omega)), List.filterMap_some]
    rfl
  | succ n ih =>
    intro first files
    rw [List.range'_succ, List.foldl_cons, ih, List.filterMap_filterMap]
    refine List.filterMap_congr fun e _ => ?_
    by_cases hfirst : e.1 = first
    · rw [if_pos hfirst, if_pos (by omega)]
      cases cloexec with
      | true => exact if_neg (fun hin => by have := hin.1; omega)
      | false => rfl
    · have hrange : first + 1 ≤ e.1 ∧ e.1 < first + 1 + n
        ↔ first ≤ e.1 ∧ e.1 < first + (n + 1) := by
        omega
      simp only [if_neg hfirst, Option.bind_some, hrange]

/-- **The loop changes the descriptors of the range**: there are none behind the last id. -/
theorem FileTable.closeRange_eq (files : FileTable F) (first last : Nat) (cloexec : Bool) :
    files.closeRange first last cloexec = files.filterMap (fun e =>
      if first ≤ e.1 ∧ e.1 ≤ last then closed cloexec e else some e) := by
  unfold closeRange
  split
  next hmax =>
    rw [List.max?_eq_none_iff, List.map_eq_nil_iff] at hmax
    rw [hmax]
    rfl
  next maxIndex hmax =>
    rw [foldl_closed]
    refine List.filterMap_congr fun e he => ?_
    have hle := (List.max?_eq_some_iff.mp hmax).2 e.1 (List.mem_map_of_mem he)
    have hrange : first ≤ e.1 ∧ e.1 < first + (min last maxIndex + 1 - first)
        ↔ first ≤ e.1 ∧ e.1 ≤ last := by omega
    simp only [hrange]

/-- **WHEN CLOSE_RANGE IS EXACT**, for every table, range and flags. -/
theorem close_range_is_exact_iff (st : FdTables F) (me : Nat) (first last : Int) (flags : UInt32) :
    st.Exact me first last flags ↔ FdTables.refused first last flags = true ∨ flags &&& 2 = 0 := by
  unfold FdTables.Exact FdTables.sysCloseRange
  cases hrefused : FdTables.refused first last flags with
  | true => simp
  | false =>
    simp only [Bool.false_eq_true, if_false]
    by_cases hunshare : flags &&& 2 = 0
    · rw [if_neg (fun h => h hunshare)]
      refine iff_of_true ⟨_, _, rfl, rfl, ?_, absurd hunshare⟩ (.inr hunshare)
      simp only [FdTables.refused, Bool.or_eq_false_iff, decide_eq_false_iff_not] at hrefused
      simp only [update_self, FileTable.closeRange_eq]
      refine List.filterMap_congr fun e _ => ?_
      have hrange : first.toNat ≤ e.1 ∧ e.1 ≤ last.toNat ↔ first ≤ e.1 ∧ e.1 ≤ last := by omega
      simp only [hrange]
    · rw [if_pos hunshare]
      refine iff_of_false ?_ (by simp [hunshare])
      rintro ⟨result, st', hcall, -⟩
      cases hcall

/-- **`UNSHARE` hangs**: a process with its own empty table never comes back. -/
theorem unshare_never_returns :
    (FdTables.mk (F := Unit) (fun _ => []) 1 (fun _ => 0)).sysCloseRange 0 3 5 2 = none
      ∧ ¬ (FdTables.mk (F := Unit) (fun _ => []) 1 (fun _ => 0)).Exact 0 3 5 2 := by
  have hhangs : (FdTables.mk (F := Unit) (fun _ => []) 1 (fun _ => 0)).sysCloseRange 0 3 5 2
      = none := rfl
  refine ⟨hhangs, ?_⟩
  rintro ⟨result, st', hcall, -⟩
  cases hhangs.symm.trans hcall

end StarryOS.File
