/-
  StarryOS.Fs.ReadDir — ENUMERATING A TMPFS DIRECTORY (`MemoryNode::read_dir` of
  `kernel/src/pseudofs/tmp.rs`, `sys_getdents64` of
  `kernel/src/syscall/fs/ctl.rs`).

  The entries are a hash map, and the offset of a descriptor is a position in
  its iteration order.  `create`, `link` and `unlink` change the map between
  two calls, and with it the order, in any way
  (`enumeration_is_complete`, `unlink_hides_a_name`).
-/
import StarryOS.Errno
import StarryOS.Lib.ByteString
import StarryOS.Lib.Transition
import Mathlib.Data.List.Nodup

namespace StarryOS.Fs

open Lib

/-! ## §1. The calls. -/

/-- A name, with the number and the type of the inode it refers to. -/
structure MemoryEntry where
  name : Bytes
  ino : Nat
  nodeType : Nat
  deriving DecidableEq

/-- `linux_dirent64`. -/
structure Dirent where
  ino : Nat
  off : Nat
  reclen : Nat
  nodeType : Nat
  name : Bytes

/-- `DirBuffer`: its length, the part in use and the records in it. -/
structure DirBuffer where
  len : Nat
  offset : Nat
  records : List Dirent

def DirBuffer.remainingSpace (b : DirBuffer) : Nat := b.len - b.offset

/-- The name starts at byte 19, is terminated, and records are aligned to 8. -/
def recordLength (name : Bytes) : Nat := (19 + name.length + 1 + 7) / 8 * 8

/-- `DirBuffer::write_entry`. -/
def DirBuffer.writeEntry (b : DirBuffer) (e : MemoryEntry) (off : Nat) : Option DirBuffer :=
  if b.remainingSpace < recordLength e.name then none
  else some { b with
    offset := b.offset + recordLength e.name
    records := b.records ++ [⟨e.ino, off, recordLength e.name, e.nodeType, e.name⟩] }

/-- What the callback of `sys_getdents64` writes to. -/
structure DirSink where
  buffer : DirBuffer
  dirOffset : Nat
  hasRemaining : Bool

/-- The loop of `MemoryNode::read_dir`, at position `i` of the iteration. -/
def readDir (i : Nat) : List MemoryEntry → DirSink → DirSink
  | [], k => k
  | e :: rest, k =>
    match k.buffer.writeEntry e (i + 1) with
    | none => { k with hasRemaining := true }
    | some buffer => readDir (i + 1) rest ⟨buffer, i + 1, true⟩

/-- A directory, one of its descriptors, and what has been seen through it. -/
structure Enumeration where
  /-- The hash map, in its iteration order. -/
  entries : List MemoryEntry
  offset : Nat
  /-- The names returned so far. -/
  returned : List Bytes
  /-- The names that were there all the time. -/
  lasting : List Bytes
  /-- A call has returned 0. -/
  finished : Bool

variable (d : Enumeration)

def Enumeration.names : List Bytes := d.entries.map MemoryEntry.name

/-- The entries read by a call with a buffer of `len` bytes. -/
def Enumeration.scan (len : Nat) : DirSink :=
  readDir d.offset (d.entries.drop d.offset) ⟨⟨len, 0, []⟩, d.offset, false⟩

/-- `sys_getdents64`; `fault` says that the user's buffer cannot be written. -/
def Enumeration.getdents64 (len : Nat) (fault : Bool) :
    Enumeration × AxResult Nat :=
  let k := d.scan len
  let d := { d with offset := k.dirOffset }
  if k.hasRemaining ∧ k.buffer.offset = 0 then (d, .error .invalidInput)
  else if fault then (d, .error .badAddress)
  else ({ d with
    returned := d.returned ++ k.buffer.records.map Dirent.name
    finished := d.finished || k.buffer.offset == 0 }, .ok k.buffer.offset)

/-- What may happen. -/
inductive DirStep where
  | getdents64 (len : Nat) (fault : Bool)
  /-- `create` or `link`, and the order that the map has afterwards. -/
  | create (e : MemoryEntry) (order : List MemoryEntry)
  | unlink (name : Bytes) (order : List MemoryEntry)

def Enumeration.step : DirStep → Option Enumeration
  | .getdents64 len fault => some (d.getdents64 len fault).1
  | .create e order =>
    if e.name ∉ d.names ∧ order.Perm (e :: d.entries) then some { d with entries := order }
    else none
  | .unlink name order =>
    if order.Perm (d.entries.filter (fun e => e.name ≠ name)) then
      some { d with entries := order, lasting := d.lasting.filter (fun n => n ≠ name) }
    else none

/-- A descriptor that has just been opened. -/
def justOpened (entries : List MemoryEntry) : Enumeration where
  entries := entries
  offset := 0
  returned := []
  lasting := entries.map MemoryEntry.name
  finished := false

/-- **Completeness** at the end of the enumeration. -/
def Enumeration.Complete : Prop :=
  d.finished = true → ∀ name ∈ d.lasting, d.returned.count name = 1

/-- A change leaves the entries before the offset where they are, and a call
that has read entries can write to the user's buffer. -/
def Enumeration.Undisturbed : DirStep → Prop
  | .getdents64 len fault => fault = true → (d.scan len).buffer.records = []
  | .create _ order => order.take d.offset = d.entries.take d.offset
  | .unlink _ order => order.take d.offset = d.entries.take d.offset

instance (d : Enumeration) : (op : DirStep) → Decidable (d.Undisturbed op)
  | .getdents64 _ _ => inferInstanceAs (Decidable (_ = true → _ = []))
  | .create _ _ | .unlink _ _ => inferInstanceAs (Decidable (_ = List.take _ _))

/-! ## §2. What a call reads. -/

/-- **The loop reads the next entries**: `m` of them, as many as fit. -/
theorem readDir_spec (l : List MemoryEntry) (i : Nat) (k : DirSink) (hi : k.dirOffset = i)
    (hk : k.buffer.offset = 0 ↔ k.buffer.records = []) : ∃ m, (readDir i l k).dirOffset = i + m
      ∧ (readDir i l k).buffer.records.map Dirent.name
        = k.buffer.records.map Dirent.name ++ (l.take m).map MemoryEntry.name
      ∧ (readDir i l k).hasRemaining = (k.hasRemaining || !l.isEmpty)
      ∧ ((readDir i l k).buffer.offset = 0 ↔ (readDir i l k).buffer.records = []) := by
  induction l generalizing i k with
  | nil => exact ⟨0, by simpa [readDir] using hi, by simp [readDir], by simp [readDir], hk⟩
  | cons e rest ih =>
    rw [readDir]
    split
    · exact ⟨0, by simpa using hi, by simp, by simp, hk⟩
    next buffer hb =>
      have hpos : 0 < recordLength e.name := by unfold recordLength; omega
      have hbuffer : buffer.offset ≠ 0 ∧ buffer.records ≠ [] ∧ buffer.records.map Dirent.name
          = k.buffer.records.map Dirent.name ++ [e.name] := by
        obtain ⟨-, rfl⟩ := unless_eq_some hb
        exact ⟨by show _ + _ ≠ 0; omega, by simp, by simp⟩
      obtain ⟨m, hoff, hrec, hrem, hzero⟩ :=
        ih (i + 1) ⟨buffer, i + 1, true⟩ rfl (iff_of_false hbuffer.1 hbuffer.2.1)
      refine ⟨m + 1, by rw [hoff]; omega, ?_, by rw [hrem]; simp, hzero⟩
      rw [hrec, hbuffer.2.2]
      simp

/-- A call goes on where the last one stopped. -/
theorem scan_spec (len : Nat) : d.names.take (d.scan len).dirOffset
        = d.names.take d.offset ++ (d.scan len).buffer.records.map Dirent.name
      ∧ ((d.scan len).buffer.offset = 0 ↔ (d.scan len).buffer.records = [])
      ∧ ((d.scan len).hasRemaining = false → d.names.take d.offset = d.names) := by
  obtain ⟨m, hoff, hrec, hrem, hzero⟩ :=
    readDir_spec (d.entries.drop d.offset) d.offset ⟨⟨len, 0, []⟩, d.offset, false⟩ rfl (by simp)
  refine ⟨?_, hzero, ?_⟩
  · rw [Enumeration.scan, hoff, hrec, Enumeration.names, List.take_add]
    simp
  · intro hnone
    rw [Enumeration.scan, hrem] at hnone
    rw [List.take_of_length_le]
    simpa [Enumeration.names] using hnone

/-! ## §3. Whole enumerations. -/

/-- What has been returned is what lies before the offset. -/
@[grind cases] structure Enumeration.Followed : Prop where
  distinct : d.names.Nodup
  returned : d.returned = d.names.take d.offset
  lasting : ∀ name ∈ d.lasting, name ∈ d.names
  finished : d.finished = true → ∀ name ∈ d.lasting, name ∈ d.returned

namespace Enumeration.Followed

variable {d d' : Enumeration}

variable (h : d.Followed)
include h

theorem getdents64 (len : Nat) (fault : Bool)
    (hok : fault = true → (d.scan len).buffer.records = []) :
    (d.getdents64 len fault).1.Followed := by
  obtain ⟨hread, hzero, hend⟩ := scan_spec d len
  -- a call that returns an error has read nothing
  have hfailed : (d.scan len).buffer.records = [] →
      Followed { d with offset := (d.scan len).dirOffset } := by
    intro hnothing
    rw [hnothing, List.map_nil, List.append_nil, ← h.returned] at hread
    exact ⟨h.distinct, hread.symm, h.lasting, h.finished⟩
  unfold Enumeration.getdents64
  dsimp only
  split
  next hfull => exact hfailed (hzero.mp hfull.2)
  rename_i hrest
  split
  next hfault => exact hfailed (hok hfault)
  refine ⟨h.distinct, by rw [h.returned]; exact hread.symm, h.lasting, ?_⟩
  intro hfin name hname
  rw [List.mem_append]
  grind

/-- A change behind the offset. -/
theorem change {order : List MemoryEntry} {lasting : List Bytes}
    (hok : order.take d.offset = d.entries.take d.offset)
    (hdistinct : (order.map MemoryEntry.name).Nodup)
    (hlasting : ∀ name ∈ lasting, name ∈ d.lasting ∧ name ∈ order.map MemoryEntry.name) :
    Followed { d with entries := order, lasting := lasting } where
  distinct := hdistinct
  returned := by
    show d.returned = (order.map MemoryEntry.name).take d.offset
    rw [h.returned, names, ← List.map_take, ← List.map_take, hok]
  lasting name hname := (hlasting name hname).2
  finished hfin name hname := h.finished hfin name (hlasting name hname).1

theorem step {op : DirStep} (hok : d.Undisturbed op) (hs : d.step op = some d') : d'.Followed := by
  cases op with
  | getdents64 len fault =>
    cases hs
    exact h.getdents64 len fault hok
  | create e order =>
    obtain ⟨⟨hfresh, hperm⟩, rfl⟩ := guard_eq_some hs
    have hnames := hperm.map MemoryEntry.name
    refine h.change hok ?_ ?_
    · rw [hnames.nodup_iff]
      exact List.nodup_cons.mpr ⟨hfresh, h.distinct⟩
    · intro name hname
      rw [hnames.mem_iff]
      exact ⟨hname, .tail _ (h.lasting name hname)⟩
  | unlink name order =>
    obtain ⟨hperm, rfl⟩ := guard_eq_some hs
    have hnames := hperm.map MemoryEntry.name
    refine h.change hok ?_ ?_
    · rw [hnames.nodup_iff]
      exact (List.filter_sublist.map _).nodup h.distinct
    · intro name' hname'
      obtain ⟨hold, hne⟩ := List.mem_filter.mp hname'
      obtain ⟨e, he, rfl⟩ := List.mem_map.mp (h.lasting name' hold)
      grind

theorem complete : d.Complete := by
  intro hfin name hname
  apply List.count_eq_one_of_mem
  · rw [h.returned]
    exact (List.take_sublist _ _).nodup h.distinct
  · exact h.finished hfin name hname

end Enumeration.Followed

open Enumeration

open Enumeration

/-- In every enumeration whose steps are all undisturbed, the names that were
there all the time have been returned exactly once when a call returns 0. -/
theorem enumeration_is_complete (entries : List MemoryEntry)
    (hkeys : (entries.map MemoryEntry.name).Nodup) (d : Enumeration)
    (h : Reach step Undisturbed (justOpened entries) d) : d.Complete := by
  have hstart : (justOpened entries).Followed := ⟨hkeys, rfl, fun _ => id, nofun⟩
  have hinv := h.invariant Followed hstart (fun _ _ _ hinv => hinv.step)
  exact hinv.complete

def entryA : MemoryEntry := ⟨[97], 5, 8⟩
def entryB : MemoryEntry := ⟨[98], 6, 8⟩

/-- A directory with `.`, `..` and the entries. -/
def withDots (entries : List MemoryEntry) : List MemoryEntry :=
  ⟨[46], 1, 4⟩ :: ⟨[46, 46], 1, 4⟩ :: entries

/-- After the first two records `a` is unlinked and `c` is created, both behind the offset. -/
theorem one_call_returns_both : ∃ d,
    Reach step Undisturbed (justOpened (withDots [entryA, entryB])) d
      ∧ d.finished = true ∧ d.lasting = [[46], [46, 46], [98]] ∧ d.Complete := by
  obtain ⟨d, hd, hfin, hlasting⟩ := exists_reach_guarded step
    (justOpened (withDots [entryA, entryB])) (fun d op => decide (d.Undisturbed op))
    [.getdents64 48 false, .unlink [97] (withDots [entryB]),
      .create ⟨[99], 7, 8⟩ (withDots [⟨[99], 7, 8⟩, entryB]), .getdents64 96 false,
      .getdents64 96 false]
    (fun d => d.finished ∧ d.lasting = [[46], [46, 46], [98]]) (by decide)
    (fun _ _ => of_decide_eq_true)
  exact ⟨d, hd, hfin, hlasting, enumeration_is_complete _ (by decide) d hd⟩

/-- Three records fit, `a` is returned and then unlinked; the next call returns 0. -/
theorem unlink_hides_a_name : ∃ d,
    Reach step Always (justOpened (withDots [entryA, entryB])) d ∧ d.finished = true
      ∧ d.lasting = [[46], [46, 46], [98]] ∧ d.returned = [[46], [46, 46], [97]]
      ∧ ¬ d.Complete := by
  obtain ⟨d, hd, hfin, hlasting, hreturned⟩ := exists_reach step
    (justOpened (withDots [entryA, entryB]))
    [.getdents64 72 false, .unlink [97] (withDots [entryB]), .getdents64 72 false]
    (fun d => d.finished ∧ d.lasting = [[46], [46, 46], [98]]
      ∧ d.returned = [[46], [46, 46], [97]]) (by decide)
  refine ⟨d, hd, hfin, hlasting, hreturned, ?_⟩
  intro hcomplete
  have hcount := hcomplete hfin [98] (by rw [hlasting]; decide)
  rw [hreturned] at hcount
  cases hcount

end StarryOS.Fs
