/-
  StarryOS.Fs.TmpfsRename — RENAMING IN TMPFS (`kernel/src/pseudofs/tmp.rs`).

  A `MemoryNode` is a view of an inode, made anew by every `lookup`.  Its
  destructor clears the entries of the directory it views, and `rename` drops
  a node of its own: with an existing destination it looks the source up to
  compare the inodes (`rename_is_intact_iff`, `rename_onto_directory_clears_it`).
  The nodes that the VFS drops besides are a parameter.
-/
import StarryOS.Errno
import StarryOS.Lib.Program
import Mathlib.Logic.Function.Basic
import Mathlib.Logic.Relation

namespace StarryOS.Fs

open Lib Function

/-! ## §1. The file system. -/

/-- The inodes by number: the entries of a directory, nothing for a file. -/
abbrev MemoryFs := Nat → Option (String → Option Nat)

namespace MemoryFs

variable (s : MemoryFs)

/-- What a name of a directory refers to. -/
def entry (dir : Nat) (name : String) : Option Nat :=
  (s dir).bind (fun entries => entries name)

/-- `Inode::as_dir`, for the inode of a node. -/
def asDir (dir : Nat) : AxResult (String → Option Nat) :=
  match s dir with
  | some entries => .ok entries
  | none => .error .notADirectory

/-- `MemoryNode::lookup`: the inode of the node that it makes. -/
def lookup (dir : Nat) (name : String) : AxResult Nat := do
  let entries ← s.asDir dir
  match entries name with
  | some ino => .ok ino
  | none => .error .notFound

def setEntry (dir : Nat) (name : String) (v : Option Nat) : MemoryFs :=
  update s dir ((s dir).map (fun entries => update entries name v))

/-- `MemoryNode::drop`, for nodes of these inodes. -/
def dropNodes (inos : List Nat) : MemoryFs := fun i =>
  if i ∈ inos then (s i).map (fun _ _ => none) else s i

/-- `j` is `i` or below it. -/
def Within : Nat → Nat → Prop :=
  Relation.ReflTransGen (fun i j => ∃ name, name ≠ "." ∧ name ≠ ".." ∧ s.entry i name = some j)

end MemoryFs

/-- A call of `rename`, with what the VFS does meanwhile. -/
structure RenameCall where
  srcDir : Nat
  srcName : String
  dstDir : Nat
  dstName : String
  /-- `dst_dir.lookup` returned a cached entry, which outlives the call. -/
  keepsEntry : Bool
  /-- Nodes dropped before the entry is moved, and after it. -/
  during : List Nat
  after : List Nat

namespace RenameCall

variable (c : RenameCall)

/-- The nodes that the comparison of the inodes drops. -/
def transient (ino found : Nat) : List Nat :=
  if c.keepsEntry then [ino] else [ino, found]

variable (s : MemoryFs)

/-- The second half of `MemoryNode::rename`. -/
def moveEntry : AxResult MemoryFs := do
  let s := s.dropNodes c.during
  let srcEntry ← s.lookup c.srcDir c.srcName
  let s := s.setEntry c.srcDir c.srcName none
  let _ ← s.asDir c.dstDir
  return s.setEntry c.dstDir c.dstName (some srcEntry)

/-- `MemoryNode::rename`. -/
def rename : AxResult MemoryFs :=
  match s.entry c.dstDir c.dstName with
  | none => c.moveEntry s
  | some found => do
    let ino ← s.lookup c.srcDir c.srcName
    let s := s.dropNodes (c.transient ino found)
    if found = ino then return s else c.moveEntry s

/-- The state that the call leaves. -/
def run : AxResult MemoryFs := do
  let s ← c.rename s
  return s.dropNodes c.after

/-! ## §2. What it is for. -/

/-- The entries after an ideal rename of the object `ino`. -/
def moved (ino i : Nat) (name : String) : Option Nat :=
  if (i, name) = (c.dstDir, c.dstName) then some ino
  else if (i, name) = (c.srcDir, c.srcName) ∧ s.entry c.dstDir c.dstName ≠ some ino then none
  else s.entry i name

/-- The object `ino` arrived with all that is below it, and nothing else changed. -/
@[grind cases] structure Intact (s s' : MemoryFs) (ino : Nat) : Prop where
  entries : ∀ i name, s'.entry i name = c.moved s ino i name
  object : ∀ j, s.Within ino j → ∀ name, s'.entry j name = s.entry j name

/-- The nodes dropped before the entry is stored under its new name. -/
def early (ino : Nat) : List Nat :=
  match s.entry c.dstDir c.dstName with
  | none => c.during
  | some found => if found = ino then [] else c.transient ino found ++ c.during

/-- The nodes dropped later. -/
def late (ino : Nat) : List Nat :=
  if s.entry c.dstDir c.dstName = some ino then c.transient ino ino ++ c.after else c.after

/-- No node of a directory with entries is dropped, and the object is not moved
below itself. -/
@[grind cases] structure Gentle (ino : Nat) : Prop where
  early : ∀ i ∈ c.early s ino, ∀ name, (i, name) ≠ (c.dstDir, c.dstName) →
    c.moved s ino i name = none
  late : ∀ i ∈ c.late s ino, ∀ name, c.moved s ino i name = none
  apart : s.entry c.dstDir c.dstName = some ino ∨
    ¬ s.Within ino c.srcDir ∧ ¬ s.Within ino c.dstDir

/-! ## §3. What it does. -/

section Rename

variable {c : RenameCall} {s s' : MemoryFs} {ino i dir : Nat} {name : String}

theorem entry_dropNodes (s : MemoryFs) (l : List Nat) (i : Nat) (name : String) :
    (s.dropNodes l).entry i name = if i ∈ l then none else s.entry i name := by
  unfold MemoryFs.entry MemoryFs.dropNodes
  split
  · cases s i <;> rfl
  · rfl

theorem entry_setEntry (s : MemoryFs) (dir : Nat) (key : String) (v : Option Nat) (i : Nat)
    (name : String) (hdir : (s dir).isSome) :
    (s.setEntry dir key v).entry i name = if (i, name) = (dir, key) then v else s.entry i name := by
  obtain ⟨entries, hentries⟩ := Option.isSome_iff_exists.mp hdir
  by_cases hi : i = dir
  · by_cases hname : name = key <;> simp [MemoryFs.entry, MemoryFs.setEntry, hi, hname, hentries]
  · simp [MemoryFs.entry, MemoryFs.setEntry, hi]

theorem lookup_eq_ok : s.lookup dir name = .ok ino ↔ s.entry dir name = some ino := by
  unfold MemoryFs.lookup MemoryFs.asDir MemoryFs.entry
  cases s dir with
  | none => simp [bind, Except.bind]
  | some entries => cases h : entries name <;> simp [bind, Except.bind, h]

theorem isSome_of_entry (h : s.entry dir name = some ino) : (s dir).isSome := by
  unfold MemoryFs.entry at h
  cases hdir : s dir <;> simp_all

/-- The second half finds its source, and moves it. -/
theorem moveEntry_spec (h : c.moveEntry s = .ok s') : ∃ ino,
    c.srcDir ∉ c.during ∧ s.entry c.srcDir c.srcName = some ino ∧
    ∀ i name, s'.entry i name = if (i, name) = (c.dstDir, c.dstName) then some ino
      else if (i, name) = (c.srcDir, c.srcName) ∨ i ∈ c.during then none
      else s.entry i name := by
  unfold moveEntry at h
  obtain ⟨ino, hino, h⟩ := bind_eq_ok.mp h
  obtain ⟨entries, hdst, h⟩ := bind_eq_ok.mp h
  cases h
  rw [lookup_eq_ok] at hino
  have hsrc := isSome_of_entry hino
  rw [entry_dropNodes] at hino
  split at hino
  · cases hino
  rename_i hkept
  refine ⟨ino, hkept, hino, ?_⟩
  intro i name
  have hdir : ((s.dropNodes c.during).setEntry c.srcDir c.srcName none c.dstDir).isSome := by
    unfold MemoryFs.asDir at hdst
    split at hdst
    next he => rw [he]; rfl
    · cases hdst
  rw [entry_setEntry _ _ _ _ _ _ hdir, entry_setEntry _ _ _ _ _ _ hsrc, entry_dropNodes]
  grind

/-- The entries that a successful rename leaves. -/
theorem run_spec (h : c.run s = .ok s') : ∃ ino, s.entry c.srcDir c.srcName = some ino ∧
    ∀ i name, s'.entry i name = if i ∈ c.late s ino ∨
        i ∈ c.early s ino ∧ (i, name) ≠ (c.dstDir, c.dstName) then none
      else c.moved s ino i name := by
  unfold run rename at h
  obtain ⟨s₁, hs₁, h⟩ := bind_eq_ok.mp h
  cases h
  simp only [entry_dropNodes]
  split at hs₁
  next hdst =>
    obtain ⟨ino, hkept, hsrc, hs₁⟩ := moveEntry_spec hs₁
    refine ⟨ino, hsrc, ?_⟩
    intro i name
    rw [hs₁]
    simp only [late, early, moved, hdst]
    grind
  next found hdst =>
    obtain ⟨ino, hino, hs₁⟩ := bind_eq_ok.mp hs₁
    rw [lookup_eq_ok] at hino
    refine ⟨ino, hino, ?_⟩
    intro i name
    split at hs₁
    next heq =>
      cases hs₁
      simp only [late, early, moved, hdst, heq, entry_dropNodes]
      grind
    · obtain ⟨ino', hkept, hsrc, hs₁⟩ := moveEntry_spec hs₁
      rw [entry_dropNodes] at hsrc
      simp only [hs₁, late, early, moved, hdst, entry_dropNodes]
      grind

/-- A rename that succeeds moves its object intact exactly if no node of a
directory with entries is dropped meanwhile and the object stays above itself. -/
theorem rename_is_intact_iff (h : c.run s = .ok s') :
    ∃ ino, s.entry c.srcDir c.srcName = some ino ∧ (c.Intact s s' ino ↔ c.Gentle s ino) := by
  obtain ⟨ino, hino, hentry⟩ := run_spec h
  refine ⟨ino, hino, ?_⟩
  constructor
  · intro hi
    have hdropped : ∀ i name, i ∈ c.late s ino ∨
        i ∈ c.early s ino ∧ (i, name) ≠ (c.dstDir, c.dstName) → c.moved s ino i name = none := by
      intro i name hd
      rw [← hi.entries, hentry, if_pos hd]
    refine ⟨fun i he name hne => hdropped i name (.inr ⟨he, hne⟩),
      fun i hl name => hdropped i name (.inl hl), ?_⟩
    by_cases hsame : s.entry c.dstDir c.dstName = some ino
    · exact .inl hsame
    refine .inr ⟨?_, ?_⟩
    -- the moved entry would itself be below the object
    · intro hw
      have hsrc := hi.object _ hw c.srcName
      rw [hino] at hsrc
      grind [moved]
    · intro hw
      have hdst := hi.object _ hw c.dstName
      rw [hi.entries] at hdst
      grind [moved]
  · intro hg
    have hentries : ∀ i name, s'.entry i name = c.moved s ino i name := by
      intro i name
      rw [hentry]
      split
      next hd =>
        rcases hd with hl | ⟨he, hne⟩
        · exact (hg.late i hl name).symm
        · exact (hg.early i he name hne).symm
      · rfl
    refine ⟨hentries, ?_⟩
    intro j hw name
    rw [hentries, moved]
    rcases hg.apart with hsame | ⟨hsrc, hdst⟩
    · grind
    · have hj : j ≠ c.srcDir ∧ j ≠ c.dstDir :=
        ⟨by rintro rfl; exact hsrc hw, by rintro rfl; exact hdst hw⟩
      simp [hj.1, hj.2]

end Rename

/-- `/a/f` and an empty directory `/b`; the root is inode 1. -/
def smallTree : MemoryFs := fun i =>
  match i with
  | 1 => some (fun name => [(".", 1), ("..", 1), ("a", 2), ("b", 4)].lookup name)
  | 2 => some (fun name => [(".", 2), ("..", 1), ("f", 3)].lookup name)
  | 4 => some (fun name => [(".", 4), ("..", 1)].lookup name)
  | _ => none

/-- `rename("/a", "/" + dstName)`; the VFS drops nothing. -/
def renameA (dstName : String) : RenameCall where
  srcDir := 1
  srcName := "a"
  dstDir := 1
  dstName := dstName
  keepsEntry := true
  during := []
  after := []

theorem rename_to_new_name_is_intact_iff : ∃ s', (renameA "c").run smallTree = .ok s' ∧
    ∃ ino, smallTree.entry 1 "a" = some ino ∧
      ((renameA "c").Intact smallTree s' ino ↔ (renameA "c").Gentle smallTree ino) :=
  ⟨_, rfl, rename_is_intact_iff (c := renameA "c") rfl⟩

/-- `/a` arrives at `/b` with its inode, and without `f`, `.` and `..`. -/
theorem rename_onto_directory_clears_it : ∃ s', (renameA "b").run smallTree = .ok s' ∧
    s'.entry 1 "b" = some 2 ∧ (∀ name, s'.entry 2 name = none) ∧
    ¬ (renameA "b").Intact smallTree s' 2 := by
  refine ⟨_, rfl, by decide, fun _ => rfl, ?_⟩
  intro hi
  exact absurd (hi.object 2 .refl "f") (by decide)

end RenameCall

end StarryOS.Fs
