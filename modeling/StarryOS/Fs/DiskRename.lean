/-
  StarryOS.Fs.DiskRename — RENAMING ON DISK (`Ext4Filesystem::rename` and `unlink`
  of `lwext4_rust/src/fs.rs`, `FatDirNode::rename` of
  `axfs-ng/src/fs/fat/dir.rs`).

  Both file systems remove an existing destination first and look for the
  source afterwards (`rename_all_or_nothing_iff`,
  `rename_to_itself_loses_the_file`).  Every call into lwext4 or fatfs may fail
  with any error.  lwext4 is modelled call by call; fatfs is a parameter
  (`Fatfs`), of which only the calls that succeed are known.
-/
import StarryOS.Lib.Program
import Mathlib.Logic.Function.Basic

namespace StarryOS.Fs

open Lib Function

/-! ## §1. The directories of a disk. -/

/-- Directories of the volume. -/
structure DiskTree where
  /-- The inodes that a name of a directory refers to; in a sound directory
  there is one at most. -/
  entries : Nat → String → List Nat
  /-- The entry `..` of a directory. -/
  parent : Nat → Nat
  isDir : Nat → Bool
  /-- The directory has entries besides `.` and `..`. -/
  hasChildren : Nat → Bool
  /-- Without one more entry the link count of the inode is 0. -/
  lastLink : Nat → Bool

/-- How a call ends that does not succeed. -/
inductive DiskExit where
  | errno (code : Nat)
  | panicked
  deriving DecidableEq

def ENOENT : Nat := 2
def ENOTEMPTY : Nat := 39

namespace DiskTree

variable (s : DiskTree)

/-- `lookup`: the entry found first. -/
def lookup (dir : Nat) (name : String) : Except DiskExit Nat :=
  match s.entries dir name with
  | [] => .error (.errno ENOENT)
  | ino :: _ => .ok ino

def setEntries (dir : Nat) (name : String) (l : List Nat) : DiskTree :=
  { s with entries := update s.entries dir (update (s.entries dir) name l) }

/-- `InodeRef::remove_entry`, when `ext4_dir_remove_entry` succeeds. -/
def removeEntry (dir : Nat) (name : String) : DiskTree :=
  s.setEntries dir name (s.entries dir name).tail

/-- `InodeRef::add_entry`, when `ext4_dir_add_entry` succeeds: it does not look
for an entry of that name. -/
def addEntry (dir : Nat) (name : String) (ino : Nat) : DiskTree :=
  s.setEntries dir name (s.entries dir name ++ [ino])

end DiskTree

/-- The arguments of `rename`; paths never end in `.` or `..`. -/
structure DiskRename where
  srcDir : Nat
  srcName : String
  dstDir : Nat
  dstName : String

namespace DiskRename

variable (c : DiskRename)

abbrev src (s : DiskTree) : List Nat := s.entries c.srcDir c.srcName
abbrev dst (s : DiskTree) : List Nat := s.entries c.dstDir c.dstName

/-- Both names are the same entry. -/
def Same : Prop := (c.srcDir, c.srcName) = (c.dstDir, c.dstName)

instance : Decidable c.Same := inferInstanceAs (Decidable (_ = _))

/-- **All or nothing**, for the result of a rename and the state it leaves. -/
def AllOrNothing (s : DiskTree) : Except DiskExit Unit × DiskTree → Prop
  | (.ok _, s') => if c.Same then c.dst s' = c.dst s else c.dst s' = c.src s ∧ c.src s' = []
  | (.error (.errno _), s') => c.src s' = c.src s ∧ c.dst s' = c.dst s
  | (.error .panicked, _) => False

/-! ## §2. ext4. -/

/-- The calls into lwext4 that a rename makes, in their order. -/
inductive Ext4Call where
  | srcDirRef | dstDirRef
  | unlinkDirRef | unlinkDirClone | findDst | childRef | childClone | readDir | truncateDir
  | removeDst | truncate
  | lookupDirRef | findSrc | srcRef | srcClone | findDotDot | removeSrc | addDst
  deriving DecidableEq

variable (answer : Ext4Call → Option Nat) (s : DiskTree)

/-- A call fails with the error that is its answer. -/
def call (p : Ext4Call) : Except DiskExit Unit :=
  match answer p with
  | none => .ok ()
  | some code => .error (.errno code)

/-- `clone_ref` expects its call to succeed. -/
def cloneRef (p : Ext4Call) : Except DiskExit Unit :=
  if (answer p).isSome then .error .panicked else .ok ()

/-- `Ext4Filesystem::unlink` of the destination, up to `remove_entry`. -/
def removable (child : Nat) : Except DiskExit Unit := do
  call answer .childRef
  cloneRef answer .childClone
  if s.isDir child then
    call answer .readDir
    if s.hasChildren child then throw (.errno ENOTEMPTY)
    call answer .truncateDir
  call answer .removeDst

/-- `unlink`, up to the removal. -/
def unlinkable : Except DiskExit Nat := do
  call answer .unlinkDirRef
  cloneRef answer .unlinkDirClone
  call answer .findDst
  let child ← s.lookup c.dstDir c.dstName
  removable answer s child
  return child

/-- `Ext4Filesystem::unlink` of the destination. -/
def unlink : Except DiskExit Unit × DiskTree :=
  match c.unlinkable answer s with
  | .error x => (.error x, s)
  | .ok child =>
    (if s.lastLink child then call answer .truncate else .ok (), s.removeEntry c.dstDir c.dstName)

/-- A directory that is moved has an entry `..`. -/
def movable (src : Nat) : Except DiskExit Unit := do
  call answer .srcRef
  if s.isDir src then
    cloneRef answer .srcClone
    call answer .findDotDot

/-- The source of the rename. -/
def source : Except DiskExit Nat := do
  call answer .lookupDirRef
  call answer .findSrc
  let src ← s.lookup c.srcDir c.srcName
  movable answer s src
  return src

/-- `Ext4Filesystem::rename`, once the destination is out of the way. -/
def move : Except DiskExit Unit × DiskTree :=
  match c.source answer s with
  | .error x => (.error x, s)
  | .ok src =>
    let s := if s.isDir src then { s with parent := update s.parent src c.dstDir } else s
    match call answer .removeSrc with
    | .error x => (.error x, s)
    | .ok _ =>
      let s := s.removeEntry c.srcDir c.srcName
      match call answer .addDst with
      | .error x => (.error x, s)
      | .ok _ => (.ok (), s.addEntry c.dstDir c.dstName src)

/-- `Ext4Filesystem::rename`. -/
def ext4Rename : Except DiskExit Unit × DiskTree :=
  match (do call answer .srcDirRef; call answer .dstDirRef) with
  | .error x => (.error x, s)
  | .ok _ =>
    match c.unlink answer s with
    | (.ok _, s) => c.move answer s
    | (.error x, s) => if x = .errno ENOENT then c.move answer s else (.error x, s)

/-- What has to hold for an ext4 rename to be all or nothing. -/
def Ext4Clean : Prop :=
  answer .srcDirRef ≠ none ∨ answer .dstDirRef ≠ none ∨
  match c.unlinkable answer s with
  -- the destination is removed: nothing may fail any more, and the source is another entry
  | .ok child => (s.lastLink child → answer .truncate = none ∨ answer .truncate = some ENOENT)
      ∧ (∃ src, c.source answer (s.removeEntry c.dstDir c.dstName) = .ok src)
      ∧ answer .removeSrc = none ∧ answer .addDst = none
  | .error .panicked => False
  -- it is not; after `ENOENT` the rename goes on
  | .error (.errno code) => code = ENOENT →
    match c.source answer s with
    | .error x => x ≠ .panicked
    | .ok _ => answer .removeSrc = none → answer .addDst = none ∧ (c.Same ∨ c.dst s = [])

/-! ## §3. FAT. -/

/-- **fatfs**, on volumes in states of type `σ`.  A name is looked up without regard to
case, and may be the short name of a file.  What a call that fails leaves behind
is not said. -/
structure Fatfs (σ : Type) where
  lookup : σ → Nat → String → Option Nat
  /-- `Dir::remove`. -/
  remove : σ → Nat → String → Except Nat Unit × σ
  /-- `Dir::rename`. -/
  rename : σ → DiskRename → Except Nat Unit × σ
  /-- The file is gone under all its names, and no other is. -/
  remove_ok : ∀ v dir name v', remove v dir name = (.ok (), v') → ∃ file,
    lookup v dir name = some file
      ∧ ∀ d n, lookup v' d n = if lookup v d n = some file then none else lookup v d n
  /-- The file has its new name and no longer the old one; where both names are the
  file already, nothing happens. -/
  rename_ok : ∀ v c v', rename v c = (.ok (), v') → ∃ file,
    lookup v c.srcDir c.srcName = some file
      ∧ (lookup v c.dstDir c.dstName = none ∧ lookup v' c.dstDir c.dstName = some file
          ∧ lookup v' c.srcDir c.srcName = none
        ∨ lookup v c.dstDir c.dstName = some file ∧ v' = v)

section Fat

variable {σ : Type} (F : Fatfs σ) (v v' : σ)

abbrev fatSrc : Option Nat := F.lookup v c.srcDir c.srcName
abbrev fatDst : Option Nat := F.lookup v c.dstDir c.dstName

/-- `FatDirNode::rename`. -/
def fatRename : Except Nat Unit × σ :=
  match F.remove v c.dstDir c.dstName with
  | (.ok _, v) => F.rename v c
  | (.error code, v) => if code = ENOENT then F.rename v c else (.error code, v)

/-- Both names are the same file. -/
def FatSame : Prop := c.fatSrc F v ≠ none ∧ c.fatSrc F v = c.fatDst F v

/-- Both names are what they were. -/
def FatKept : Prop := c.fatSrc F v' = c.fatSrc F v ∧ c.fatDst F v' = c.fatDst F v

/-- **All or nothing**, on FAT. -/
def FatAllOrNothing : Except Nat Unit × σ → Prop
  | (.ok _, v') => (c.FatSame F v → c.fatDst F v' = c.fatDst F v)
      ∧ (¬ c.FatSame F v → c.fatDst F v' = c.fatSrc F v ∧ c.fatSrc F v' = none)
  | (.error _, v') => c.FatKept F v v'

/-- What has to hold for a FAT rename to be all or nothing. -/
def FatClean : Prop :=
  match F.remove v c.dstDir c.dstName with
  -- the destination is removed
  | (.ok _, v₁) => (F.rename v₁ c).1 ≠ .ok () → c.FatKept F v (F.rename v₁ c).2
  | (.error code, v₁) =>
    if code = ENOENT then
      match F.rename v₁ c with
      | (.ok _, _) => c.fatSrc F v₁ = c.fatSrc F v ∧ (c.FatSame F v ∨ c.fatDst F v₁ = none)
      | (.error _, v₂) => c.FatKept F v v₂
    else c.FatKept F v v₁

end Fat

/-! ## §4. What the steps do to the two names. -/

section Names

variable {c : DiskRename} {answer : Ext4Call → Option Nat} {s s₀ : DiskTree} {ino : Nat}

@[simp, grind =]
theorem entries_setEntries (s : DiskTree) (dir : Nat) (name : String) (l : List Nat) (d : Nat)
    (n : String) : (s.setEntries dir name l).entries d n
      = if (d, n) = (dir, name) then l else s.entries d n := by
  unfold DiskTree.setEntries
  by_cases hd : d = dir
  · by_cases hn : n = name <;> simp [hd, hn]
  · simp [hd]

/-- A sound directory. -/
def Sound (s : DiskTree) : Prop := ∀ dir name, (s.entries dir name).length ≤ 1

theorem lookup_eq_ok {dir : Nat} {name : String} (hs : (s.entries dir name).length ≤ 1)
    (h : s.lookup dir name = .ok ino) : s.entries dir name = [ino] := by
  unfold DiskTree.lookup at h
  rcases he : s.entries dir name with _ | ⟨i, _ | ⟨j, l⟩⟩ <;> simp_all

theorem dst_of_unlinkable (hs : Sound s) (h : c.unlinkable answer s = .ok ino) :
    c.dst s = [ino] := by
  simp only [unlinkable, bind_eq_ok] at h
  obtain ⟨-, -, -, -, -, -, child, hchild, -, -, h⟩ := h
  cases h
  exact lookup_eq_ok (hs _ _) hchild

theorem src_of_source (hs : Sound s) (h : c.source answer s = .ok ino) : c.src s = [ino] := by
  simp only [source, bind_eq_ok] at h
  obtain ⟨-, -, -, -, src, hsrc, -, -, h⟩ := h
  cases h
  exact lookup_eq_ok (hs _ _) hsrc

/-- `s` is `s₀`, or `s₀` without the destination. -/
@[grind cases] structure Cleared (c : DiskRename) (s₀ s : DiskTree) : Prop where
  sound : Sound s
  dst : c.dst s = c.dst s₀ ∨ c.dst s = []
  others : ∀ dir name, (dir, name) ≠ (c.dstDir, c.dstName) →
    s.entries dir name = s₀.entries dir name

theorem Cleared.refl (hs : Sound s) : Cleared c s s := ⟨hs, Or.inl rfl, fun _ _ _ => rfl⟩

theorem Cleared.removed (hs : Sound s) (hdst : c.dst s = [ino]) :
    Cleared c s (s.removeEntry c.dstDir c.dstName)
      ∧ c.dst (s.removeEntry c.dstDir c.dstName) = [] := by
  have hdst' : c.dst (s.removeEntry c.dstDir c.dstName) = [] := by simp [DiskTree.removeEntry, hdst]
  refine ⟨⟨?_, .inr hdst', ?_⟩, hdst'⟩
  · intro dir name
    have hlen := hs dir name
    grind [DiskTree.removeEntry]
  · intro dir name hne
    simp [DiskTree.removeEntry, hne]

section

variable (h : Cleared c s₀ s)
include h

/-- A source that is still there is the old one. -/
theorem Cleared.src_eq (hsrc : c.src s = [ino]) : c.src s₀ = [ino] := by grind

/-- What is left unchanged when nothing more is done. -/
theorem Cleared.unchanged_iff :
    c.src s = c.src s₀ ∧ c.dst s = c.dst s₀ ↔ c.dst s = c.dst s₀ := by grind

/-- The entry is moved to an empty destination. -/
theorem Cleared.moved_iff (hsrc : c.src s = [ino]) :
    c.AllOrNothing s₀ (.ok (), (s.removeEntry c.srcDir c.srcName).addEntry c.dstDir c.dstName ino)
      ↔ c.Same ∨ c.dst s = [] := by
  have hsrc₀ := h.src_eq hsrc
  unfold AllOrNothing DiskTree.addEntry DiskTree.removeEntry
  by_cases hsame : c.Same
  · obtain ⟨hd, hn⟩ := Prod.mk.inj hsame
    simp only [src, hd, hn] at hsrc hsrc₀
    simp [hsame, hd, hn, hsrc, hsrc₀]
  · have hne : (c.dstDir, c.dstName) ≠ (c.srcDir, c.srcName) := Ne.symm hsame
    simp [hsame, hne, hne.symm, hsrc₀, hsrc]

/-- The second half of an ext4 rename. -/
theorem move_allOrNothing_iff : c.AllOrNothing s₀ (c.move answer s) ↔
      match c.source answer s with
      | .error x => x ≠ .panicked ∧ c.dst s = c.dst s₀
      | .ok _ => if answer .removeSrc = none then answer .addDst = none ∧ (c.Same ∨ c.dst s = [])
          else c.dst s = c.dst s₀ := by
  unfold move
  cases hsource : c.source answer s with
  | error x => cases x <;> simp [AllOrNothing, h.unchanged_iff]
  | ok src =>
    have hsrc := src_of_source h.sound hsource
    dsimp only
    generalize hs' : (if s.isDir src then _ else s) = s'
    have h' : Cleared c s₀ s' ∧ c.src s' = [src] ∧ c.dst s' = c.dst s := by
      rw [← hs']
      split <;> exact ⟨⟨h.sound, h.dst, h.others⟩, hsrc, rfl⟩
    unfold call
    cases hrem : answer .removeSrc with
    | some code =>
      rw [← h'.2.2]
      exact h'.1.unchanged_iff
    | none =>
      cases hadd : answer .addDst with
      | some code => simp [AllOrNothing, DiskTree.removeEntry, h'.2.1, h.src_eq hsrc]
      | none => simp [h'.1.moved_iff h'.2.1, h'.2.2]

end

theorem ext4Rename_iff (hs : Sound s) :
    c.AllOrNothing s (c.ext4Rename answer s) ↔ c.Ext4Clean answer s := by
  unfold ext4Rename Ext4Clean
  cases hsrcDir : answer .srcDirRef with
  | some code => simp [call, hsrcDir, bind, Except.bind, AllOrNothing]
  | none =>
  cases hdstDir : answer .dstDirRef with
  | some code => simp [call, hsrcDir, hdstDir, bind, Except.bind, AllOrNothing]
  | none =>
  simp only [call, hsrcDir, hdstDir, bind, Except.bind, unlink, ne_eq, not_true_eq_false, false_or]
  cases hu : c.unlinkable answer s with
  | error x =>
    cases x with
    | panicked => simp [AllOrNothing]
    | errno code =>
      by_cases hcode : code = ENOENT
      · simp only [hcode, if_true, true_implies, move_allOrNothing_iff (.refl hs)]
        cases c.source answer s <;> simp
      · simp [hcode, AllOrNothing]
  | ok child =>
    have hdst := dst_of_unlinkable hs hu
    obtain ⟨hcleared, hgone⟩ := Cleared.removed hs hdst
    have hmove : c.AllOrNothing s (c.move answer (s.removeEntry c.dstDir c.dstName)) ↔
        (∃ src, c.source answer (s.removeEntry c.dstDir c.dstName) = .ok src)
          ∧ answer .removeSrc = none ∧ answer .addDst = none := by
      rw [move_allOrNothing_iff hcleared, hgone, hdst]
      cases c.source answer (s.removeEntry c.dstDir c.dstName) <;> simp
    cases hlast : s.lastLink child with
    | false => simp [hlast, hmove]
    | true =>
      cases htrunc : answer .truncate with
      | none => simp [hlast, hmove]
      | some code => grind [AllOrNothing]

theorem fatRename_iff {σ : Type} (c : DiskRename) (F : Fatfs σ) (v : σ) :
    c.FatAllOrNothing F v (c.fatRename F v) ↔ c.FatClean F v := by
  unfold fatRename FatClean
  rcases hremove : F.remove v c.dstDir c.dstName with ⟨_ | _, v₁⟩
  · rename_i code
    dsimp only
    split
    · rcases hrename : F.rename v₁ c with ⟨_ | _, v₂⟩
      · exact Iff.rfl
      · obtain ⟨file, hsrc, hcase⟩ := F.rename_ok v₁ c v₂ hrename
        unfold FatAllOrNothing FatSame
        grind
    · exact Iff.rfl
  · obtain ⟨file, hdst, hgone⟩ := F.remove_ok v c.dstDir c.dstName v₁ hremove
    rcases hrename : F.rename v₁ c with ⟨_ | _, v₂⟩
    · simp [FatAllOrNothing, hrename]
    · -- the source was found after the removal, so it is another file
      obtain ⟨file', hsrc, hcase⟩ := F.rename_ok v₁ c v₂ hrename
      have hsrc₀ := hgone c.srcDir c.srcName
      have hdst₀ := hgone c.dstDir c.dstName
      dsimp only
      rw [hrename]
      refine iff_of_true ?_ (fun hne => absurd rfl hne)
      unfold FatAllOrNothing FatSame
      grind

end Names

/-- One file, `f` in directory 2. -/
def oneFile : DiskTree where
  entries dir name := if dir = 2 ∧ name = "f" then [12] else []
  parent _ := 2
  isDir ino := ino == 2
  hasChildren ino := ino == 2
  lastLink _ := true

theorem oneFile_sound : Sound oneFile := by
  intro dir name
  unfold oneFile
  dsimp only
  split <;> simp

/-- A volume with at most one file, whose only name is `f`. -/
def oneName : Fatfs (Option Nat) where
  lookup v _ name := if name = "f" then v else none
  remove v _ name := if name = "f" ∧ v ≠ none then (.ok (), none) else (.error ENOENT, v)
  rename v c := if c.srcName = "f" ∧ c.dstName = "f" ∧ v ≠ none then (.ok (), v)
    else (.error ENOENT, v)
  remove_ok := by
    rintro (_ | file) dir name v' h
    · simp at h
    · exact ⟨file, by grind⟩
  rename_ok := by
    rintro (_ | file) c v' h
    · simp at h
    · exact ⟨file, by grind⟩

end DiskRename

end StarryOS.Fs
