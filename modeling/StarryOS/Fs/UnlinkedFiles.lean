/-
  StarryOS.Fs.UnlinkedFiles — FILES THAT ARE UNLINKED WHILE THEY ARE OPEN
  (`lwext4_rust/src/fs.rs`).

  `Ext4Filesystem::unlink` truncates and frees the inode as soon as its last
  name is gone.  The handles of the file stay: they address the inode BY
  NUMBER, and their dirty pages are written back whenever they are evicted or
  the last handle is closed.  The number itself may be handed out again by the
  next `create`, and then the handles of the old file write into the new one
  (`unlinked_file_is_isolated`, `reused_inode_is_written_through_the_old_handle`).
-/
import StarryOS.Fs.Volume
import StarryOS.Lib.Transition

namespace StarryOS.Fs

open Lib Function

/-! ## §1. The system. -/

/-- An ext4 volume with its inode bitmap. -/
structure Ext4 where
  vol : Volume
  inUse : Nat → Bool
  /-- How many files were created so far. -/
  created : Nat

/-- What may happen. -/
inductive Ext4Step where
  /-- `create`, with the inode number that the allocator returns. -/
  | create (ino : Nat)
  | link (k : Nat)
  | unlink (k : Nat)
  /-- Opening a name. -/
  | getOrCreate (k : Nat)
  | call (k : Nat) (op : FileOp)
  | drop (k : Nat)

/-- The link count of an inode: the names that lead to it. -/
def Volume.nlink (v : Volume) (ino : Nat) : Nat :=
  v.entries.countP (fun e => e.linked && decide (e.ino = ino))

/-- `Ext4Filesystem::unlink` of the name of entry `k`. -/
def unlinkEntry (w : Ext4) (k : Nat) (e : Entry) : Ext4 :=
  let vol := { w.vol with entries := w.vol.entries.set k { e with linked := false } }
  if vol.nlink e.ino = 0 then
    -- `truncate(0)` and `ext4_fs_free_inode`
    { w with
      vol := { vol with inodes := update vol.inodes e.ino [] }
      inUse := update w.inUse e.ino false }
  else
    { w with vol := vol }

def ext4Step (env : Env) (w : Ext4) : Ext4Step → Option Ext4
  | .create ino =>
    if w.inUse ino then none
    else some {
      vol := { w.vol with
        -- `ext4_fs_alloc_inode` clears the inode and sets its size to zero
        inodes := update w.vol.inodes ino []
        entries := w.vol.entries ++ [⟨ino, true, w.created, none, 0⟩] }
      inUse := update w.inUse ino true
      created := w.created + 1 }
  | .link k => do
    let e ← w.vol.entries[k]?
    if e.linked then
      return { w with vol := { w.vol with
        entries := w.vol.entries ++ [{ e with shared := none, handles := 0 }] } }
    else none
  | .unlink k => do
    let e ← w.vol.entries[k]?
    if e.linked then return unlinkEntry w k e else none
  | .getOrCreate k => do
    let e ← w.vol.entries[k]?
    if e.linked then
      let vol ← getOrCreate env w.vol k
      return { w with vol := vol }
    else none
  | .call k op => do
    let vol ← callEntry env w.vol k op
    return { w with vol := vol }
  | .drop k => do
    let vol ← dropHandle env w.vol k
    return { w with vol := vol }

/-- A volume without files. -/
def emptyExt4 (inodes : Nat → Bytes) : Ext4 where
  vol := { inodes := inodes, entries := [], allocs := 0, ios := 0 }
  inUse _ := false
  created := 0

/-- The entry whose handles a step goes through. -/
def Ext4Step.handle : Ext4Step → Option Nat
  | .call k _ => some k
  | .drop k => some k
  | _ => none

/-- The object can still be used: it has its name, or a handle. -/
def Entry.alive (e : Entry) : Prop := e.linked = true ∨ 0 < e.handles

/-- The last name of the file of `e` is gone. -/
def Unlinked (w : Ext4) (e : Entry) : Prop :=
  ∀ e' ∈ w.vol.entries, e'.file = e.file → e'.linked = false

instance (w : Ext4) (e : Entry) : Decidable (Unlinked w e) := by
  unfold Unlinked
  infer_instance

/-- **Isolation**: whatever is done through a handle of an unlinked file leaves
the bytes, the length and the caches of every other file as they are. -/
def UnlinkedIsolated (env : Env) (w : Ext4) : Prop :=
  ∀ (i : Ext4Step) (k : Nat) (e : Entry) (w' : Ext4), i.handle = some k →
    w.vol.entries[k]? = some e → Unlinked w e → ext4Step env w i = some w' →
    ∀ (j : Nat) (e' : Entry), w.vol.entries[j]? = some e' → e'.alive → e'.file ≠ e.file →
      w'.vol.inodes e'.ino = w.vol.inodes e'.ino ∧ w'.vol.entries[j]? = some e'

/-- `create` does not hand out a number that an open handle still addresses. -/
def numberUnused (w : Ext4) : Ext4Step → Bool
  | .create ino => w.vol.entries.all (fun e => decide (e.ino ≠ ino) || decide (e.handles = 0))
  | _ => true

/-! ## §2. Files that are alive have inodes of their own. -/

/-- No two live files share an inode. -/
@[grind cases] structure OwnInodes (w : Ext4) : Prop where
  own : ∀ (j k : Nat) (e e' : Entry), w.vol.entries[j]? = some e → w.vol.entries[k]? = some e' →
    e.alive → e'.alive → e.ino = e'.ino → e.file = e'.file
  used : ∀ (k : Nat) (e : Entry), w.vol.entries[k]? = some e → e.linked = true →
    w.inUse e.ino = true

section Invariant

variable {env : Env} {w w' : Ext4} {k : Nat} {e : Entry}

/-- An entry changes, keeps its file and its inode, and does not come to life. -/
theorem OwnInodes.replace {e' : Entry} (h : OwnInodes w) (he : w.vol.entries[k]? = some e)
    (hentries : w'.vol.entries = w.vol.entries.set k e')
    (hsame : e'.ino = e.ino ∧ e'.file = e.file) (halive : e'.alive → e.alive)
    (hlinked : e'.linked = true → e.linked = true)
    (hused : ∀ (j : Nat) (d : Entry), w'.vol.entries[j]? = some d → d.linked = true →
      w.inUse d.ino = true → w'.inUse d.ino = true) : OwnInodes w' := by
  -- every entry goes back to one of the old state with the same file and inode
  have hback : ∀ (j : Nat) (d : Entry), w'.vol.entries[j]? = some d →
      ∃ d₀, w.vol.entries[j]? = some d₀ ∧ d.ino = d₀.ino ∧ d.file = d₀.file
        ∧ (d.alive → d₀.alive) ∧ (d.linked = true → d₀.linked = true) := by grind
  refine ⟨?_, ?_⟩
  · grind
  · grind

/-- A new name: its inode belongs to its file, or to nobody who is alive. -/
theorem OwnInodes.append {name : Entry} (h : OwnInodes w)
    (hentries : w'.vol.entries = w.vol.entries ++ [name])
    (hown : ∀ (j : Nat) (d : Entry), w.vol.entries[j]? = some d → d.alive → d.ino = name.ino →
      d.file = name.file) (hname : w'.inUse name.ino = true)
    (hused : ∀ ino, w.inUse ino = true → w'.inUse ino = true) : OwnInodes w' := by
  have hcases : ∀ (j : Nat) (d : Entry), w'.vol.entries[j]? = some d →
      w.vol.entries[j]? = some d ∨ d = name := by grind
  refine ⟨?_, ?_⟩
  · grind
  · grind

theorem unlinkEntry_entries (w : Ext4) (k : Nat) (e : Entry) :
    (unlinkEntry w k e).vol.entries = w.vol.entries.set k { e with linked := false } := by
  unfold unlinkEntry
  simp only
  split
  · rfl
  · rfl

theorem unlinkEntry_used (w : Ext4) (k : Nat) (e : Entry) (j : Nat) (d : Entry)
    (hd : (unlinkEntry w k e).vol.entries[j]? = some d) (hl : d.linked = true)
    (hu : w.inUse d.ino = true) : (unlinkEntry w k e).inUse d.ino = true := by
  rw [unlinkEntry_entries] at hd
  unfold unlinkEntry
  simp only
  split
  next hzero =>
    -- with no name left on `e.ino`, `d` is a name of another inode
    have hne : d.ino ≠ e.ino := by
      intro heq
      unfold Volume.nlink at hzero
      grind
    show update w.inUse e.ino false d.ino = true
    rw [update_of_ne hne]
    exact hu
  · exact hu

/-- **Every step keeps the inodes apart** when `create` does. -/
theorem ext4Step_ownInodes {i : Ext4Step} (h : OwnInodes w) (hok : numberUnused w i = true)
    (hs : ext4Step env w i = some w') : OwnInodes w' := by
  cases i with
  | create ino =>
    obtain ⟨hfree, rfl⟩ := unless_eq_some hs
    simp only [numberUnused, List.all_eq_true, Bool.or_eq_true, decide_eq_true_eq] at hok
    refine h.append rfl ?_ (update_self _ _ _) ?_
    · -- nobody who is alive has the number: not by name, not by handle
      intro j d hd ha hino
      simp only at hino
      rcases ha with hl | hpos
      · have hu := h.used j d hd hl
        rw [hino] at hu
        exact absurd hu hfree
      · grind
    · grind
  | link k =>
    simp only [ext4Step, Option.bind_eq_bind, Option.bind_eq_some_iff,
      Option.ite_none_right_eq_some] at hs
    obtain ⟨e, he, hl, hw⟩ := hs
    cases hw
    refine h.append rfl ?_ (h.used k e he hl) (fun _ => id)
    intro j d hd ha hino
    exact h.own j k d e hd he ha (.inl hl) hino
  | unlink k =>
    simp only [ext4Step, Option.bind_eq_bind, Option.bind_eq_some_iff,
      Option.ite_none_right_eq_some] at hs
    obtain ⟨e, he, hl, hw⟩ := hs
    cases hw
    exact h.replace he (unlinkEntry_entries w k e) ⟨rfl, rfl⟩ (fun _ => .inl hl)
      (fun _ => hl) (unlinkEntry_used w k e)
  | getOrCreate k =>
    simp only [ext4Step, Option.bind_eq_bind, Option.bind_eq_some_iff,
      Option.ite_none_right_eq_some] at hs
    obtain ⟨e, he, hl, vol, hvol, hw⟩ := hs
    cases hw
    obtain ⟨e', he', rfl⟩ := getOrCreate_cases hvol
    rw [he] at he'
    cases he'
    exact h.replace he rfl ⟨rfl, rfl⟩ (fun _ => .inl hl) (fun _ => hl) (fun _ _ _ _ => id)
  | call k op =>
    obtain ⟨vol, hvol, rfl⟩ := bind_pure_eq_some hs
    obtain ⟨e, st, hopen, rfl⟩ := callEntry_cases hvol
    exact h.replace (openFile_cases hopen).1 rfl ⟨rfl, rfl⟩ id id (fun _ _ _ _ => id)
  | drop k =>
    obtain ⟨vol, hvol, rfl⟩ := bind_pure_eq_some hs
    obtain ⟨e, st, hopen, hcases⟩ := dropHandle_cases hvol
    obtain ⟨he, hpos, -⟩ := openFile_cases hopen
    rcases hcases with ⟨-, rfl⟩ | ⟨-, rfl⟩
    · exact h.replace he rfl ⟨rfl, rfl⟩ (fun _ => .inr hpos) id (fun _ _ _ _ => id)
    · exact h.replace he rfl ⟨rfl, rfl⟩ (fun _ => .inr hpos) id (fun _ _ _ _ => id)

/-! ## §3. A step through a handle stays in its file. -/

/-- What a step through a handle of entry `k` changes: the inode of `k`, and the
entry `k` itself. -/
theorem handleStep_frame {i : Ext4Step} (hi : i.handle = some k) (hs : ext4Step env w i = some w') :
    ∃ e, w.vol.entries[k]? = some e ∧ 0 < e.handles
      ∧ (∀ ino, ino ≠ e.ino → w'.vol.inodes ino = w.vol.inodes ino)
      ∧ ∀ j, j ≠ k → w'.vol.entries[j]? = w.vol.entries[j]? := by
  have hset : ∀ (e' : Entry) (j : Nat), j ≠ k → (w.vol.entries.set k e')[j]? = w.vol.entries[j]? :=
    fun e' j hj => List.getElem?_set_ne hj.symm
  cases i with
  | call k' op =>
    cases hi
    obtain ⟨vol, hvol, rfl⟩ := bind_pure_eq_some hs
    obtain ⟨e, st, hopen, rfl⟩ := callEntry_cases hvol
    obtain ⟨he, hpos, -⟩ := openFile_cases hopen
    exact ⟨e, he, hpos, fun _ hne => store_inodes_ne hne, hset _⟩
  | drop k' =>
    cases hi
    obtain ⟨vol, hvol, rfl⟩ := bind_pure_eq_some hs
    obtain ⟨e, st, hopen, hcases⟩ := dropHandle_cases hvol
    obtain ⟨he, hpos, -⟩ := openFile_cases hopen
    rcases hcases with ⟨-, rfl⟩ | ⟨-, rfl⟩
    · exact ⟨e, he, hpos, fun _ _ => rfl, hset _⟩
    · exact ⟨e, he, hpos, fun _ hne => store_inodes_ne hne, hset _⟩
  | create ino | link j | unlink j | getOrCreate j => cases hi

theorem OwnInodes.isolated (h : OwnInodes w) : UnlinkedIsolated env w := by
  intro i k e w' hi he _ hs j e' he' ha hfile
  obtain ⟨e₀, he₀, hpos, hinodes, hentries⟩ := handleStep_frame hi hs
  rw [he] at he₀
  cases he₀
  have hino : e'.ino ≠ e.ino := by
    intro heq
    exact hfile (h.own j k e' e he' he ha (.inr hpos) heq)
  grind

end Invariant

/-! ## §4. Whole runs. -/

/-- **AN UNLINKED FILE IS ISOLATED in every run in which `create` hands out only
numbers that no open handle addresses.** -/
theorem unlinked_file_is_isolated (env : Env) (inodes : Nat → Bytes) (w : Ext4)
    (hw : Reach (ext4Step env) (fun w i => numberUnused w i = true) (emptyExt4 inodes) w) :
    UnlinkedIsolated env w := by
  have hinit : OwnInodes (emptyExt4 inodes) := ⟨fun j _ e _ he => absurd he (by simp [emptyExt4]),
      fun k e he => absurd he (by simp [emptyExt4])⟩
  exact (hw.invariant OwnInodes hinit (fun _ _ _ => ext4Step_ownInodes)).isolated

/-- A file is unlinked while it is open, another one is created with another
number, and the old handle writes. -/
theorem open_unlinked_file_writes_alone :
    ∃ w, Reach (ext4Step (faultless false)) (fun w i => numberUnused w i = true)
        (emptyExt4 (fun _ => [])) w
      ∧ w.vol.inodes 7 = [0] ∧ w.vol.inodes 8 = [] ∧ UnlinkedIsolated (faultless false) w := by
  obtain ⟨w, hw, hc⟩ := exists_reach_guarded (ext4Step (faultless false))
    (emptyExt4 (fun _ => [])) numberUnused
    [.create 7, .getOrCreate 0, .unlink 0, .create 8, .call 0 (.writeAt [65] 0)]
    (fun w => w.vol.inodes 7 = [0] ∧ w.vol.inodes 8 = [])
    (by decide +kernel)
  exact ⟨w, hw, hc.1, hc.2, unlinked_file_is_isolated (faultless false) (fun _ => []) w hw⟩

/-- Entry `k` is unlinked, entry `j` is the name of another file, and a step
through a handle of `k` changes the inode of `j`. -/
def reaches (env : Env) (w : Ext4) (i : Ext4Step) (k j : Nat) : Bool :=
  match w.vol.entries[k]?, w.vol.entries[j]?, ext4Step env w i with
  | some e, some e', some w' => decide (i.handle = some k) && decide (Unlinked w e) && e'.linked
      && decide (e'.file ≠ e.file) && decide (w'.vol.inodes e'.ino ≠ w.vol.inodes e'.ino)
  | _, _, _ => false

theorem not_isolated_of_reaches {env : Env} {w : Ext4} {i : Ext4Step} {k j : Nat}
    (h : reaches env w i k j = true) : ¬ UnlinkedIsolated env w := by
  intro hiso
  unfold reaches at h
  split at h
  next e e' w' he he' hs =>
    simp only [Bool.and_eq_true, decide_eq_true_eq] at h
    obtain ⟨⟨⟨⟨hi, hun⟩, hl⟩, hfile⟩, hne⟩ := h
    exact hne (hiso i k e w' hi he hun hs j e' he' (.inl hl) hfile).1
  · cases h

/-- **The number is reused while the old handle is open**: its write makes the
new file one byte long, and its flush puts the byte there. -/
theorem reused_inode_is_written_through_the_old_handle :
    ∃ w, Reach (ext4Step (faultless false)) Always (emptyExt4 (fun _ => [])) w
      ∧ ¬ UnlinkedIsolated (faultless false) w := by
  obtain ⟨w, hw, hc⟩ := exists_reach (ext4Step (faultless false)) (emptyExt4 (fun _ => []))
    [.create 7, .getOrCreate 0, .unlink 0, .create 7, .call 0 (.writeAt [65] 0)]
    (fun w => reaches (faultless false) w (.drop 0) 0 1) (by decide +kernel)
  exact ⟨w, hw, not_isolated_of_reaches hc⟩

end StarryOS.Fs
