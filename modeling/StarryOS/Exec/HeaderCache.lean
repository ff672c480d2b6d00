/-
  StarryOS.Exec.HeaderCache — WHICH PROGRAM DOES `execve` RUN?

  `ELF_LOADER` keeps the headers of 32 files and never looks at a file again
  while its entry is there.  The segments it maps are read from the file as it
  is NOW, at the places where they were when the headers were read.

  As long as the stores leave the headers of cached files alone, every cached
  entry says what its file says (`CacheSound`), and a load builds the image that
  a loader without cache would build.
-/
import StarryOS.Lib.Transition
import StarryOS.Exec.Elf64

namespace StarryOS.Exec

open Lib Mm Elf Function

/-! ## §1. Files that change between loads. -/

/-- The contents of all files, and the loader's state. -/
structure Machine where
  files : Nat → Bytes
  load : LoadState

/-- Writes to files, and loads. -/
inductive MachineOp where
  | writeAt (loc off : Nat) (bytes : Bytes)
  | setLen (loc len : Nat)
  /-- `ElfLoader::load` into space `s`. -/
  | load (env : LoadEnv) (s : Nat) (path : Str)
  /-- `clear_elf_cache`. -/
  | clearElfCache
  /-- Whatever else happens to the address spaces. -/
  | memory (mm : MmState LoadMem Backend)

section System

variable (lib : Elf) (cfg : Config) (names : FileSystem)

variable (m : Machine)

/-- The file system with the contents of now. -/
def Machine.fs : FileSystem := { names with content := m.files }

/-- A file gets a new content. -/
def Machine.store (loc : Nat) (content : Bytes) : Machine :=
  { m with files := update m.files loc content }

/-- What each does. -/
def machineStep : MachineOp → Option Machine
  | .writeAt loc off bytes => some (m.store loc (overwrite 0 (m.files loc) off bytes))
  | .setLen loc len => some (m.store loc (resize 0 len (m.files loc)))
  | .load env s path =>
    some { m with load := stateAfter (load lib cfg env (m.fs names) s path) m.load }
  | .clearElfCache => some { m with load := { m.load with elfCache := [] } }
  | .memory mm => some { m with load := { m.load with mm := mm } }

instance (fs : FileSystem) (e : ElfCacheEntry) : Decidable (NamesItself lib fs e) :=
  decidable_of_iff ((interpreterPath lib fs e).any
    (fun path => decide (fs.resolve path = .ok e.loc)) = true) (by
      unfold NamesItself
      rw [Option.any_eq_true]
      simp only [decide_eq_true_eq])

/-- The new content of a cached file has the headers that are cached. -/
def Machine.sameHeaders (loc : Nat) (content : Bytes) : Bool :=
  m.load.elfCache.all (fun e => e.loc ≠ loc || headersOf lib content = some e.elf)

/-- The program that would be loaded is not its own interpreter. -/
def Machine.otherInterpreter (path : Str) : Bool :=
  match names.resolve path with
  | .error _ => true
  | .ok loc =>
    match headersOf lib (m.files loc) with
    | none => true
    | some elf => decide (¬ NamesItself lib (m.fs names) ⟨loc, elf⟩)

/-- **The step leaves the headers of cached files alone**, and a program that is
loaded is not its own interpreter. -/
def keepsHeaders : MachineOp → Bool
  | .writeAt loc off bytes => m.sameHeaders lib loc (overwrite 0 (m.files loc) off bytes)
  | .setLen loc len => m.sameHeaders lib loc (resize 0 len (m.files loc))
  | .load _ _ path => m.otherInterpreter lib names path
  | .clearElfCache => true
  | .memory _ => true

end System

/-! ## §2. The cache says what the files say. -/

/-- Every cached entry has the headers that its file has now. -/
def CacheSound (lib : Elf) (fs : FileSystem) (cache : List ElfCacheEntry) : Prop :=
  ∀ e ∈ cache, headersOf lib (fs.content e.loc) = some e.elf

section Sound

variable {lib : Elf} {cfg : Config} {env : LoadEnv} {fs : FileSystem} {st : LoadState} {s : Nat}

/-- With a sound cache an entry is what the file says. -/
theorem CacheSound.entryOf_eq {cache : List ElfCacheEntry} (h : CacheSound lib fs cache)
    (loc : Nat) : entryOf lib fs cache loc = entryOf lib fs [] loc := by
  unfold entryOf
  cases hfind : cache.find? (fun e => decide (e.loc = loc)) with
  | none => rfl
  | some e =>
    have hloc : e.loc = loc := by simpa using List.find?_some hfind
    have helf := h e (List.mem_of_find?_eq_some hfind)
    rw [hloc] at helf
    show some e = _
    rw [helf, ← hloc]
    rfl

theorem CacheSound.imageOf_eq {cache : List ElfCacheEntry} (h : CacheSound lib fs cache)
    (sp : AddrSpace Backend) (e : ElfCacheEntry) :
    imageOf lib cfg fs cache sp e = imageOf lib cfg fs [] sp e := by
  unfold imageOf partsOf
  simp only [h.entryOf_eq]

/-- An entry brought to the front was cached or is read from the file. -/
theorem CacheSound.front {cache cache' : List ElfCacheEntry} {loc : Nat}
    (h : CacheSound lib fs cache) (hfront : frontOf lib fs cache loc = some cache') :
    CacheSound lib fs cache' := by
  obtain ⟨e, tail, hentry, hloc, rfl, htail, -⟩ := frontOf_eq_some hfront
  intro x hx
  rcases List.mem_cons.mp hx with rfl | hx
  · -- the entry in front is the one of the file, cached or not
    rw [h.entryOf_eq] at hentry
    unfold entryOf at hentry
    rw [List.find?_nil, Option.map_eq_some_iff] at hentry
    obtain ⟨elf, hheaders, rfl⟩ := hentry
    exact hheaders
  · exact h x (htail x hx)

/-! ## §3. Loading keeps the cache sound. -/

/-- The loader's cache is sound. -/
def SoundIn (lib : Elf) (fs : FileSystem) (st : LoadState) : Prop := CacheSound lib fs st.elfCache

theorem SoundIn.congr {st' : LoadState} (h : SoundIn lib fs st)
    (hcache : st'.elfCache = st.elfCache) : SoundIn lib fs st' := by
  unfold SoundIn
  rw [hcache]
  exact h

theorem onSpace_sound {α : Type} (m : SpaceM α) : Preserves (SoundIn lib fs) (onSpace m) := by
  intro st h
  unfold ends
  rw [wp_onSpace]
  exact wp_of_forall (fun _ _ => h) (fun _ _ => h)

theorem readFile_sound (loc n off : Nat) :
    Preserves (SoundIn lib fs) (readFile env fs loc n off) := fun _ h =>
  wp_mono (readFile_spec n off) (fun _ _ hpost => h.congr hpost.2.2)
    (fun _ _ hpost => h.congr hpost.2.2.2)

theorem bringToFront_sound (loc : Nat) :
    Preserves (SoundIn lib fs) (bringToFront lib env fs loc) := by
  intro st h
  refine wp_mono bringToFront_spec ?_ ?_
  · rintro r st' ⟨-, -, hr⟩
    cases r with
    | ok u => exact CacheSound.front h hr
    | error data => exact h.congr hr.1
  · intro _ st' hpost
    exact h.congr hpost.1.2

/-- **A load keeps the cache sound**, wherever it ends. -/
theorem load_sound (path : Str) : Preserves (SoundIn lib fs) (load lib cfg env fs s path) := by
  refine .bind (ofExcept_preserves _) (fun loc => .bind (bringToFront_sound loc) (fun r => ?_))
  split
  · exact .pure _
  · exact .bind (fun st h => loadImage_ends readFile_sound bringToFront_sound
      (fun _ => onSpace_sound _) (onSpace_sound _ st h)) (fun _ => .pure _)

end Sound

/-! ## §4. Whole runs. -/

/-- **A load that returns has built the image of the file as it is now.** -/
def LoadsCurrent (lib : Elf) (cfg : Config) (env : LoadEnv) (fs : FileSystem) (s : Nat)
    (path : Str) (st : LoadState) : Prop :=
  ∀ sp r st', st.mm.spaces[s]? = some sp → load lib cfg env fs s path st = .ok (.ok r) st' →
    ∃ loc elf sp', fs.resolve path = .ok loc ∧ headersOf lib (fs.content loc) = some elf
      ∧ imageOf lib cfg fs [] sp ⟨loc, elf⟩ = some (sp', r) ∧ st'.mm.spaces[s]? = some sp'

section Runs

variable {lib : Elf} {cfg : Config} {names : FileSystem}

/-- Every cached entry says what its file says. -/
def Machine.Sound (lib : Elf) (names : FileSystem) (m : Machine) : Prop :=
  SoundIn lib (m.fs names) m.load

theorem Machine.Sound.store {m : Machine} (h : m.Sound lib names) {loc : Nat}
    {content : Bytes} (hsame : m.sameHeaders lib loc content = true) :
    (m.store loc content).Sound lib names := by
  intro e he
  have hkept := List.all_eq_true.mp hsame e he
  show headersOf lib (update m.files loc content e.loc) = some e.elf
  -- a cached entry of the file that changed, or of another one
  by_cases hloc : e.loc = loc
  · simpa [hloc] using hkept
  · rw [update_of_ne hloc]
    exact h e he

theorem machineStep_sound {m m' : Machine} {op : MachineOp} (h : m.Sound lib names)
    (hok : keepsHeaders lib names m op = true) (hs : machineStep lib cfg names m op = some m') :
    m'.Sound lib names := by
  cases op with
  | writeAt loc off bytes | setLen loc len =>
    cases hs
    exact h.store hok
  | load env s path =>
    cases hs
    exact stateAfter_of_ends (load_sound path m.load h)
  | clearElfCache =>
    cases hs
    exact fun e he => absurd he (by simp)
  | memory mm =>
    cases hs
    exact h

/-- With a sound cache a load is what it would be without one. -/
theorem Machine.Sound.loadsCurrent {m : Machine} (h : m.Sound lib names) {env : LoadEnv} {s : Nat}
    {path : Str} (hother : m.otherInterpreter lib names path = true) :
    LoadsCurrent lib cfg env (m.fs names) s path m.load := by
  intro sp r st' hsp hrun
  obtain ⟨e, tail, ⟨loc, hloc, hfront⟩, sp', himage, hsp'⟩ :=
    wp_of_run hrun (load_spec hsp path) r rfl
  obtain ⟨e', tail', hentry, heloc, hcons, -⟩ := frontOf_eq_some hfront
  obtain ⟨rfl, rfl⟩ := List.cons.inj hcons
  obtain rfl := heloc
  -- the entry in front has the headers of now, and so has the interpreter's
  have hsound := CacheSound.front h hfront
  have helf : headersOf lib (m.files e.loc) = some e.elf := hsound e (.head _)
  have hself : ¬ NamesItself lib (m.fs names) e := by
    have hloc' : names.resolve path = .ok e.loc := hloc
    unfold Machine.otherInterpreter at hother
    simp only [hloc', helf, decide_eq_true_eq] at hother
    exact hother
  rw [imageAt_eq hself, hsound.imageOf_eq] at himage
  exact ⟨e.loc, e.elf, sp', hloc, helf, himage, hsp'⟩

/-- **`execve` RUNS THE FILE THAT IS ON DISK NOW**, in every run whose stores leave
the headers of cached files alone. -/
theorem load_maps_current_headers (files : Nat → Bytes) (mm : MmState LoadMem Backend)
    (reads : Nat) (m : Machine)
    (hm : Reach (machineStep lib cfg names) (fun m op => keepsHeaders lib names m op = true)
      ⟨files, ⟨mm, [], reads⟩⟩ m) (env : LoadEnv) (s : Nat) (path : Str)
    (hload : keepsHeaders lib names m (.load env s path) = true) :
    LoadsCurrent lib cfg env (m.fs names) s path m.load := by
  have hinit : Machine.Sound lib names ⟨files, ⟨mm, [], reads⟩⟩ := fun e he => absurd he (by simp)
  have hsound := hm.invariant (Machine.Sound lib names) hinit (fun _ _ _ => machineStep_sound)
  exact hsound.loadsCurrent hload

end Runs

/-- One program. -/
def programDisk : FileSystem := .ofFiles [(['/', 'e'], segmentFile 0 0)]

def programMachine : Machine := ⟨programDisk.content, .fresh⟩

/-- The program is loaded, bytes behind its headers are written, and it is loaded
again. -/
theorem rewritten_body_is_loaded : ∃ m, Reach (machineStep Elf.elf64 .riscv64 programDisk)
      (fun m op => keepsHeaders Elf.elf64 programDisk m op = true) programMachine m
    ∧ m.load.elfCache.length = 1
    ∧ LoadsCurrent Elf.elf64 .riscv64 .calm (m.fs programDisk) 0 ['/', 'e'] m.load := by
  obtain ⟨m, hm, hc⟩ := exists_reach_guarded (machineStep elf64 .riscv64 programDisk)
    programMachine (keepsHeaders elf64 programDisk)
    [.load .calm 0 ['/', 'e'], .writeAt 0 120 [1, 2, 3]]
    (fun m => m.load.elfCache.length = 1
      ∧ keepsHeaders elf64 programDisk m (.load .calm 0 ['/', 'e']))
    (by decide +kernel)
  exact ⟨m, hm, hc.1, load_maps_current_headers programDisk.content LoadState.fresh.mm 0 m hm
    .calm 0 ['/', 'e'] hc.2⟩

def ranges (sp : AddrSpace Backend) : List (Nat × Nat) :=
  sp.areas.areas.map (fun a => (a.start, a.stop))

/-- The ranges that a load has mapped, and those of the image of the file. -/
def mappedAndCurrent (m : Machine) (path : Str) :
    Option (Option (List (Nat × Nat)) × Option (List (Nat × Nat))) :=
  match load Elf.elf64 .riscv64 .calm (m.fs programDisk) 0 path m.load, m.load.mm.spaces[0]?,
      programDisk.resolve path with
  | .ok (.ok _) st', some sp, .ok loc =>
    some (st'.mm.spaces[0]?.map ranges, (headersOf Elf.elf64 (m.files loc)).bind (fun elf =>
      (imageOf Elf.elf64 .riscv64 (m.fs programDisk) [] sp ⟨loc, elf⟩).map
        (fun image => ranges image.1)))
  | _, _, _ => none

theorem not_loadsCurrent {m : Machine} {path : Str} {mapped current : Option (List (Nat × Nat))}
    (h : mappedAndCurrent m path = some (mapped, current)) (hne : mapped ≠ current) :
    ¬ LoadsCurrent elf64 .riscv64 .calm (m.fs programDisk) 0 path m.load := by
  intro hloads
  unfold mappedAndCurrent at h
  split at h
  next r st' sp loc hrun hsp hloc =>
    obtain ⟨rfl, rfl⟩ := Prod.mk.inj (Option.some.inj h)
    obtain ⟨loc', elf, sp', hloc', helf, himage, hsp'⟩ := hloads sp r st' hsp hrun
    obtain rfl := Except.ok.inj (hloc.symm.trans hloc')
    apply hne
    have helf' : headersOf elf64 (m.files loc) = some elf := helf
    rw [hsp', helf', Option.bind_some, himage]
    rfl
  · cases h

/-- **The old program runs.**  The file is rewritten in place with a segment two
pages higher; the next load maps the segment where it was. -/
theorem rewritten_program_keeps_old_segments : ∃ m,
    Reach (machineStep Elf.elf64 .riscv64 programDisk) Always programMachine m
    ∧ ¬ LoadsCurrent Elf.elf64 .riscv64 .calm (m.fs programDisk) 0 ['/', 'e'] m.load := by
  obtain ⟨m, hm, hc⟩ := exists_reach (machineStep elf64 .riscv64 programDisk)
    programMachine [.load .calm 0 ['/', 'e'], .writeAt 0 0 (segmentFile 0 0x2000)]
    (fun m => mappedAndCurrent m ['/', 'e'] = some
      (some [(0x1000, 0x2000), (0x60001000, 0x60002000)],
       some [(0x3000, 0x4000), (0x60001000, 0x60002000)]))
    (by decide +kernel)
  exact ⟨m, hm, not_loadsCurrent hc (by decide)⟩

end StarryOS.Exec
