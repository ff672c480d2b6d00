/-
  StarryOS.Exec.LoaderRules — WHAT THE LOADER DOES, piece by piece.

  `imageOf` describes the image of a file apart from the program that builds
  it: the regions of trampoline, program and interpreter, mapped one after the
  other into an empty space.  `loadImage_spec` walks through `loadImage` once
  and says at every exit what must have been the case:

    • it returned — then it built the image, and the headers are `Sane`,
    • it failed — then they are sane and have no image, or a read failed, or
      memory ran out,
    • it panicked — then they are not sane.

  `Sane` follows the order of the checks: an assertion has to hold IF THE LOADER
  GETS THERE, and an error that comes first hides it.
-/
import StarryOS.Exec.SpaceRules

namespace StarryOS.Exec

open Lib Mm Option

/-- Some read of a file fails. -/
def LoadEnv.ReadFails (env : LoadEnv) : Prop := ∃ k e, env.readErr k = some e

/-- No read fails, and there is memory. -/
def LoadEnv.steady (checks : Bool) : LoadEnv := ⟨fun _ => none, fun _ => true, checks⟩

theorem LoadEnv.not_fails_steady (checks : Bool) :
    ¬ ((LoadEnv.steady checks).ReadFails ∨ (LoadEnv.steady checks).OutOfMemory) := by
  rintro (⟨_, _, herr⟩ | ⟨_, hmm⟩)
  · cases herr
  · cases hmm

/-! ## §1. Headers. -/

variable (lib : Elf) (cfg : Config) (env : LoadEnv) (checks : Bool) (fs : FileSystem)
  (cache : List ElfCacheEntry) {st : LoadState} {s : Nat} (sp : AddrSpace Backend)
  (e : ElfCacheEntry) (tail : List ElfCacheEntry) (loc : Nat)

/-- The headers that a file contains. -/
def headersOf (content : Bytes) : Option ElfHeaders :=
  let data := slice content 0 4096
  match lib.phRange data with
  | none => none
  | some (start, stop) =>
    if stop < start then none
    else if stop ≤ data.length then lib.build data (slice data start (stop - start))
    else lib.build data (resize 0 (stop - start) (slice content start (stop - start)))

/-- The range of the program headers does not end before it starts. -/
def RangeOrdered (content : Bytes) : Prop :=
  ∀ start stop, lib.phRange (slice content 0 4096) = some (start, stop) → start ≤ stop

/-- The entry that the loader uses for a file: the cached one, if there is one. -/
def entryOf : Option ElfCacheEntry :=
  match cache.find? (fun e => decide (e.loc = loc)) with
  | some e => some e
  | none => (headersOf lib (fs.content loc)).map (ElfCacheEntry.mk loc)

/-- The second read of the headers failed: this looks like a file without headers. -/
def Misread : Prop :=
  env.ReadFails ∧ lib.phRange (slice (fs.content loc) 0 4096) ≠ none

/-- What reading the headers of `loc` has found. -/
def HeadersRead : Except Bytes ElfCacheEntry → Prop
  | .ok e => e.loc = loc ∧ headersOf lib (fs.content loc) = some e.elf
  | .error data => data = slice (fs.content loc) 0 4096
      ∧ (headersOf lib (fs.content loc) = none ∨ Misread lib env fs loc)

/-- The file is not cached and its header is malformed. -/
def Unreadable : Prop :=
  cache.find? (fun e => decide (e.loc = loc)) = none ∧ ¬ RangeOrdered lib (fs.content loc)

/-- The cache with the entry of `loc` in front. -/
def frontOf : Option (List ElfCacheEntry) :=
  match touch loc cache with
  | some cache' => some cache'
  | none => (headersOf lib (fs.content loc)).map (fun elf => insertEntry ⟨loc, elf⟩ cache)

section Headers

variable {lib env fs cache loc}

theorem wp_onSpace {α : Type} {m : SpaceM α} {Q : α → LoadState → Prop}
    {E : Stop → LoadState → Prop} :
    wp (onSpace m) st Q E ↔ wp m st.mm (fun a mm => Q a { st with mm := mm })
      (fun e mm => E e { st with mm := mm }) := by
  unfold wp onSpace
  cases m st.mm with
  | ok a mm | error e mm => exact Iff.rfl

theorem readFile_spec (n off : Nat) : wp (readFile env fs loc n off) st
      (fun r st' => r = slice (fs.content loc) off n ∧ st'.mm = st.mm ∧ st'.elfCache = st.elfCache)
      (fun e st' => e ≠ .halt ∧ env.ReadFails ∧ st'.mm = st.mm ∧ st'.elfCache = st.elfCache) := by
  unfold readFile
  simp only [wp_bind, wp_get, wp_set]
  cases herr : env.readErr st.reads with
  | some e => exact ⟨by simp, ⟨_, e, herr⟩, rfl, rfl⟩
  | none => exact ⟨rfl, rfl, rfl⟩

/-- The closure of the loader: headers, or the data that has none. -/
theorem wp_built {ph : Bytes} {st' : LoadState} {E : Stop → LoadState → Prop}
    (hordered : RangeOrdered lib (fs.content loc))
    (hph : lib.build (slice (fs.content loc) 0 4096) ph = headersOf lib (fs.content loc))
    (hmm : st'.mm = st.mm) (hcache : st'.elfCache = st.elfCache) :
    wp (match lib.build (slice (fs.content loc) 0 4096) ph with
      | some elf => (return .ok ⟨loc, elf⟩ : LoadM (Except Bytes ElfCacheEntry))
      | none => return .error (slice (fs.content loc) 0 4096)) st'
      (fun r st' => (st'.mm = st.mm ∧ st'.elfCache = st.elfCache)
        ∧ RangeOrdered lib (fs.content loc) ∧ HeadersRead lib env fs loc r) E := by
  rw [hph]
  cases hheaders : headersOf lib (fs.content loc) with
  | some elf => exact ⟨⟨hmm, hcache⟩, hordered, rfl, hheaders⟩
  | none => exact ⟨⟨hmm, hcache⟩, hordered, rfl, .inl hheaders⟩

/-- **`ElfCacheEntry::load`** returns the headers of the file. -/
theorem loadEntry_spec : wp (loadEntry lib env fs loc) st
      (fun r st' => (st'.mm = st.mm ∧ st'.elfCache = st.elfCache)
        ∧ RangeOrdered lib (fs.content loc) ∧ HeadersRead lib env fs loc r)
      (fun e st' => (st'.mm = st.mm ∧ st'.elfCache = st.elfCache)
        ∧ (e = .halt → ¬ RangeOrdered lib (fs.content loc)) ∧ (e ≠ .halt → env.ReadFails)) := by
  unfold loadEntry
  rw [wp_bind]
  refine wp_mono (readFile_spec 4096 0) ?_ ?_
  · rintro data st₁ ⟨rfl, hmm, hcache⟩
    cases hrange : lib.phRange (slice (fs.content loc) 0 4096) with
    | none =>
      refine ⟨⟨hmm, hcache⟩, fun start stop h => absurd (hrange.symm.trans h) (by simp), rfl,
        .inl ?_⟩
      unfold headersOf
      simp only [hrange]
    | some range =>
      obtain ⟨start, stop⟩ := range
      apply wp_ite
      · intro hlt
        refine ⟨⟨hmm, hcache⟩, ?_, absurd rfl⟩
        intro _ hordered
        exact absurd (hordered start stop hrange) (by omega)
      intro hle
      have hordered : RangeOrdered lib (fs.content loc) := by
        intro start' stop' h
        obtain ⟨rfl, rfl⟩ := Prod.mk.inj (some.inj (hrange.symm.trans h))
        omega
      apply wp_ite
      · intro hfits
        refine wp_built hordered ?_ hmm hcache
        unfold headersOf
        simp only [hrange, if_neg hle, if_pos hfits]
      intro hfits
      rw [wp_tryCatch, wp_bind]
      refine wp_mono (readFile_spec _ _) ?_ ?_
      · rintro bytes st₂ ⟨rfl, hmm₂, hcache₂⟩
        refine wp_built hordered ?_ (hmm₂.trans hmm) (hcache₂.trans hcache)
        unfold headersOf
        simp only [hrange, if_neg hle, if_neg hfits]
      · rintro e st₂ ⟨hne, hfails, hmm₂, hcache₂⟩
        cases e with
        | halt => exact absurd rfl hne
        | err code =>
          refine ⟨⟨hmm₂.trans hmm, hcache₂.trans hcache⟩, hordered, rfl, .inr ⟨hfails, ?_⟩⟩
          rw [hrange]
          simp
  · grind

/-- The entry of `loc` is in front, and an entry of another file that was in
front is behind it. -/
theorem frontOf_eq_some {cache' : List ElfCacheEntry} (h : frontOf lib fs cache loc = some cache') :
    ∃ e tail, entryOf lib fs cache loc = some e ∧ e.loc = loc ∧ cache' = e :: tail
      ∧ (∀ x ∈ tail, x ∈ cache)
      ∧ ∀ x rest, cache = x :: rest → x.loc ≠ loc → ∃ rest', tail = x :: rest' := by
  unfold frontOf touch at h
  generalize hfind : cache.find? (fun e => decide (e.loc = loc)) = p at h
  cases p with
  | some e =>
    have hloc : e.loc = loc := by simpa using List.find?_some hfind
    refine ⟨e, _, ?_, hloc, (some.inj h).symm, fun x => List.mem_of_mem_eraseP, ?_⟩
    · unfold entryOf
      rw [hfind]
    · grind
  | none =>
    generalize hheaders : headersOf lib (fs.content loc) = q at h
    cases q with
    | none => cases h
    | some elf =>
      refine ⟨⟨loc, elf⟩, cache.take 31, ?_, rfl, (some.inj h).symm,
        fun x => List.mem_of_mem_take, ?_⟩
      · unfold entryOf
        rw [hfind, hheaders]
        rfl
      · intro x rest hcache _
        rw [hcache]
        exact ⟨_, rfl⟩

/-- A file that is not cached has an entry if it has headers. -/
theorem entryOf_of_touch (h : touch loc cache = none) :
    entryOf lib fs cache loc = (headersOf lib (fs.content loc)).map (ElfCacheEntry.mk loc) := by
  unfold touch at h
  rw [map_eq_none_iff] at h
  unfold entryOf
  rw [h]

/-- **Looking a file up** brings its entry to the front, or finds no headers. -/
theorem bringToFront_spec : wp (bringToFront lib env fs loc) st
      (fun r st' => st'.mm = st.mm ∧ ¬ Unreadable lib fs st.elfCache loc ∧ match r with
        | .ok () => frontOf lib fs st.elfCache loc = some st'.elfCache
        | .error data => st'.elfCache = st.elfCache ∧ data = slice (fs.content loc) 0 4096
            ∧ touch loc st.elfCache = none
            ∧ (headersOf lib (fs.content loc) = none ∨ Misread lib env fs loc))
      (fun e st' => (st'.mm = st.mm ∧ st'.elfCache = st.elfCache)
        ∧ (e = .halt → Unreadable lib fs st.elfCache loc) ∧ (e ≠ .halt → env.ReadFails)) := by
  unfold bringToFront
  rw [wp_bind, wp_get]
  cases htouch : touch loc st.elfCache with
  | some cache =>
    simp only [wp_bind, wp_modify, wp_pure]
    refine ⟨trivial, ?_, ?_⟩
    · rintro ⟨hfind, -⟩
      unfold touch at htouch
      rw [hfind] at htouch
      cases htouch
    · unfold frontOf
      rw [htouch]
  | none =>
    have hfind : st.elfCache.find? (fun e => decide (e.loc = loc)) = none := by
      unfold touch at htouch
      rw [map_eq_none_iff] at htouch
      exact htouch
    simp only [wp_bind]
    refine wp_mono loadEntry_spec ?_ ?_
    · rintro r st₁ ⟨⟨hmm, hcache⟩, hordered, hread⟩
      have hreadable : ¬ Unreadable lib fs st.elfCache loc := fun hbad => hbad.2 hordered
      cases r with
      | ok e =>
        obtain ⟨hloc, hheaders⟩ := hread
        simp only [wp_bind, wp_modify, wp_pure]
        refine ⟨hmm, hreadable, ?_⟩
        unfold frontOf
        rw [htouch, hheaders, hcache, ← hloc]
        rfl
      | error data =>
        obtain ⟨hdata, hnone⟩ := hread
        exact ⟨hmm, hreadable, hcache, hdata, trivial, hnone⟩
    · rintro e st₁ ⟨hsame, hhalt, herr⟩
      exact ⟨hsame, fun heq => ⟨hfind, hhalt heq⟩, herr⟩

end Headers

/-! ## §2. Segments. -/

/-- The regions of the image. -/
def trampoline : Region :=
  ⟨cfg.signalTrampoline, 4096, ⟨true, false, true, true⟩, .linear⟩

/-- The region that `map_elf` maps for a `PT_LOAD` header, on `usize`. -/
def segmentRegion (base loc : Nat) (ph : ProgramHeader) : Region :=
  let vaddr := (ph.virtualAddr + base) % 2 ^ 64
  let segPad := vaddr % 4096
  let sum := ((ph.memSize + segPad) % 2 ^ 64 + 4096) % 2 ^ 64
  { start := vaddr - segPad
    size := (sum + (2 ^ 64 - 1)) % 2 ^ 64 / 4096 * 4096
    flags := mappingFlags ph
    backend := .cow vaddr loc ph.offset ((ph.offset + ph.fileSize) % 2 ^ 64) }

/-- Its `PT_LOAD` headers. -/
def ElfCacheEntry.loads (e : ElfCacheEntry) : List ProgramHeader :=
  e.elf.ph.filter (fun ph => decide (ph.type = .load))

def segmentRegions (base : Nat) (e : ElfCacheEntry) : List Region :=
  e.loads.map (segmentRegion base e.loc)

/-- A segment that passes the assertion of `map_elf`, and in a build with `checks`
the overflow checks. -/
def SegmentSane (base : Nat) (ph : ProgramHeader) : Prop :=
  (ph.virtualAddr + base) % 2 ^ 64 % 4096 = ph.offset % 4096
    ∧ (checks = true → ph.virtualAddr + base < 2 ^ 64
      ∧ ph.memSize + (ph.virtualAddr + base) % 2 ^ 64 % 4096 + 4096 < 2 ^ 64
      ∧ ph.offset + ph.fileSize < 2 ^ 64)

/-- **Every segment that `map_elf` gets to is sane**: those before it could be
mapped. -/
def SegmentsSane (base loc : Nat) (sp : AddrSpace Backend) (phs : List ProgramHeader) : Prop :=
  ∀ pre ph post, phs = pre ++ ph :: post →
    addRegions sp (pre.map (segmentRegion base loc)) ≠ none → SegmentSane checks base ph

/-- An error exit.  A panic says that something is not sane; an error, that all is
sane and there is no image, or that the environment has failed. -/
def Refused (sane noImage failed : Prop) : Stop → Prop
  | .halt => ¬ sane
  | .err _ => sane ∧ noImage ∨ failed

theorem refused_of_ne {sane noImage failed : Prop} {err : Stop} (hne : err ≠ .halt)
    (h : sane ∧ noImage ∨ failed) : Refused sane noImage failed err := by
  cases err with
  | halt => exact absurd rfl hne
  | err code => exact h

theorem Refused.imp {sane sane' noImage noImage' failed failed' : Prop} {err : Stop}
    (h : Refused sane noImage failed err) (hsane : sane' → sane)
    (himage : sane ∧ noImage → sane' ∧ noImage') (hfailed : failed → failed') :
    Refused sane' noImage' failed' err := by
  cases err with
  | halt => exact fun h' => h (hsane h')
  | err code => exact Or.imp himage hfailed h

section Segments

variable {lib env checks loc sp}

theorem segmentsSane_nil (checks : Bool) (base loc : Nat) : SegmentsSane checks base loc sp [] := by
  intro pre ph post h
  exact absurd h (by simp)

/-- The first segment is reached; the others, if it could be mapped. -/
theorem segmentsSane_cons {base : Nat} {ph : ProgramHeader}
    {rest : List ProgramHeader} : SegmentsSane checks base loc sp (ph :: rest)
      ↔ SegmentSane checks base ph ∧ ∀ sp', addRegion sp (segmentRegion base loc ph) = some sp' →
        SegmentsSane checks base loc sp' rest := by
  constructor
  · intro h
    refine ⟨h [] ph rest rfl (by simp [addRegions]), ?_⟩
    intro sp' hadd pre ph' post hrest hpre
    refine h (ph :: pre) ph' post (by rw [hrest]; rfl) ?_
    show (addRegion sp (segmentRegion base loc ph)).bind _ ≠ none
    rw [hadd]
    exact hpre
  · rintro ⟨hfirst, hrest⟩ pre ph' post heq hpre
    cases pre with
    | nil =>
      obtain ⟨rfl, -⟩ := List.cons.inj heq
      exact hfirst
    | cons p pre =>
      obtain ⟨rfl, rfl⟩ := List.cons.inj heq
      cases hadd : addRegion sp (segmentRegion base loc ph) with
      | none =>
        refine absurd ?_ hpre
        show (addRegion sp (segmentRegion base loc ph)).bind _ = none
        rw [hadd]
        rfl
      | some sp' =>
        refine hrest sp' hadd pre ph' post rfl ?_
        change (addRegion sp (segmentRegion base loc ph)).bind _ ≠ none at hpre
        rw [hadd] at hpre
        exact hpre

/-- A sum wraps around, unless the build checks for overflow. -/
theorem addUsize_rule {a b : Nat} {Q : Nat → LoadState → Prop} {E : Stop → LoadState → Prop}
    (hfits : (env.overflowChecks = true → a + b < 2 ^ 64) → Q ((a + b) % 2 ^ 64) st)
    (hover : ¬ (env.overflowChecks = true → a + b < 2 ^ 64) → E .halt st) :
    wp (addUsize env a b) st Q E := by
  unfold addUsize
  apply wp_ite
  · intro hbig
    rw [Bool.and_eq_true, decide_eq_true_eq] at hbig
    exact hover (fun hsmall => absurd (hsmall hbig.1) (Nat.not_lt.mpr hbig.2))
  · intro hsmall
    refine hfits (fun hchecks => ?_)
    simpa [hchecks] using hsmall

/-- **The loop of `map_elf`** adds the regions of its segments. -/
theorem mapSegments_spec (base loc : Nat) : ∀ (phs : List ProgramHeader) (st : LoadState)
    (sp : AddrSpace Backend), st.mm.spaces[s]? = some sp → wp (mapSegments env s base loc phs) st
      (fun _ st' => SegmentsSane env.overflowChecks base loc sp phs
        ∧ ∃ sp', addRegions sp (phs.map (segmentRegion base loc)) = some sp'
          ∧ st'.mm.spaces[s]? = some sp')
      (fun err _ => Refused (SegmentsSane env.overflowChecks base loc sp phs)
        (addRegions sp (phs.map (segmentRegion base loc)) = none) env.OutOfMemory err) := by
  intro phs
  induction phs with
  | nil =>
    intro st sp hsp
    exact ⟨segmentsSane_nil _ _ _, sp, rfl, hsp⟩
  | cons ph rest ih =>
    intro st sp hsp
    have hall : addRegions sp ((ph :: rest).map (segmentRegion base loc))
        = (addRegion sp (segmentRegion base loc ph)).bind
          (fun sp' => addRegions sp' (rest.map (segmentRegion base loc))) := rfl
    rw [segmentsSane_cons, hall]
    unfold mapSegments
    -- the checks of this segment, in the order of the source
    rw [wp_bind]
    refine addUsize_rule (fun hvaddr => ?_) (fun hbig hsane => hbig (fun hc => (hsane.1.2 hc).1))
    apply wp_ite
    · intro hpad hsane
      exact hpad hsane.1.1
    intro hpad
    rw [wp_bind]
    refine addUsize_rule (fun hmem => ?_) (fun hbig hsane => hbig (fun hc => ?_))
    case refine_2 =>
      have := (hsane.1.2 hc).2.1
      omega
    rw [wp_bind]
    refine addUsize_rule (fun hsum => ?_) (fun hbig hsane => hbig (fun hc => ?_))
    case refine_2 =>
      have := (hsane.1.2 hc).2.1
      have := hmem hc
      omega
    rw [wp_bind]
    refine addUsize_rule (fun hfile => ?_) (fun hbig hsane => hbig (fun hc => (hsane.1.2 hc).2.2))
    have hfirst : SegmentSane env.overflowChecks base ph := by
      refine ⟨not_not.mp hpad, fun hc => ⟨hvaddr hc, ?_, hfile hc⟩⟩
      have := hmem hc
      have := hsum hc
      omega
    rw [wp_bind, wp_onSpace]
    refine wp_mono (map_spec hsp (segmentRegion base loc ph)) ?_ ?_
    · rintro _ mm ⟨sp', hadd, hsp'⟩
      simp only [hadd, hfirst, some.injEq, forall_eq', true_and, bind_some]
      exact ih _ sp' hsp'
    · rintro err mm ⟨hne, hwhy⟩
      refine refused_of_ne hne (hwhy.imp_left (fun hnone => ?_))
      rw [hnone]
      exact ⟨⟨hfirst, fun _ h => absurd h (by simp)⟩, rfl⟩

/-- The base of a file and the space with its segments. -/
def mappedAt (lib : Elf) (bias : Nat) (e : ElfCacheEntry) (sp : AddrSpace Backend) :
    Option (Nat × AddrSpace Backend) :=
  (lib.base e.elf bias).bind (fun base =>
    (addRegions sp (segmentRegions base e)).map (fun sp' => (base, sp')))

/-- The segments of a file are sane, if the parser accepts it. -/
def FileSane (lib : Elf) (checks : Bool) (bias : Nat) (e : ElfCacheEntry) (sp : AddrSpace Backend) :
    Prop :=
  ∀ base, lib.base e.elf bias = some base → SegmentsSane checks base e.loc sp e.loads

/-- **`map_elf`** maps the segments, and every other exit has its reason. -/
theorem mapElf_spec (hsp : st.mm.spaces[s]? = some sp) (bias : Nat) (e : ElfCacheEntry) :
    wp (mapElf lib env s bias e) st
      (fun base st' => FileSane lib env.overflowChecks bias e sp
        ∧ ∃ sp', mappedAt lib bias e sp = some (base, sp') ∧ st'.mm.spaces[s]? = some sp')
      (fun err _ => Refused (FileSane lib env.overflowChecks bias e sp)
        (mappedAt lib bias e sp = none) env.OutOfMemory err) := by
  unfold mapElf mappedAt FileSane
  cases hbase : lib.base e.elf bias with
  | none => exact .inl ⟨fun _ h => absurd h (by simp), rfl⟩
  | some base =>
    simp only [some.injEq, forall_eq', wp_bind, wp_pure, bind_some,
      map_eq_none_iff, map_eq_some_iff]
    refine wp_mono_ok (mapSegments_spec base e.loc e.loads st sp hsp) ?_
    rintro _ st' ⟨hsane, sp', hadd, hsp'⟩
    exact ⟨hsane, sp', ⟨sp', hadd, rfl⟩, hsp'⟩

end Segments

/-! ## §3. The image. -/

/-- The first `PT_INTERP`. -/
def interpHeader (elf : ElfHeaders) : Option ProgramHeader :=
  elf.ph.find? (fun ph => decide (ph.type = .interp))

/-- The interpreter that a file asks for, as far as its name can be read. -/
def interpreterPath : Option Str :=
  (interpHeader e.elf).bind (fun ph => cStr lib (slice (fs.content e.loc) ph.offset ph.fileSize))

/-- `PT_INTERP` names the program itself. -/
def NamesItself : Prop :=
  ∃ path, interpreterPath lib fs e = some path ∧ fs.resolve path = .ok e.loc

/-- The program and its interpreter. -/
def partsOf : Option (ElfCacheEntry × Option ElfCacheEntry) :=
  match interpHeader e.elf with
  | none => some (e, none)
  | some _ => do
    let path ← interpreterPath lib fs e
    let loc ← (fs.resolve path).toOption
    let ldso ← entryOf lib fs cache loc
    return (e, some ldso)

/-- **The image of a file**: the space, the entry point and the auxiliary vector. -/
def imageOf : Option (AddrSpace Backend × Nat × AuxVector) := do
  let (elf, ldso) ← partsOf lib fs cache e
  let base ← lib.base elf.elf cfg.userSpaceBase
  let sp₀ ← addRegions { sp with areas := .empty } (trampoline cfg :: segmentRegions base elf)
  match ldso with
  | none => return (sp₀, lib.entry elf.elf base, lib.auxVector elf.elf base none)
  | some ldso => do
    let ldsoBase ← lib.base ldso.elf cfg.userInterpBase
    let sp₁ ← addRegions sp₀ (segmentRegions ldsoBase ldso)
    return (sp₁, lib.entry ldso.elf ldsoBase, lib.auxVector elf.elf base (some ldsoBase))

/-- What the loader takes for program and interpreter when `e` is in front of the
cache: a program that names itself is its own interpreter, and the entry behind
it is taken for the program. -/
def partsAt : Option (ElfCacheEntry × Option ElfCacheEntry) :=
  match interpHeader e.elf with
  | none => some (e, none)
  | some _ =>
    (interpreterPath lib fs e).bind (fun path => (fs.resolve path).toOption.bind (fun loc =>
      if loc = e.loc then tail.head?.map (fun second => (second, some e))
      else (entryOf lib fs (e :: tail) loc).map (fun ldso => (e, some ldso))))

/-- The image of a program and its interpreter in a space that has the trampoline. -/
def partsImage (elf : ElfCacheEntry) : Option ElfCacheEntry →
    Option (AddrSpace Backend × Nat × AuxVector)
  | none => (mappedAt lib cfg.userSpaceBase elf sp).map (fun m =>
    (m.2, lib.entry elf.elf m.1, lib.auxVector elf.elf m.1 none))
  | some ldso => (mappedAt lib cfg.userSpaceBase elf sp).bind (fun m =>
    (mappedAt lib cfg.userInterpBase ldso m.2).map (fun m' =>
      (m'.2, lib.entry ldso.elf m'.1, lib.auxVector elf.elf m.1 (some m'.1))))

/-- The space after the clear, with the trampoline. -/
def trampolineSpace : Option (AddrSpace Backend) :=
  addRegion { sp with areas := .empty } (trampoline cfg)

/-- What the loader builds when `e` is in front of the cache. -/
def imageAt : Option (AddrSpace Backend × Nat × AuxVector) :=
  (trampolineSpace cfg sp).bind (fun sp₀ => (partsAt lib fs e tail).bind (fun parts =>
    partsImage lib cfg sp₀ parts.1 parts.2))

/-- Looking for the interpreter does not panic. -/
@[mk_iff interpSane_def] structure InterpSane : Prop where
  /-- `assert_eq!(data.len(), read)`: the name of the interpreter lies inside the file. -/
  nameInFile : ∀ ph, interpHeader e.elf = some ph →
    (slice (fs.content e.loc) ph.offset ph.fileSize).length = ph.fileSize
  /-- Its header can be sliced. -/
  readable : ∀ path loc, interpreterPath lib fs e = some path → fs.resolve path = .ok loc →
    ¬ Unreadable lib fs (e :: tail) loc
  /-- `iter.next().unwrap()`: there is a second entry. -/
  second : NamesItself lib fs e → tail ≠ []

/-- The segments of the program are sane, and those of the interpreter if the
program's could be mapped. -/
def PartsSane (elf : ElfCacheEntry) (ldso : Option ElfCacheEntry) : Prop :=
  FileSane lib checks cfg.userSpaceBase elf sp
    ∧ ∀ l base sp₁, ldso = some l → mappedAt lib cfg.userSpaceBase elf sp = some (base, sp₁) →
      FileSane lib checks cfg.userInterpBase l sp₁

/-- **Headers on which the loader does not panic**, as far as it gets. -/
@[mk_iff] structure Sane : Prop where
  interp : trampolineSpace cfg sp ≠ none → InterpSane lib fs e tail
  parts : ∀ sp₀, trampolineSpace cfg sp = some sp₀ → ∀ parts, partsAt lib fs e tail = some parts →
    PartsSane lib cfg checks sp₀ parts.1 parts.2

section Image

variable {lib cfg env checks fs cache sp e tail loc}

theorem ofExcept_spec {α : Type} (x : AxResult α) :
    wp (ofExcept x) st (fun a st' => x = .ok a ∧ st' = st)
      (fun err st' => err ≠ .halt ∧ x.toOption = none ∧ st' = st) := by
  cases x with
  | ok a => exact ⟨rfl, rfl⟩
  | error err => exact ⟨by simp, rfl, rfl⟩

/-- `imageOf` in the order in which the loader builds it. -/
theorem imageOf_eq : imageOf lib cfg fs cache sp e = (trampolineSpace cfg sp).bind (fun sp₀ =>
      (partsOf lib fs cache e).bind (fun parts => partsImage lib cfg sp₀ parts.1 parts.2)) := by
  unfold imageOf trampolineSpace
  cases partsOf lib fs cache e with
  | none => simp
  | some parts =>
    obtain ⟨elf, ldso⟩ := parts
    -- the parser may refuse the file before or after the trampoline is mapped
    simp only [bind_eq_bind, bind_some, pure_def, addRegions]
    cases addRegion { sp with areas := .empty } (trampoline cfg) with
    | none => simp only [bind_none, bind_fun_none]
    | some sp₀ =>
      cases ldso with
      | none | some ldso =>
        unfold partsImage mappedAt
        simp only [map_eq_bind, Function.comp_def, bind_assoc, bind_some]

/-- A program that does not name itself is loaded with its own interpreter. -/
theorem imageAt_eq (hself : ¬ NamesItself lib fs e) :
    imageAt lib cfg fs sp e tail = imageOf lib cfg fs (e :: tail) sp e := by
  have hparts : partsAt lib fs e tail = partsOf lib fs (e :: tail) e := by
    unfold partsAt partsOf
    cases hheader : interpHeader e.elf with
    | none => rfl
    | some ph =>
      simp only [bind_eq_bind, pure_def]
      cases hpath : interpreterPath lib fs e with
      | none => rfl
      | some path =>
        cases hloc : fs.resolve path with
        | error err => simp only [bind_some, hloc, Except.toOption, bind_none]
        | ok loc =>
          have hne : loc ≠ e.loc := fun heq => hself ⟨path, hpath, heq ▸ hloc⟩
          simp only [bind_some, hloc, Except.toOption, if_neg hne, map_eq_bind,
            Function.comp_def]
  rw [imageOf_eq, ← hparts]
  rfl

/-- The interpreter's name is found or not; the rest of `InterpSane` depends on
where it leads. -/
theorem interpSane_iff {ph : ProgramHeader} {path : Str}
    (hheader : interpHeader e.elf = some ph) (hpath : interpreterPath lib fs e = some path)
    (hloc : fs.resolve path = .ok loc)
    (hname : (slice (fs.content e.loc) ph.offset ph.fileSize).length = ph.fileSize) :
    InterpSane lib fs e tail
      ↔ ¬ Unreadable lib fs (e :: tail) loc ∧ (loc = e.loc → tail ≠ []) := by
  rw [interpSane_def]
  grind [NamesItself]

theorem interpSane_of_unnamed (hname : ∀ ph, interpHeader e.elf = some ph →
      (slice (fs.content e.loc) ph.offset ph.fileSize).length = ph.fileSize)
    (hnone : ∀ path loc, interpreterPath lib fs e = some path → fs.resolve path ≠ .ok loc) :
    InterpSane lib fs e tail :=
  ⟨hname, fun path loc hpath hloc => absurd hloc (hnone path loc hpath),
    fun ⟨path, hpath, hloc⟩ => absurd hloc (hnone path e.loc hpath)⟩

/-- What `bring_to_front` does with the interpreter, when the program is in front. -/
theorem partsAt_of_front {ph : ProgramHeader} {path : Str}
    (hheader : interpHeader e.elf = some ph) (hpath : interpreterPath lib fs e = some path)
    (hloc : fs.resolve path = .ok loc) (hfront : frontOf lib fs (e :: tail) loc = some cache) :
    (loc = e.loc ∧ cache = e :: tail ∧ partsAt lib fs e tail
        = tail.head?.map (fun second => (second, some e)))
      ∨ (loc ≠ e.loc ∧ ∃ ldso rest, cache = ldso :: e :: rest
        ∧ partsAt lib fs e tail = some (e, some ldso)) := by
  have hparts : partsAt lib fs e tail
      = if loc = e.loc then tail.head?.map (fun second => (second, some e))
        else (entryOf lib fs (e :: tail) loc).map (fun ldso => (e, some ldso)) := by
    unfold partsAt
    rw [hheader, hpath, bind_some, hloc]
    rfl
  by_cases heq : loc = e.loc
  · refine .inl ⟨heq, ?_, by rw [hparts, if_pos heq]⟩
    -- the program is touched, and is in front already
    unfold frontOf touch at hfront
    simp only [List.find?_cons, heq, decide_true, map_some, List.eraseP_cons,
      some.injEq] at hfront
    exact hfront.symm
  · obtain ⟨ldso, tail', hentry, -, rfl, -, hbehind⟩ := frontOf_eq_some hfront
    obtain ⟨rest, rfl⟩ := hbehind e tail rfl (fun h => heq h.symm)
    exact .inr ⟨heq, ldso, rest, rfl, by rw [hparts, if_neg heq, hentry]; rfl⟩

theorem partsAt_eq_none (hheader : interpHeader e.elf ≠ none)
    (h : ∀ path loc, interpreterPath lib fs e = some path → fs.resolve path = .ok loc →
      loc ≠ e.loc ∧ entryOf lib fs (e :: tail) loc = none) : partsAt lib fs e tail = none := by
  unfold partsAt
  cases hph : interpHeader e.elf with
  | none => exact absurd hph hheader
  | some ph =>
    cases hpath : interpreterPath lib fs e with
    | none => rfl
    | some path =>
      cases hloc : fs.resolve path with
      | error err => simp only [hloc, bind_some, Except.toOption, bind_none]
      | ok loc =>
        obtain ⟨hne, hentry⟩ := h path loc hpath hloc
        simp only [bind_some, hloc, Except.toOption, if_neg hne, hentry, map_none]

/-- **Program and interpreter**, when the program is in front. -/
theorem programAndInterpreter_spec (hcache : st.elfCache = e :: tail) :
    wp (programAndInterpreter lib env fs) st
      (fun r st' => st'.mm = st.mm ∧ InterpSane lib fs e tail ∧ partsAt lib fs e tail = some r)
      (fun err _ => Refused (InterpSane lib fs e tail) (partsAt lib fs e tail = none)
        env.ReadFails err) := by
  unfold programAndInterpreter interpreter
  rw [wp_bind, wp_get, hcache]
  simp only [wp_bind]
  cases hheader : e.elf.ph.find? (fun ph => decide (ph.type = .interp)) with
  | none =>
    have hheader : interpHeader e.elf = none := hheader
    refine ⟨rfl, interpSane_of_unnamed (fun ph h => ?_) (fun path loc h => ?_), ?_⟩
    · cases hheader.symm.trans h
    · unfold interpreterPath at h
      rw [hheader] at h
      cases h
    · unfold partsAt
      rw [hheader]
  | some ph =>
    have hheader : interpHeader e.elf = some ph := hheader
    have hsome : interpHeader e.elf ≠ none := by simp [hheader]
    have hpath : interpreterPath lib fs e
        = cStr lib (slice (fs.content e.loc) ph.offset ph.fileSize) := by
      unfold interpreterPath
      rw [hheader]
      rfl
    simp only [wp_bind]
    refine wp_mono (readFile_spec _ _) ?_ ?_
    · rintro data st₁ ⟨rfl, hmm, hcache₁⟩
      apply wp_ite
      · exact fun hshort hsane => hshort (hsane.nameInFile ph hheader)
      intro hlength
      rw [not_not] at hlength
      have hname : ∀ ph', interpHeader e.elf = some ph' →
          (slice (fs.content e.loc) ph'.offset ph'.fileSize).length = ph'.fileSize := by
        intro ph' hph'
        rw [← some.inj (hheader.symm.trans hph')]
        exact hlength
      cases hc : cStr lib (slice (fs.content e.loc) ph.offset ph.fileSize) with
      | none =>
        rw [hc] at hpath
        have hnone : ∀ path loc, interpreterPath lib fs e = some path →
            fs.resolve path ≠ .ok loc := fun path loc h => absurd (hpath.symm.trans h) (by simp)
        exact .inl ⟨interpSane_of_unnamed hname hnone,
          partsAt_eq_none hsome (fun path loc h hloc => absurd hloc (hnone path loc h))⟩
      | some path =>
        rw [hc] at hpath
        simp only [wp_pure, wp_bind]
        refine wp_mono (ofExcept_spec _) ?_ ?_
        · rintro loc st₂ ⟨hloc, rfl⟩
          rw [interpSane_iff hheader hpath hloc hlength]
          have hc₁ : st₂.elfCache = e :: tail := hcache₁.trans hcache
          refine wp_mono bringToFront_spec ?_ ?_
          · rintro r st₃ ⟨hmm₃, hreadable, hfront⟩
            rw [hc₁] at hreadable hfront
            cases r with
            | ok u =>
              simp only [wp_bind, wp_get]
              rcases partsAt_of_front hheader hpath hloc hfront with
                ⟨heq, hcache₃, hparts⟩ | ⟨hne, ldso, rest, hcache₃, hparts⟩
              · rw [hcache₃, hparts]
                cases tail with
                | nil => exact fun hsane => hsane.2 heq rfl
                | cons second tail =>
                  exact ⟨hmm₃.trans hmm, ⟨hreadable, fun _ => by simp⟩, rfl⟩
              · rw [hcache₃]
                exact ⟨hmm₃.trans hmm, ⟨hreadable, fun heq => absurd heq hne⟩, hparts⟩
            | error data =>
              obtain ⟨-, -, htouch, hnone⟩ := hfront
              have hne : loc ≠ e.loc := by
                rintro rfl
                unfold touch at htouch
                simp at htouch
              rcases hnone with hnone | hfails
              · refine .inl ⟨⟨hreadable, fun heq => absurd heq hne⟩,
                  partsAt_eq_none hsome (fun path' loc' hpath' hloc' => ?_)⟩
                obtain rfl := some.inj (hpath.symm.trans hpath')
                obtain rfl := Except.ok.inj (hloc.symm.trans hloc')
                exact ⟨hne, by rw [entryOf_of_touch htouch, hnone]; rfl⟩
              · exact .inr hfails.1
          · intro err st₃ hpost
            rw [hc₁] at hpost
            cases err with
            | halt => exact fun hsane => hsane.1 (hpost.2.1 rfl)
            | err code => exact .inr (hpost.2.2 (by simp))
        · rintro err st₂ ⟨hne, hnone, -⟩
          have hnone : ∀ path' loc, interpreterPath lib fs e = some path' →
              fs.resolve path' ≠ .ok loc := by
            intro path' loc h hloc
            rw [some.inj (hpath.symm.trans h), hloc] at hnone
            cases hnone
          exact refused_of_ne hne (.inl ⟨interpSane_of_unnamed hname hnone,
            partsAt_eq_none hsome (fun path loc h hloc => absurd hloc (hnone path loc h))⟩)
    · rintro err st₁ ⟨hne, hfails, -⟩
      exact refused_of_ne hne (.inr hfails)

theorem mapParts_spec (hsp : st.mm.spaces[s]? = some sp) (elf : ElfCacheEntry)
    (ldso : Option ElfCacheEntry) : wp (mapParts lib cfg env s elf ldso) st
      (fun r st' => PartsSane lib cfg env.overflowChecks sp elf ldso
        ∧ ∃ sp', partsImage lib cfg sp elf ldso = some (sp', r) ∧ st'.mm.spaces[s]? = some sp')
      (fun err _ => Refused (PartsSane lib cfg env.overflowChecks sp elf ldso)
        (partsImage lib cfg sp elf ldso = none) env.OutOfMemory err) := by
  unfold mapParts
  rw [wp_bind]
  refine wp_mono (mapElf_spec hsp cfg.userSpaceBase elf) ?_ ?_
  · rintro base st₁ ⟨hsane, sp₁, hmapped, hsp₁⟩
    cases ldso with
    | none =>
      refine ⟨⟨hsane, fun _ _ _ h => absurd h (by simp)⟩, sp₁, ?_, hsp₁⟩
      unfold partsImage
      rw [hmapped]
      rfl
    | some ldso =>
      -- the segments of the interpreter come on top of those of the program
      have himage : partsImage lib cfg sp elf (some ldso)
          = (mappedAt lib cfg.userInterpBase ldso sp₁).map (fun m' =>
            (m'.2, lib.entry ldso.elf m'.1, lib.auxVector elf.elf base (some m'.1))) := by
        unfold partsImage
        rw [hmapped]
        rfl
      have hparts : PartsSane lib cfg env.overflowChecks sp elf (some ldso)
          ↔ FileSane lib env.overflowChecks cfg.userInterpBase ldso sp₁ := by
        unfold PartsSane
        simp [hsane, hmapped]
      rw [himage, hparts]
      simp only [wp_bind, wp_pure, map_eq_none_iff, map_eq_some_iff]
      refine wp_mono_ok (mapElf_spec hsp₁ cfg.userInterpBase ldso) ?_
      rintro ldsoBase st₂ ⟨hsane', sp₂, hmapped', hsp₂⟩
      exact ⟨hsane', sp₂, ⟨_, hmapped', rfl⟩, hsp₂⟩
  · refine fun _ _ hpost => hpost.imp And.left ?_ id
    refine fun hnone => ⟨⟨hnone.1, fun l base sp₁ _ hm => ?_⟩, ?_⟩
    · cases hnone.2.symm.trans hm
    · unfold partsImage
      rw [hnone.2]
      cases ldso <;> rfl

/-- **`ElfLoader::load` from the clear on**: it builds the image, and every other
exit has its reason. -/
theorem loadImage_spec (hsp : st.mm.spaces[s]? = some sp) (hcache : st.elfCache = e :: tail) :
    wp (loadImage lib cfg env fs s) st
      (fun r st' => Sane lib cfg env.overflowChecks fs sp e tail
        ∧ ∃ sp', imageAt lib cfg fs sp e tail = some (sp', r) ∧ st'.mm.spaces[s]? = some sp')
      (fun err _ => Refused (Sane lib cfg env.overflowChecks fs sp e tail)
        (imageAt lib cfg fs sp e tail = none) (env.ReadFails ∨ env.OutOfMemory) err) := by
  unfold loadImage mapTrampoline imageAt
  rw [wp_bind, wp_onSpace]
  refine wp_mono (clear_spec hsp) ?_ (fun _ _ hfalse => absurd hfalse id)
  intro _ mm₁ hsp₁
  rw [wp_bind, wp_onSpace]
  refine wp_mono (map_spec hsp₁ (trampoline cfg)) ?_ ?_
  · rintro _ mm₂ ⟨sp₂, hadd, hsp₂⟩
    have htrampoline : trampolineSpace cfg sp = some sp₂ := hadd
    simp only [sane_iff, htrampoline, ne_eq, reduceCtorEq, not_false_eq_true, true_implies,
      some.injEq, forall_eq', bind_some]
    rw [wp_bind]
    have hcache₂ : ({ st with mm := mm₂ } : LoadState).elfCache = e :: tail := hcache
    refine wp_mono (programAndInterpreter_spec hcache₂) ?_ ?_
    · rintro ⟨elf, ldso⟩ st₃ ⟨hmm₃, hinterp, hparts⟩
      have hsp₃ : st₃.mm.spaces[s]? = some sp₂ := by
        rw [hmm₃]
        exact hsp₂
      simp only [hinterp, hparts, some.injEq, forall_eq', true_and, bind_some]
      exact wp_mono_err (mapParts_spec hsp₃ elf ldso)
        (fun _ _ hpost => hpost.imp id id .inr)
    · refine fun _ _ hpost => hpost.imp And.left (fun h => ⟨⟨h.1, fun parts h' => ?_⟩, ?_⟩) .inl
      · cases h.2.symm.trans h'
      · rw [h.2]
        rfl
  · -- without room for the trampoline there is no image of any file
    rintro err mm₂ ⟨hne, hwhy⟩
    refine refused_of_ne hne (hwhy.imp (fun hnone => ?_) .inr)
    have htrampoline : trampolineSpace cfg sp = none := hnone
    rw [sane_iff, htrampoline]
    simp

/-! ## §4. `load` and the stack. -/

/-- `load` went past the clear with the entry of `loc` in front. -/
def Cleared (lib : Elf) (fs : FileSystem) (cache : List ElfCacheEntry) (path : Str)
    (e : ElfCacheEntry) (tail : List ElfCacheEntry) : Prop :=
  ∃ loc, fs.resolve path = .ok loc ∧ frontOf lib fs cache loc = some (e :: tail)

/-- **`ElfLoader::load`**, when it returns an image. -/
theorem load_spec (hsp : st.mm.spaces[s]? = some sp) (path : Str) :
    wp (load lib cfg env fs s path) st
      (fun r st' => ∀ image, r = .ok image → ∃ e tail, Cleared lib fs st.elfCache path e tail
        ∧ ∃ sp', imageAt lib cfg fs sp e tail = some (sp', image) ∧ st'.mm.spaces[s]? = some sp')
      (fun _ _ => True) := by
  unfold load
  refine wp_seq (wp_mono_err (ofExcept_spec (fs.resolve path))
    (fun _ _ _ => trivial)) ?_
  rintro loc st₁ ⟨hloc, rfl⟩
  refine wp_seq (wp_mono_err bringToFront_spec (fun _ _ _ => trivial)) ?_
  rintro r st₂ ⟨hmm, -, hfront⟩
  cases r with
  | error data => exact fun _ h => absurd h (by simp)
  | ok u =>
    obtain ⟨e, tail, -, -, hcache, -⟩ := frontOf_eq_some hfront
    rw [hcache] at hfront
    have hsp₂ : st₂.mm.spaces[s]? = some sp := by
      rw [hmm]
      exact hsp
    refine wp_seq (wp_mono_err (loadImage_spec hsp₂ hcache) (fun _ _ _ => trivial)) ?_
    rintro r st₃ ⟨-, himage⟩ image himg
    cases himg
    exact ⟨e, tail, ⟨loc, hloc, hfront⟩, himage⟩

def stackRegion (cfg : Config) : Region :=
  ⟨cfg.userStackTop - cfg.userStackSize, cfg.userStackSize, .rw,
    .alloc (cfg.userStackTop - cfg.userStackSize)⟩

def heapRegion (cfg : Config) : Region :=
  ⟨cfg.userHeapBase, cfg.userHeapSize, .rw, .alloc cfg.userHeapBase⟩

/-- `ustack_top - stack_data.len()` does not panic, if the stack can be mapped. -/
def BlockSane (cfg : Config) (sp : AddrSpace Backend) (data : Bytes) : Prop :=
  addRegion sp (stackRegion cfg) ≠ none → data.length ≤ cfg.userStackTop

/-- The subtraction is the only operation that can panic. -/
theorem setUpStack_panics (hsp : st.mm.spaces[s]? = some sp) (args envs : List Str)
    (auxv : AuxVector) : wp (setUpStack lib cfg env s args envs auxv) st
      (fun _ _ => BlockSane cfg sp (lib.appStackRegion args envs auxv cfg.userStackTop))
      (fun err _ => Refused (BlockSane cfg sp
        (lib.appStackRegion args envs auxv cfg.userStackTop)) True env.OutOfMemory err) := by
  unfold setUpStack
  generalize lib.appStackRegion args envs auxv cfg.userStackTop = data
  rw [wp_bind, wp_onSpace]
  refine wp_mono (map_spec hsp (stackRegion cfg)) ?_ ?_
  · rintro _ mm₁ ⟨sp₁, hadd, hsp₁⟩
    apply wp_ite
    · intro hbig hsane
      exact absurd (hsane (by simp [hadd])) (by omega)
    intro hlen
    have hsane : BlockSane cfg sp data := fun _ => Nat.not_lt.mp hlen
    refine wp_mono (?_ : wp _ _ (fun _ _ => True) (fun err _ => err ≠ .halt)) (fun _ _ _ => hsane)
      (fun _ _ hne => refused_of_ne hne (.inl ⟨hsane, trivial⟩))
    rw [wp_bind, wp_onSpace]
    refine wp_mono_ok (populateArea_noHalt hsp₁ _ _ _) ?_
    intro _ mm₂ hspaces
    have hsp₂ : mm₂.spaces[s]? = some sp₁ := by
      rw [hspaces]
      exact hsp₁
    rw [wp_bind, wp_onSpace]
    refine wp_mono_ok (writeSpace_spec hsp₂ _ _) ?_
    intro _ mm₃ hsame
    rw [hsame, wp_bind, wp_onSpace]
    exact wp_mono_ok (mapPopulated_noHalt hsp₂ (heapRegion cfg)) (fun _ _ _ => trivial)
  · rintro err mm₁ ⟨hne, hwhy⟩
    exact refused_of_ne hne (hwhy.imp_left (fun hnone => ⟨fun h => absurd hnone h, trivial⟩))

end Image

/-! ## §5. What loading keeps. -/

section Keeps

variable {lib cfg env fs} {P : LoadState → Prop}
  (hread : ∀ loc n off, Preserves P (readFile env fs loc n off))
  (hfront : ∀ loc, Preserves P (bringToFront lib env fs loc))
  (hmap : ∀ r : Region,
    Preserves P (onSpace (map (ops env) s r.start r.size r.flags false r.backend)))

theorem ofExcept_preserves {α : Type} (x : AxResult α) : Preserves P (ofExcept x) := by
  cases x with
  | ok a => exact .pure a
  | error err => exact .throw (Stop.err err)

theorem addUsize_preserves (a b : Nat) : Preserves P (addUsize env a b) :=
  .ite (.throw _) (.pure _)

include hmap in
theorem mapSegments_preserves (base loc : Nat) (phs : List ProgramHeader) :
    Preserves P (mapSegments env s base loc phs) := by
  induction phs with
  | nil => exact .pure ()
  | cons ph rest ih =>
    refine .bind (addUsize_preserves _ _) (fun vaddr => .ite (.throw _) ?_)
    refine .bind (addUsize_preserves _ _) (fun padded => .bind (addUsize_preserves _ _)
      (fun sum => .bind (addUsize_preserves _ _) (fun fileEnd => ?_)))
    exact .bind (hmap ⟨_, _, _, _⟩) (fun _ => ih)

include hmap in
theorem mapElf_preserves (base : Nat) (e : ElfCacheEntry) :
    Preserves P (mapElf lib env s base e) := by
  unfold mapElf
  split
  · exact .throw _
  · exact .bind (mapSegments_preserves hmap _ _ _) (fun _ => .pure _)

include hread in
theorem interpreter_preserves (e : ElfCacheEntry) : Preserves P (interpreter lib env fs e) := by
  unfold interpreter
  split
  · exact .pure _
  · refine .bind (hread _ _ _) (fun data => .ite (.throw _) ?_)
    split
    · exact .pure _
    · exact .throw _

include hread hfront in
theorem programAndInterpreter_preserves : Preserves P (programAndInterpreter lib env fs) := by
  refine .bind .get (fun st => ?_)
  split
  · exact .throw _
  refine .bind (interpreter_preserves hread _) (fun r => ?_)
  split
  · exact .pure _
  refine .bind (ofExcept_preserves _) (fun loc => .bind (hfront loc) (fun r => ?_))
  split
  · exact .throw _
  · refine .bind .get (fun st => ?_)
    split
    · exact .pure _
    · exact .throw _

include hread hfront hmap in
/-- What holds after the clear, and is kept by looking at files and by mapping,
holds wherever `load` ends. -/
theorem loadImage_ends (hclear : ends (onSpace (clear (ops env) s)) st P) :
    ends (loadImage lib cfg env fs s) st P := by
  refine wp_seq hclear (fun _ st₁ h₁ => ?_)
  refine Preserves.bind (hmap (trampoline cfg)) (fun _ => ?_) st₁ h₁
  refine .bind (programAndInterpreter_preserves hread hfront) (fun parts =>
    .bind (mapElf_preserves hmap _ _) (fun base => ?_))
  split
  · exact .pure _
  · exact .bind (mapElf_preserves hmap _ _) (fun _ => .pure _)

end Keeps

end StarryOS.Exec
