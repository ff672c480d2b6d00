/-
  StarryOS.Exec.ScriptChains — DOES LOADING AN EXECUTABLE END?

  `load_user_app` calls itself for a path that ends in `.sh` and for a file that
  begins with `#!`.  `nextCall` is that call as a function of the file system
  and of the header cache, without the loader's state, fixed when the first call
  is made; `lastCall` is the end of the chain.

  Nothing bounds the chain, and the ELF file at its end is taken at its word.
  `load_user_app` is therefore cut in two at the point where the address space
  is cleared:

      findProgram      follow the chain; changes no address space
      buildProgram     clear the space and build the image in it

  and it returns, whatever reads and allocations fail, exactly if the chain has
  a last call, and this call is one on which no assertion, `unwrap` or
  subtraction of the loader panics that the loader gets to (`SaneCall`).
-/
import StarryOS.Exec.Elf64

namespace StarryOS.Exec

open Lib Mm Elf

/-! ## §1. The chain of calls. -/

/-- The arguments of `load_user_app`. -/
structure Call where
  path : Option Str
  args : List Str
  deriving Repr, DecidableEq

/-- The path that is loaded. -/
def Call.program (c : Call) : Option Str := c.path <|> c.args.head?

/-- The call loads this path itself. -/
def Call.Loads (c : Call) (path : Str) : Prop :=
  c.program = some path ∧ endsWithSh path = false

variable (lib : Elf) (cfg : Config) (env : LoadEnv) (checks : Bool) (fs : FileSystem)
  (cache : List ElfCacheEntry) (sp : AddrSpace Backend) (envs : List Str)

/-- The call that a script makes, given the first bytes of its file. -/
def scriptCall (path : Str) (args : List Str) (data : Bytes) : Option Call :=
  if isScript data then
    (lib.fromUtf8 (shebangLine data)).map
      (fun line => ⟨none, scriptArgs (shebangWords lib line) path args⟩)
  else none

/-- **The next call** of `load_user_app`. -/
def nextCall (c : Call) : Option Call :=
  match c.program with
  | none => none
  | some path =>
    if endsWithSh path then some ⟨none, binSh :: c.args⟩
    else
      match fs.resolve path with
      | .error _ => none
      | .ok loc =>
        match entryOf lib fs cache loc with
        -- an ELF file ends the chain, whether or not it can be loaded
        | some _ => none
        | none => scriptCall lib path c.args (slice (fs.content loc) 0 4096)

/-- **The last call** of a chain that has at most this many. -/
def lastCall : Nat → Call → Option Call
  | 0, _ => none
  | n + 1, c =>
    match nextCall lib fs cache c with
    | none => some c
    | some c' => lastCall n c'

/-- The call gets to the clear, with `e` in front of the cache. -/
def Call.Clears (c : Call) (e : ElfCacheEntry) (tail : List ElfCacheEntry) : Prop :=
  ∃ path, c.Loads path ∧ Cleared lib fs cache path e tail

/-- The call finds a file whose header cannot be sliced. -/
def Call.Malformed (c : Call) : Prop :=
  ∃ path loc, c.Loads path ∧ fs.resolve path = .ok loc ∧ Unreadable lib fs cache loc

/-! ## §2. Before and after the clear. -/

/-- `load_user_app` up to the clear: the arguments of the last call, whose program
is in front of the header cache then. -/
def findProgram : Nat → Call → LoadM (List Str)
  | 0, _ => throw .halt
  | fuel + 1, c =>
    match c.program with
    | none => throw (.err .invalidInput)
    | some path =>
      if endsWithSh path then findProgram fuel ⟨none, binSh :: c.args⟩
      else do
        let loc ← ofExcept (fs.resolve path)
        match ← bringToFront lib env fs loc with
        | .ok () => return c.args
        | .error data =>
          match scriptCall lib path c.args data with
          | some c' => findProgram fuel c'
          | none => throw (.err (if isScript data then .invalidInput else .invalidExecutable))

/-- `load_user_app` from the clear on. -/
def buildProgram (s : Nat) (args envs : List Str) : LoadM (Nat × Nat) := do
  let (entry, auxv) ← loadImage lib cfg env fs s
  let userSp ← setUpStack lib cfg env s args envs auxv
  return (entry, userSp)

/-- The chain ends in a file that can be read, or in none. -/
def ChainSane (fuel : Nat) (c : Call) : Prop :=
  ∃ c', lastCall lib fs cache fuel c = some c' ∧ ¬ c'.Malformed lib fs cache

/-- The chain has led to a program, with the arguments of its last call. -/
def Found (fuel : Nat) (c : Call) (args : List Str) (cache' : List ElfCacheEntry) : Prop :=
  ∃ c' e tail, lastCall lib fs cache fuel c = some c' ∧ c'.args = args
    ∧ ¬ c'.Malformed lib fs cache ∧ c'.Clears lib fs cache e tail ∧ cache' = e :: tail

/-- It has led to a panic, or to an error before the clear. -/
def NotFound (fuel : Nat) (c : Call) : Stop → Prop :=
  Refused (ChainSane lib fs cache fuel c)
    (∀ c' e tail, lastCall lib fs cache fuel c = some c' → ¬ c'.Clears lib fs cache e tail)
    env.ReadFails

/-- **The file that the call finds makes the loader panic nowhere.** -/
structure SaneCall (c : Call) : Prop where
  /-- The range of its program headers is one that can be sliced. -/
  readable : ¬ c.Malformed lib fs cache
  headers : ∀ e tail, c.Clears lib fs cache e tail → Sane lib cfg checks fs sp e tail
  /-- The argument block is not larger than the addresses below the stack's top. -/
  block : ∀ e tail image, c.Clears lib fs cache e tail →
    imageAt lib cfg fs sp e tail = some image →
    BlockSane cfg image.1 (lib.appStackRegion c.args envs image.2.2 cfg.userStackTop)

/-- The chain ends, and its last call is sane. -/
def Loadable (fuel : Nat) (c : Call) : Prop :=
  ∃ c', lastCall lib fs cache fuel c = some c' ∧ SaneCall lib cfg checks fs cache sp envs c'

variable {lib cfg env checks fs cache sp envs} {s : Nat} {c : Call}

/-- **`load_user_app` finds the program, then builds it.** -/
theorem loadUserApp_eq (fuel : Nat) (c : Call) :
    loadUserApp lib cfg env fs s envs fuel c.path c.args
      = findProgram lib env fs fuel c >>= fun args => buildProgram lib cfg env fs s args envs := by
  induction fuel generalizing c with
  | zero => rfl
  | succ fuel ih =>
    unfold loadUserApp findProgram
    show (match c.program with | none => _ | some path => _) = _
    cases c.program with
    | none => rfl
    | some path =>
      simp only
      split
      · exact ih ⟨none, binSh :: c.args⟩
      unfold load
      simp only [bind_assoc]
      congr 1
      funext loc
      congr 1
      funext r
      cases r with
      | ok u =>
        simp only [bind_assoc, pure_bind]
        rfl
      | error data =>
        simp only [pure_bind]
        unfold scriptCall
        cases hscript : isScript data with
        | false => rfl
        | true =>
          simp only [if_true]
          cases lib.fromUtf8 (shebangLine data) with
          | none => rfl
          | some line => exact ih ⟨none, _⟩

/-- A chain that has its last call, or none so far. -/
theorem lastCall_of_nextCall (h : nextCall lib fs cache c = none) (n : Nat) :
    lastCall lib fs cache (n + 1) c = some c := by
  unfold lastCall
  rw [h]

theorem lastCall_next {c' : Call} (h : nextCall lib fs cache c = some c') (n : Nat) :
    lastCall lib fs cache (n + 1) c = lastCall lib fs cache n c' := by
  rw [lastCall, h]

/-- A call gets to the clear with one file. -/
theorem Call.Clears.unique {e e' : ElfCacheEntry} {tail tail' : List ElfCacheEntry}
    (h : c.Clears lib fs cache e tail) (h' : c.Clears lib fs cache e' tail') :
    e = e' ∧ tail = tail' := by
  obtain ⟨path, ⟨hpath, -⟩, loc, hloc, hfront⟩ := h
  obtain ⟨path', ⟨hpath', -⟩, loc', hloc', hfront'⟩ := h'
  obtain rfl := Option.some.inj (hpath.symm.trans hpath')
  obtain rfl := Except.ok.inj (hloc.symm.trans hloc')
  exact List.cons.inj (Option.some.inj (hfront.symm.trans hfront'))

/-! ## §3. The chain is followed. -/

/-- Data that the parser has looked into is not a script. -/
theorem isScript_of_phRange {data : Bytes} (h : lib.phRange data ≠ none) :
    isScript data = false := by
  obtain ⟨range, hrange⟩ := Option.ne_none_iff_exists'.mp h
  have hmagic := congrArg (List.take 2) (lib.magic data range hrange)
  rw [List.take_take] at hmagic
  unfold isScript
  rw [show min 2 4 = 2 from rfl] at hmagic
  rw [hmagic]
  decide

theorem scriptCall_of_phRange {path : Str} {args : List Str} {data : Bytes}
    (h : lib.phRange data ≠ none) : scriptCall lib path args data = none := by
  unfold scriptCall
  rw [isScript_of_phRange h]
  rfl

section Chain

variable {path : Str} {loc : Nat}

/-- The chain ends with `c`, which does not get to the clear. -/
theorem notFound_of_stop (hnext : nextCall lib fs cache c = none)
    (hform : ¬ c.Malformed lib fs cache) (hnever : ∀ e tail, ¬ c.Clears lib fs cache e tail)
    (fuel : Nat) (code : AxError) : NotFound lib env fs cache (fuel + 1) c (.err code) := by
  refine .inl ⟨⟨c, lastCall_of_nextCall hnext fuel, hform⟩, ?_⟩
  rw [lastCall_of_nextCall hnext]
  rintro c' e tail ⟨⟩
  exact hnever e tail

/-- The path of the call names no file. -/
theorem notFound_of_lost (hnext : nextCall lib fs cache c = none)
    (hlost : ∀ path loc, c.Loads path → fs.resolve path ≠ .ok loc) (fuel : Nat) (code : AxError) :
    NotFound lib env fs cache (fuel + 1) c (.err code) := by
  refine notFound_of_stop hnext ?_ ?_ fuel code
  · rintro ⟨path, loc, hloads, hloc, -⟩
    exact hlost path loc hloads hloc
  · rintro e tail ⟨path, hloads, loc, hloc, -⟩
    exact hlost path loc hloads hloc

theorem nextCall_eq (hloads : c.Loads path) (hloc : fs.resolve path = .ok loc)
    (cache : List ElfCacheEntry) : nextCall lib fs cache c = match entryOf lib fs cache loc with
      | some _ => none
      | none => scriptCall lib path c.args (slice (fs.content loc) 0 4096) := by
  unfold nextCall
  simp only [hloads.1, hloads.2, Bool.false_eq_true, if_false, hloc]

/-- A file that cannot be sliced has no headers, and is no script. -/
theorem nextCall_of_unreadable (hloads : c.Loads path) (hloc : fs.resolve path = .ok loc)
    (hbad : Unreadable lib fs cache loc) : nextCall lib fs cache c = none := by
  obtain ⟨hfind, hrange⟩ := hbad
  unfold RangeOrdered at hrange
  push Not at hrange
  obtain ⟨start, stop, hrange, hlt⟩ := hrange
  have hentry : entryOf lib fs cache loc = none := by
    unfold entryOf headersOf
    simp only [hfind, hrange, if_pos hlt, Option.map_none]
  rw [nextCall_eq hloads hloc, hentry]
  exact scriptCall_of_phRange (by simp [hrange])

/-- The call loads one path, which names one file. -/
theorem Call.Loads.unique {path' : Str} {loc' : Nat} (hloads : c.Loads path)
    (hloc : fs.resolve path = .ok loc) (hloads' : c.Loads path')
    (hloc' : fs.resolve path' = .ok loc') : loc' = loc := by
  obtain rfl := Option.some.inj (hloads.1.symm.trans hloads'.1)
  exact Except.ok.inj (hloc'.symm.trans hloc)

/-- **Following the chain** changes no address space.  It ends at the last call. -/
theorem findProgram_spec : ∀ (fuel : Nat) (c : Call) (st : LoadState),
    wp (findProgram lib env fs fuel c) st
      (fun args st' => st'.mm = st.mm ∧ Found lib fs st.elfCache fuel c args st'.elfCache)
      (fun err st' => st'.mm = st.mm ∧ NotFound lib env fs st.elfCache fuel c err) := by
  intro fuel
  induction fuel with
  | zero =>
    intro c st
    refine ⟨rfl, ?_⟩
    rintro ⟨c', h, -⟩
    cases h
  | succ fuel ih =>
    intro c st
    -- spaces and cache stay as they are along the chain
    have hchain : ∀ c' st', nextCall lib fs st.elfCache c = some c' → st'.mm = st.mm →
        st'.elfCache = st.elfCache → wp (findProgram lib env fs fuel c') st'
          (fun args st' => st'.mm = st.mm ∧ Found lib fs st.elfCache (fuel + 1) c args st'.elfCache)
          (fun err st' => st'.mm = st.mm ∧ NotFound lib env fs st.elfCache (fuel + 1) c err) := by
      intro c' st' hnext hmm hcache
      have h := ih c' st'
      unfold Found NotFound ChainSane at h ⊢
      rw [lastCall_next hnext]
      rw [hmm, hcache] at h
      exact h
    unfold findProgram
    cases hprogram : c.program with
    | none =>
      refine ⟨rfl, notFound_of_lost ?_ (fun path _ h => ?_) fuel _⟩
      · unfold nextCall
        rw [hprogram]
      · cases hprogram.symm.trans h.1
    | some path =>
      simp only
      apply wp_ite
      · intro hsh
        refine hchain _ st ?_ rfl rfl
        unfold nextCall
        rw [hprogram]
        simp only [hsh, if_true]
      intro hsh
      rw [Bool.not_eq_true] at hsh
      have hloads : c.Loads path := ⟨hprogram, hsh⟩
      rw [wp_bind]
      refine wp_mono (ofExcept_spec (fs.resolve path)) ?_ ?_
      · rintro loc st₁ ⟨hloc, rfl⟩
        have hform : ¬ Unreadable lib fs st₁.elfCache loc → ¬ c.Malformed lib fs st₁.elfCache := by
          rintro hread ⟨path', loc', hloads', hloc', hbad⟩
          rw [hloads.unique hloc hloads' hloc'] at hbad
          exact hread hbad
        rw [wp_bind]
        refine wp_mono bringToFront_spec ?_ ?_
        · rintro r st₂ ⟨hmm, hread, hfront⟩
          have hnext := @nextCall_eq lib fs c path loc hloads hloc st₁.elfCache
          cases r with
          | ok u =>
            obtain ⟨e, tail, hentry, -, hcache, -⟩ := frontOf_eq_some hfront
            rw [hcache] at hfront
            rw [hentry] at hnext
            exact ⟨hmm, c, e, tail, lastCall_of_nextCall hnext fuel, rfl, hform hread,
              ⟨path, hloads, loc, hloc, hfront⟩, hcache⟩
          | error data =>
            obtain ⟨hcache, rfl, htouch, hnone⟩ := hfront
            simp only
            rcases hnone with hnone | ⟨hfails, hrange⟩
            · rw [entryOf_of_touch htouch, hnone] at hnext
              cases hcall : scriptCall lib path c.args (slice (fs.content loc) 0 4096) with
              | some c' => exact hchain c' st₂ (hnext.trans hcall) hmm hcache
              | none =>
                refine ⟨hmm, notFound_of_stop (hnext.trans hcall) (hform hread) ?_ fuel _⟩
                rintro e tail ⟨path', hloads', loc', hloc', hfront⟩
                rw [hloads.unique hloc hloads' hloc'] at hfront
                unfold frontOf at hfront
                rw [htouch, hnone] at hfront
                cases hfront
            · -- a failed read looks like a file without headers, but not like a script
              rw [scriptCall_of_phRange hrange]
              exact ⟨hmm, .inr hfails⟩
        · rintro err st₂ ⟨⟨hmm, -⟩, hhalt, herr⟩
          refine ⟨hmm, ?_⟩
          cases err with
          | err code => exact .inr (herr (by simp))
          | halt =>
            have hbad := hhalt rfl
            rintro ⟨c', hlast, hread⟩
            rw [lastCall_of_nextCall (nextCall_of_unreadable hloads hloc hbad)] at hlast
            obtain rfl := Option.some.inj hlast
            exact hread ⟨path, loc, hloads, hloc, hbad⟩
      · rintro err st₁ ⟨hne, hnone, rfl⟩
        cases err with
        | halt => exact absurd rfl hne
        | err code =>
          have hlost : ∀ path' loc, c.Loads path' → fs.resolve path' ≠ .ok loc := by
            intro path' loc hloads' hloc
            rw [Option.some.inj (hprogram.symm.trans hloads'.1), hloc] at hnone
            cases hnone
          refine ⟨rfl, notFound_of_lost ?_ hlost fuel code⟩
          unfold nextCall
          simp only [hprogram, hsh, Bool.false_eq_true, if_false]
          cases hres : fs.resolve path with
          | error err => rfl
          | ok loc => exact absurd hres (hlost path loc hloads)

end Chain

/-! ## §4. Ending. -/

/-- `load_user_app` ended, with a result or with an error code. -/
def Returns {α : Type} (m : LoadM α) (st : LoadState) : Prop :=
  wp m st (fun _ _ => True) (fun err _ => err ≠ .halt)

section Ends

variable {st : LoadState} {e : ElfCacheEntry} {tail : List ElfCacheEntry} {fuel : Nat}

theorem saneCall_of_clears (hclears : c.Clears lib fs cache e tail)
    (hread : ¬ c.Malformed lib fs cache) (hsane : Sane lib cfg checks fs sp e tail)
    (hblock : ∀ image, imageAt lib cfg fs sp e tail = some image →
      BlockSane cfg image.1 (lib.appStackRegion c.args envs image.2.2 cfg.userStackTop)) :
    SaneCall lib cfg checks fs cache sp envs c := by
  refine ⟨hread, ?_, ?_⟩
  · intro e' tail' h'
    obtain ⟨rfl, rfl⟩ := hclears.unique h'
    exact hsane
  · intro e' tail' image h'
    obtain ⟨rfl, rfl⟩ := hclears.unique h'
    exact hblock image

/-- Once the clear is reached, what is left to say is about the file that was
found. -/
theorem loadable_iff {c' : Call} (hlast : lastCall lib fs cache fuel c = some c')
    (hread : ¬ c'.Malformed lib fs cache) (hclears : c'.Clears lib fs cache e tail) :
    Loadable lib cfg checks fs cache sp envs fuel c ↔ Sane lib cfg checks fs sp e tail
      ∧ ∀ image, imageAt lib cfg fs sp e tail = some image →
        BlockSane cfg image.1 (lib.appStackRegion c'.args envs image.2.2 cfg.userStackTop) := by
  constructor
  · rintro ⟨c'', hlast', hsane⟩
    obtain rfl := Option.some.inj (hlast.symm.trans hlast')
    exact ⟨hsane.headers e tail hclears, fun image => hsane.block e tail image hclears⟩
  · rintro ⟨hsane, hblock⟩
    exact ⟨c', hlast, saneCall_of_clears hclears hread hsane hblock⟩

/-- **`load_user_app`, exit by exit.**  It panics only where the chain or the file is
not sane, and if all reads and allocations succeed, it panics there. -/
theorem loadUserApp_spec (hsp : st.mm.spaces[s]? = some sp) (fuel : Nat) (c : Call) :
    wp (loadUserApp lib cfg env fs s envs fuel c.path c.args) st
      (fun _ _ => Loadable lib cfg env.overflowChecks fs st.elfCache sp envs fuel c)
      (fun err _ => Refused (Loadable lib cfg env.overflowChecks fs st.elfCache sp envs fuel c) True
        (env.ReadFails ∨ env.OutOfMemory) err) := by
  rw [loadUserApp_eq, wp_bind]
  refine wp_mono (findProgram_spec fuel c st) ?_ ?_
  · rintro args st₁ ⟨hmm, c', e, tail, hlast, rfl, hread, hclears, hcache⟩
    rw [loadable_iff hlast hread hclears]
    unfold buildProgram
    rw [wp_bind]
    refine wp_mono (loadImage_spec (by rw [hmm]; exact hsp) hcache) ?_ ?_
    · rintro ⟨entry, auxv⟩ st₂ ⟨hsane, sp', himage, hsp'⟩
      simp only [hsane, himage, Option.some.injEq, forall_eq', true_and, wp_bind, wp_pure]
      exact wp_mono (setUpStack_panics hsp' c'.args envs auxv) (fun _ _ h => h)
        (fun _ _ hpost => hpost.imp id id .inr)
    · refine fun _ _ hpost => hpost.imp And.left ?_ id
      refine fun h => ⟨⟨h.1, fun image himage => ?_⟩, trivial⟩
      cases h.2.symm.trans himage
  · rintro err st₁ ⟨-, hpost⟩
    cases err with
    | halt =>
      rintro ⟨c', hlast, hsane⟩
      exact hpost ⟨c', hlast, hsane.readable⟩
    | err code =>
      rcases hpost with ⟨⟨c', hlast, hread⟩, hnever⟩ | hfails
      · refine .inl ⟨⟨c', hlast, hread, ?_, ?_⟩, trivial⟩
        · exact fun e tail h => absurd h (hnever c' e tail hlast)
        · exact fun e tail _ h => absurd h (hnever c' e tail hlast)
      · exact .inr (.inl hfails)

theorem returns_of_loadable (hsp : st.mm.spaces[s]? = some sp)
    (h : Loadable lib cfg env.overflowChecks fs st.elfCache sp envs fuel c) :
    Returns (loadUserApp lib cfg env fs s envs fuel c.path c.args) st := by
  refine wp_mono (loadUserApp_spec hsp fuel c) (fun _ _ _ => trivial) ?_
  rintro err _ hpost rfl
  exact hpost h

theorem loadable_of_returns (hsp : st.mm.spaces[s]? = some sp)
    (henv : ¬ (env.ReadFails ∨ env.OutOfMemory))
    (h : Returns (loadUserApp lib cfg env fs s envs fuel c.path c.args) st) :
    Loadable lib cfg env.overflowChecks fs st.elfCache sp envs fuel c := by
  have hboth := wp_and h (loadUserApp_spec hsp fuel c)
  unfold wp at hboth
  split at hboth
  · exact hboth.2
  next err st' _ =>
    cases err with
    | halt => exact absurd rfl hboth.1
    | err code => exact (hboth.2.resolve_right henv).1

end Ends

/-! ## §5. A chain that ends, and files that do not load. -/

/-- A file whose interpreter has the name that follows the headers, and whose
segment begins at another offset in the page than in the file. -/
def brokenInterpFile (path : Str) : Bytes :=
  elfFile ⟨[⟨.interp, true, false, false, 176, 0, path.length + 1, path.length + 1⟩,
      ⟨.load, true, false, true, 0, 1, 120, 4096⟩], 0⟩
    (path.map (fun c => UInt8.ofNat c.toNat) ++ [0])

/-- A script, its interpreter, a script that names itself, and three malformed
programs: a segment whose address and offset differ modulo the page size, a name
of the interpreter longer than the file, and a program that is its own
interpreter.  The interpreter of `/w` is missing. -/
def scriptDisk : FileSystem := .ofFiles
  [(['/', 't'], scriptFile ['/', 'e']), (['/', 'e'], segmentFile 0 0),
   (['/', 's'], scriptFile ['/', 's']), (['/', 'u'], segmentFile 0 1),
   (['/', 'l'], interpFile ['/', 'e'] 10000), (['/', 'i'], interpFile ['/', 'i'] 3),
   (['/', 'w'], brokenInterpFile ['/', 'x'])]

def callOf (path : Str) : Call := ⟨some path, [path]⟩

/-- The call that the script `/t` makes. -/
def scriptChild : Call := ⟨none, [['/', 'e'], ['/', 't']]⟩

/-- The headers of the interpreter `/e`. -/
def childEntry : ElfCacheEntry :=
  ⟨1, ⟨[⟨.load, true, false, true, 0, 0, 120, 4096⟩], 0⟩⟩

/-- The headers of `/w`. -/
def brokenEntry : ElfCacheEntry :=
  ⟨6, ⟨[⟨.interp, true, false, false, 176, 0, 3, 3⟩, ⟨.load, true, false, true, 0, 1, 120, 4096⟩],
    0⟩⟩

/-- What the loader finds in `/t`, in its interpreter, in `/w` and in `/s`. -/
theorem scriptDisk_reads : (lastCall elf64 scriptDisk [] 2 (callOf ['/', 't']) = some scriptChild
      ∧ frontOf elf64 scriptDisk [] 1 = some [childEntry])
    ∧ (lastCall elf64 scriptDisk [] 2 (callOf ['/', 'w']) = some (callOf ['/', 'w'])
      ∧ frontOf elf64 scriptDisk [] 6 = some [brokenEntry]
      ∧ interpreterPath elf64 scriptDisk brokenEntry = some ['/', 'x'])
    ∧ (entryOf elf64 scriptDisk [] 2 = none
      ∧ isScript (slice (scriptDisk.content 2) 0 4096) = true
      ∧ elf64.fromUtf8 (shebangLine (slice (scriptDisk.content 2) 0 4096)) = some ['/', 's']
      ∧ shebangWords elf64 ['/', 's'] = [['/', 's']]) := by
  decide +kernel

/-- A call whose path names a file with these headers. -/
theorem saneCall_of_front {c : Call} {path : Str} {loc : Nat} {e : ElfCacheEntry}
    {tail : List ElfCacheEntry} (hloads : c.Loads path) (hloc : scriptDisk.resolve path = .ok loc)
    (hfront : frontOf elf64 scriptDisk [] loc = some (e :: tail))
    (hsane : Sane elf64 .riscv64 false scriptDisk AddrSpace.onePage e tail)
    (hblock : ∀ image, imageAt elf64 .riscv64 scriptDisk AddrSpace.onePage e tail = some image →
      BlockSane .riscv64 image.1
        (elf64.appStackRegion c.args [] image.2.2 Config.riscv64.userStackTop)) :
    SaneCall elf64 .riscv64 false scriptDisk [] AddrSpace.onePage [] c := by
  refine saneCall_of_clears ⟨path, hloads, loc, hloc, hfront⟩ ?_ hsane hblock
  rintro ⟨_, loc', -, -, hbad⟩
  exact hbad.2 (rangeOrdered_elf64 _)

theorem child_sane :
    SaneCall elf64 .riscv64 false scriptDisk [] AddrSpace.onePage [] scriptChild := by
  obtain ⟨⟨-, hfront⟩, -⟩ := scriptDisk_reads
  have hnone : interpHeader childEntry.elf = none := rfl
  have hpath : interpreterPath elf64 scriptDisk childEntry = none := rfl
  refine saneCall_of_front ⟨rfl, by decide⟩ (show scriptDisk.resolve ['/', 'e'] = .ok 1 from rfl)
    hfront ⟨fun _ => ?_, fun sp₀ _ parts hparts => ?_⟩ ?_
  · exact interpSane_of_unnamed (fun ph h => absurd (hnone.symm.trans h) (by simp))
      (fun path loc h => absurd (hpath.symm.trans h) (by simp))
  · have hstatic : partsAt elf64 scriptDisk childEntry [] = some (childEntry, none) := rfl
    obtain rfl := Option.some.inj (hstatic.symm.trans hparts)
    refine ⟨?_, fun _ _ _ h => absurd h (by simp)⟩
    intro base hbase pre ph post hphs _
    cases hbase
    have hmem : ph ∈ childEntry.loads := by simp [hphs]
    obtain rfl : ph = ⟨.load, true, false, true, 0, 0, 120, 4096⟩ := by
      simpa [childEntry, ElfCacheEntry.loads] using hmem
    exact ⟨rfl, fun h => absurd h (by decide)⟩
  · intro image _ _
    show (elf64.appStackRegion scriptChild.args [] [] 0).length ≤ _
    decide

/-- The missing interpreter of `/w` is reported before its segment is looked at. -/
theorem broken_sane :
    SaneCall elf64 .riscv64 false scriptDisk [] AddrSpace.onePage [] (callOf ['/', 'w']) := by
  obtain ⟨-, ⟨-, hfront, hpath⟩, -⟩ := scriptDisk_reads
  have hlost : ∀ path loc, interpreterPath elf64 scriptDisk brokenEntry = some path →
      scriptDisk.resolve path ≠ .ok loc := by
    intro path loc h hloc
    rw [← Option.some.inj (hpath.symm.trans h)] at hloc
    cases hloc
  have hnone : partsAt elf64 scriptDisk brokenEntry [] = none :=
    partsAt_eq_none (by decide) (fun path loc h hloc => absurd hloc (hlost path loc h))
  refine saneCall_of_front ⟨rfl, by decide⟩ (show scriptDisk.resolve ['/', 'w'] = .ok 6 from rfl)
    hfront ⟨fun _ => interpSane_of_unnamed (by decide +kernel) hlost, fun _ _ _ h => ?_⟩ ?_
  · cases hnone.symm.trans h
  · intro image h
    unfold imageAt at h
    simp [hnone] at h

/-- The script `/s` calls itself with one more argument, for ever. -/
theorem lastCall_self : ∀ (n : Nat) (args : List Str),
    lastCall elf64 scriptDisk [] n ⟨none, ['/', 's'] :: args⟩ = none := by
  intro n
  induction n with
  | zero => exact fun _ => rfl
  | succ n ih =>
    intro args
    have hnext : nextCall elf64 scriptDisk [] ⟨none, ['/', 's'] :: args⟩
        = some ⟨none, ['/', 's'] :: ['/', 's'] :: args⟩ := by
      have hloads : Call.Loads ⟨none, ['/', 's'] :: args⟩ ['/', 's'] := ⟨rfl, by decide⟩
      obtain ⟨-, -, hentry, -⟩ := scriptDisk_reads
      rw [nextCall_eq hloads (show scriptDisk.resolve ['/', 's'] = .ok 2 from rfl), hentry]
      rfl
    rw [lastCall_next hnext]
    exact ih _

/-- What happened to a program, as far as a panic goes. -/
def halts {α : Type} (m : LoadM α) (st : LoadState) : Bool :=
  match m st with
  | .error .halt _ => true
  | _ => false

theorem not_returns_of_halts {α : Type} {m : LoadM α} {st : LoadState} (h : halts m st = true) :
    ¬ Returns m st := by
  intro hreturns
  unfold halts at h
  unfold Returns wp at hreturns
  grind

end StarryOS.Exec
