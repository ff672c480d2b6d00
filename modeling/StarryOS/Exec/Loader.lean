/-
  StarryOS.Exec.Loader — LOADING AN EXECUTABLE (`kernel/src/mm/loader.rs`).

  `load_user_app` follows `.sh` names and `#!` lines until it has a file with
  ELF headers, then builds the image of that file: trampoline, segments of the
  program and of its interpreter, stack, heap.

  THE IMAGE IS BUILT IN PLACE: `ElfLoader::load` clears the address space as
  soon as it has the headers of the program, and everything after that can
  still fail.

  Code of other crates (the ELF parser, `core::str`, the layout of the argument
  block) is the structure `Elf`; only that the parser insists on the magic number
  is assumed.  Programs end with a value, with an error, or with `halt`: a panic
  of the kernel, or more recursive calls than `load_user_app` is given.
-/
import Mathlib.Data.FinEnum
import StarryOS.Lib.ByteString
import StarryOS.Mm.AddrSpace

namespace StarryOS.Exec

open Lib Mm

/-! ## §1. Files, headers, configuration. -/

/-- A Rust `String`. -/
abbrev Str := List Char

/-- `xmas_elf::program::Type`, as far as the loader looks. -/
inductive PhType where
  | load
  | interp
  | other
  deriving Repr, DecidableEq

/-- A program header, with its flags apart. -/
structure ProgramHeader where
  type : PhType
  read : Bool
  write : Bool
  execute : Bool
  offset : Nat
  virtualAddr : Nat
  fileSize : Nat
  memSize : Nat
  deriving Repr, DecidableEq

/-- `ELFHeaders`: the program headers, and the rest of the file header as far as
its entry point. -/
structure ElfHeaders where
  ph : List ProgramHeader
  entryPoint : Nat
  deriving Repr, DecidableEq

abbrev AuxVector := List (Nat × Nat)

/-- `\x7fELF`. -/
def elfMagic : Bytes := [0x7f, 0x45, 0x4c, 0x46]

/-- Code of other crates. -/
structure Elf where
  /-- `ELFHeadersBuilder::new(data)` and `ph_range()`. -/
  phRange : Bytes → Option (Nat × Nat)
  /-- Data without the magic number is refused. -/
  magic : ∀ data range, phRange data = some range → data.take 4 = elfMagic
  /-- `builder.build(..)` on the bytes of the program headers. -/
  build : Bytes → Bytes → Option ElfHeaders
  /-- `ELFParser::new(headers, base)`: the base it chooses. -/
  base : ElfHeaders → Nat → Option Nat
  /-- `ELFParser::entry`. -/
  entry : ElfHeaders → Nat → Nat
  /-- `ELFParser::aux_vector`. -/
  auxVector : ElfHeaders → Nat → Option Nat → AuxVector
  /-- `app_stack_region`. -/
  appStackRegion : List Str → List Str → AuxVector → Nat → Bytes
  /-- `core::str::from_utf8`. -/
  fromUtf8 : Bytes → Option Str
  /-- `char::is_whitespace`. -/
  isWhitespace : Char → Bool

/-- The file system.  Locations are named by numbers, `ptr_eq` compares them. -/
structure FileSystem where
  resolve : Str → AxResult Nat
  content : Nat → Bytes
  absolutePath : Nat → AxResult Str
  name : Nat → Str

/-- `kernel/src/config`. -/
structure Config where
  userSpaceBase : Nat
  userSpaceSize : Nat
  userStackTop : Nat
  userStackSize : Nat
  userHeapBase : Nat
  userHeapSize : Nat
  userInterpBase : Nat
  signalTrampoline : Nat

/-- `kernel/src/config/riscv64.rs`. -/
def Config.riscv64 : Config where
  userSpaceBase := 0x1000
  userSpaceSize := 0x3ffffff000
  userStackTop := 0x400000000
  userStackSize := 0x80000
  userHeapBase := 0x40000000
  userHeapSize := 0x10000
  userInterpBase := 0x4000000
  signalTrampoline := 0x60001000

/-- Answers from outside, one per call: reads of files, and the calls of the
backends that need memory.  A debug build checks arithmetic for overflow. -/
structure LoadEnv where
  readErr : Nat → Option AxError
  mmOk : Nat → Bool
  overflowChecks : Bool

/-! ## §2. Backends as the loader uses them. -/

/-- What an area is backed by. -/
inductive Backend where
  | linear
  | cow (start file fileStart fileEnd : Nat)
  | alloc (start : Nat)
  | other (n : Nat)
  deriving Repr, DecidableEq

/-- The page frames behind the addresses of each space, numbered by the call that
brought them in, and how many calls there were. -/
structure LoadMem where
  frames : Nat × Nat → Option Nat
  calls : Nat

def LoadMem.present (m : LoadMem) (key : Nat × Nat) : Bool := (m.frames key).isSome

abbrev SpaceM := MmM LoadMem Backend

/-- The address is in `[lo, hi)` of space `s`. -/
def inRange (s lo hi : Nat) (key : Nat × Nat) : Bool :=
  decide (key.1 = s) && decide (lo ≤ key.2) && decide (key.2 < hi)

/-- The next call of a backend that needs memory. -/
def memCall (env : LoadEnv) : SpaceM Unit := do
  let m := (← get).mem
  modify (fun st => st.withMem (fun m => { m with calls := m.calls + 1 }))
  if env.mmOk m.calls then return () else throw (.err .noMemory)

def ops (env : LoadEnv) : BackendOps LoadMem Backend where
  pageSize _ := .size4K
  map _ _ _ _ _ := memCall env
  unmap _ s lo hi := modify (fun st => st.withMem (fun m => { m with
    frames := fun key => if inRange s lo hi key then none else m.frames key }))
  onProtect _ _ := return ()
  protectRegion _ _ _ _ := return ()
  populate _ s lo hi _ _ := do
    let call := (← get).mem.calls
    memCall env
    modify (fun st => st.withMem (fun m => { m with
      frames := fun key => (m.frames key).or (if inRange s lo hi key then some call else none) }))
    return ((hi - lo) / 4096, none)
  cloneMap b _ _ _ _ _ := return b
  dropPageTable s := modify (fun st => st.withMem (fun m => { m with
    frames := fun key => if key.1 = s then none else m.frames key }))

/-- `AddrSpace::write`: every page of the range has to be present. -/
def writeSpace (s start : Nat) (data : Bytes) : SpaceM Unit := do
  let sp ← getSpace s
  if sp.containsRange start data.length then do
    let lo := start / 4096 * 4096
    let hi := (start + data.length + 4095) / 4096 * 4096
    let m := (← get).mem
    if (List.range ((hi - lo) / 4096)).all (fun i => m.present (s, lo + i * 4096)) then
      return ()
    else
      throw (.err .badAddress)
  else
    throw (.err .invalidInput)

/-! ## §3. The loader's state. -/

/-- `ElfCacheEntry`: a file and the headers that were read from it. -/
structure ElfCacheEntry where
  loc : Nat
  elf : ElfHeaders
  deriving Repr, DecidableEq

/-- Memory, header cache, and the reads so far. -/
structure LoadState where
  mm : MmState LoadMem Backend
  /-- `ELF_LOADER`, most recently used first. -/
  elfCache : List ElfCacheEntry
  reads : Nat

abbrev LoadM := EStateM Stop LoadState

/-- A program on the address spaces. -/
def onSpace {α : Type} (m : SpaceM α) : LoadM α := fun st =>
  match m st.mm with
  | .ok a mm => .ok a { st with mm := mm }
  | .error e mm => .error e { st with mm := mm }

def ofExcept {α : Type} : AxResult α → LoadM α
  | .ok a => return a
  | .error e => throw (.err e)

/-- `LRUCache::touch`. -/
def touch (loc : Nat) (cache : List ElfCacheEntry) : Option (List ElfCacheEntry) :=
  (cache.find? (fun e => decide (e.loc = loc))).map
    (fun e => e :: cache.eraseP (fun e => decide (e.loc = loc)))

/-- `LRUCache::insert`, with room for 32 entries. -/
def insertEntry (e : ElfCacheEntry) (cache : List ElfCacheEntry) : List ElfCacheEntry :=
  e :: cache.take 31

section Functions

variable (lib : Elf) (cfg : Config) (env : LoadEnv) (fs : FileSystem)

/-- `a + b` on `usize`. -/
def addUsize (a b : Nat) : LoadM Nat :=
  if env.overflowChecks && decide (2 ^ 64 ≤ a + b) then throw .halt
  else return (a + b) % 2 ^ 64

/-- `CachedFile::read_at` into a buffer of `n` bytes. -/
def readFile (loc n off : Nat) : LoadM Bytes := do
  let st ← get
  set { st with reads := st.reads + 1 }
  match env.readErr st.reads with
  | some e => throw (.err e)
  | none => return slice (fs.content loc) off n

/-! ## §4. Headers. -/

/-- `ElfCacheEntry::load`: the headers, or the first bytes of a file that has
none.  An error in the closure is taken for "no headers", too. -/
def loadEntry (loc : Nat) : LoadM (Except Bytes ElfCacheEntry) := do
  let data ← readFile env fs loc 4096 0
  match lib.phRange data with
  | none => return .error data
  | some (start, stop) =>
    -- slicing with `start > stop` panics, allocating `stop - start` then, too
    if stop < start then throw .halt
    else if stop ≤ data.length then
      match lib.build data (slice data start (stop - start)) with
      | some elf => return .ok ⟨loc, elf⟩
      | none => return .error data
    else
      tryCatch
        (do
          let bytes ← readFile env fs loc (stop - start) start
          match lib.build data (resize 0 (stop - start) bytes) with
          | some elf => return .ok ⟨loc, elf⟩
          | none => return .error data)
        (fun e => match e with
          | .err _ => return .error data
          | .halt => throw .halt)

/-- The entry of `loc` becomes the front of the cache. -/
def bringToFront (loc : Nat) : LoadM (Except Bytes Unit) := do
  match touch loc (← get).elfCache with
  | some cache => do
    modify (fun st => { st with elfCache := cache })
    return .ok ()
  | none => do
    match ← loadEntry lib env fs loc with
    | .ok e => do
      modify (fun st => { st with elfCache := insertEntry e st.elfCache })
      return .ok ()
    | .error data => return .error data

/-! ## §5. The image. -/

/-- `map_trampoline`. -/
def mapTrampoline (s : Nat) : LoadM Unit :=
  onSpace (map (ops env) s cfg.signalTrampoline 4096 ⟨true, false, true, true⟩ false .linear)

/-- `CStr::from_bytes_with_nul(..)` and `to_str()`. -/
def cStr (data : Bytes) : Option Str :=
  if data.getLast? = some 0 ∧ ∀ b ∈ data.dropLast, b ≠ 0 then lib.fromUtf8 data.dropLast
  else none

/-- The path of the interpreter that the program asks for. -/
def interpreter (e : ElfCacheEntry) : LoadM (Option Str) := do
  match e.elf.ph.find? (fun ph => decide (ph.type = .interp)) with
  | none => return none
  | some header => do
    let data ← readFile env fs e.loc header.fileSize header.offset
    -- `assert_eq!(data.len(), read)`
    if data.length ≠ header.fileSize then throw .halt
    else
      match cStr lib data with
      | some path => return some path
      | none => throw (.err .invalidInput)

/-- `mapping_flags`. -/
def mappingFlags (ph : ProgramHeader) : MappingFlags := ⟨ph.read, ph.write, ph.execute, true⟩

/-- The loop of `map_elf` over the `PT_LOAD` headers of file `loc`. -/
def mapSegments (s base loc : Nat) : List ProgramHeader → LoadM Unit
  | [] => return ()
  | ph :: rest => do
    let vaddr ← addUsize env ph.virtualAddr base
    let segPad := vaddr % 4096
    -- `assert_eq!(seg_pad, ph.offset % PAGE_SIZE_4K)`
    if segPad ≠ ph.offset % 4096 then throw .halt
    else do
      let padded ← addUsize env ph.memSize segPad
      let sum ← addUsize env padded 4096
      -- `- 1` and the mask, on `usize`
      let segAlignSize := (sum + (2 ^ 64 - 1)) % 2 ^ 64 / 4096 * 4096
      let fileEnd ← addUsize env ph.offset ph.fileSize
      onSpace (map (ops env) s (vaddr - segPad) segAlignSize (mappingFlags ph) false
        (.cow vaddr loc ph.offset fileEnd))
      mapSegments s base loc rest

/-- `map_elf`: the base that the parser chose. -/
def mapElf (s base : Nat) (e : ElfCacheEntry) : LoadM Nat := do
  match lib.base e.elf base with
  | none => throw (.err .invalidData)
  | some base => do
    mapSegments env s base e.loc (e.elf.ph.filter (fun ph => decide (ph.type = .load)))
    return base

/-- The entries of the program, now at the front, and of its interpreter. -/
def programAndInterpreter : LoadM (ElfCacheEntry × Option ElfCacheEntry) := do
  match (← get).elfCache with
  | [] => throw .halt
  | entry :: _ => do
    match ← interpreter lib env fs entry with
    | none => return (entry, none)
    | some path => do
      let loc ← ofExcept (fs.resolve path)
      match ← bringToFront lib env fs loc with
      | .error _ => throw (.err .invalidInput)
      | .ok () => do
        -- the program is taken to be the second entry now
        match (← get).elfCache with
        | ldso :: elf :: _ => return (elf, some ldso)
        | _ => throw .halt

/-- Program and interpreter are mapped one after the other. -/
def mapParts (s : Nat) (elf : ElfCacheEntry) (ldso : Option ElfCacheEntry) :
    LoadM (Nat × AuxVector) := do
  let base ← mapElf lib env s cfg.userSpaceBase elf
  match ldso with
  | none => return (lib.entry elf.elf base, lib.auxVector elf.elf base none)
  | some ldso => do
    let ldsoBase ← mapElf lib env s cfg.userInterpBase ldso
    return (lib.entry ldso.elf ldsoBase, lib.auxVector elf.elf base (some ldsoBase))

/-- `ElfLoader::load` from `uspace.clear()` on. -/
def loadImage (s : Nat) : LoadM (Nat × AuxVector) := do
  onSpace (clear (ops env) s)
  mapTrampoline cfg env s
  let (elf, ldso) ← programAndInterpreter lib env fs
  mapParts lib cfg env s elf ldso

/-- `ElfLoader::load`. -/
def load (s : Nat) (path : Str) : LoadM (Except Bytes (Nat × AuxVector)) := do
  let loc ← ofExcept (fs.resolve path)
  match ← bringToFront lib env fs loc with
  | .error data => return .error data
  | .ok () => do
    let r ← loadImage lib cfg env fs s
    return .ok r

/-! ## §6. `load_user_app`. -/

/-- `u8::is_ascii_whitespace`. -/
def isAsciiWhitespace (c : Char) : Bool :=
  c = ' ' || c = '\t' || c = '\n' || c = '\x0c' || c = '\r'

/-- `trim` with respect to a set of characters. -/
def trimBy (p : Char → Bool) (s : Str) : Str := ((s.dropWhile p).reverse.dropWhile p).reverse

/-- The words of a `#!` line: `splitn(2, ..)` after `trim`. -/
def shebangWords (line : Str) : List Str :=
  let line := trimBy lib.isWhitespace line
  let word := line.takeWhile (fun c => !isAsciiWhitespace c)
  match line.drop word.length with
  | [] => [trimBy isAsciiWhitespace word]
  | _ :: rest => [trimBy isAsciiWhitespace word, trimBy isAsciiWhitespace rest]

/-- `data.starts_with(b"#!")`. -/
def isScript (data : Bytes) : Bool := data.take 2 = [35, 33]

/-- The first line of a script, without `#!`. -/
def shebangLine (data : Bytes) : Bytes :=
  ((data.take 256).drop 2).takeWhile (fun b => b ≠ 10)

/-- `path.ends_with(".sh")`. -/
def endsWithSh (path : Str) : Bool := ['.', 's', 'h'].isSuffixOf path

def binSh : Str := ['/', 'b', 'i', 'n', '/', 's', 'h']

/-- The arguments of the interpreter of a script. -/
def scriptArgs (words : List Str) (path : Str) (args : List Str) : List Str :=
  words ++ path :: args.drop 1

/-- Stack, arguments and heap. -/
def setUpStack (s : Nat) (args envs : List Str) (auxv : AuxVector) : LoadM Nat := do
  let start := cfg.userStackTop - cfg.userStackSize
  onSpace (map (ops env) s start cfg.userStackSize .rw false (.alloc start))
  let data := lib.appStackRegion args envs auxv cfg.userStackTop
  -- `ustack_top - stack_data.len()`
  if cfg.userStackTop < data.length then throw .halt
  else do
    let userSp := cfg.userStackTop - data.length
    let aligned := userSp / 4096 * 4096
    onSpace (populateArea (ops env) s aligned ((cfg.userStackTop - aligned + 4095) / 4096 * 4096)
      ⟨true, true, false, false⟩)
    onSpace (writeSpace s userSp data)
    onSpace (map (ops env) s cfg.userHeapBase cfg.userHeapSize .rw true (.alloc cfg.userHeapBase))
    return userSp

/-- `load_user_app` with at most `fuel` calls of itself. -/
def loadUserApp (s : Nat) (envs : List Str) : Nat → Option Str → List Str → LoadM (Nat × Nat)
  | 0, _, _ => throw .halt
  | fuel + 1, path, args => do
    match path <|> args.head? with
    | none => throw (.err .invalidInput)
    | some path =>
      if endsWithSh path then
        loadUserApp s envs fuel none (binSh :: args)
      else do
        match ← load lib cfg env fs s path with
        | .ok (entry, auxv) => do
          let userSp ← setUpStack lib cfg env s args envs auxv
          return (entry, userSp)
        | .error data =>
          if isScript data then
            match lib.fromUtf8 (shebangLine data) with
            | none => throw (.err .invalidInput)
            | some line =>
              loadUserApp s envs fuel none (scriptArgs (shebangWords lib line) path args)
          else
            throw (.err .invalidExecutable)

end Functions

end StarryOS.Exec
