/-
  StarryOS.Exec.Elf64 — FILES FOR THE EXAMPLES.

  `Elf.elf64` is one parser for which the examples of the next modules are
  computed: little-endian ELF64, position-independent programs, and of the
  argument block only the strings.  The theorems are about any parser.
-/
import StarryOS.Exec.LoaderRules

namespace StarryOS.Exec

open Lib Mm

/-! ## §1. Reading. -/

/-- The word of `w` bytes at offset `off`. -/
def word (data : Bytes) (off w : Nat) : Nat := wordValue (slice data off w)

/-- `p_type`. -/
def phType (n : Nat) : PhType := if n = 1 then .load else if n = 3 then .interp else .other

/-- One entry of the program header table. -/
def programHeader (data : Bytes) : ProgramHeader where
  type := phType (word data 0 4)
  read := decide (word data 4 4 / 4 % 2 = 1)
  write := decide (word data 4 4 / 2 % 2 = 1)
  execute := decide (word data 4 4 % 2 = 1)
  offset := word data 8 8
  virtualAddr := word data 16 8
  fileSize := word data 32 8
  memSize := word data 40 8

def programHeaders : Nat → Bytes → List ProgramHeader
  | 0, _ => []
  | n + 1, data => programHeader data :: programHeaders n (data.drop 56)

/-- The parser of the examples: a whole file header, and entries of 56 bytes. -/
def Elf.elf64 : Elf where
  phRange data :=
    if data.take 4 = elfMagic ∧ 64 ≤ data.length then
      some (word data 32 8, word data 32 8 + word data 54 2 * word data 56 2)
    else none
  magic data range h := by
    split at h
    next hmagic => exact hmagic.1
    · cases h
  build data table :=
    if word data 54 2 = 56 then some ⟨programHeaders (word data 56 2) table, word data 24 8⟩
    else none
  base _ bias := some bias
  entry elf base := elf.entryPoint + base
  -- AT_PHDR, AT_PHENT, AT_PHNUM, AT_PAGESZ, AT_BASE, AT_ENTRY
  auxVector elf base ldso := [(3, base + 64), (4, 56), (5, elf.ph.length), (6, 4096),
    (7, ldso.getD 0), (9, elf.entryPoint + base)]
  appStackRegion args envs _ _ :=
    ((args ++ envs).map (fun s => s.map (fun c => UInt8.ofNat c.toNat) ++ [0])).flatten
  fromUtf8 bytes :=
    if bytes.all (fun b => b.toNat < 128) then some (bytes.map (fun b => Char.ofNat b.toNat))
    else none
  isWhitespace c := isAsciiWhitespace c || c = '\x0b'

/-! ## §2. Writing. -/

def typeCode : PhType → Nat
  | .load => 1
  | .interp => 3
  | .other => 0

def flagCode (read write execute : Bool) : Nat :=
  4 * read.toNat + 2 * write.toNat + execute.toNat

/-- One entry of the table: 56 bytes. -/
def headerBytes (ph : ProgramHeader) : Bytes :=
  [wordBytes 4 (typeCode ph.type), wordBytes 4 (flagCode ph.read ph.write ph.execute),
    wordBytes 8 ph.offset, wordBytes 8 ph.virtualAddr, wordBytes 8 ph.virtualAddr,
    wordBytes 8 ph.fileSize, wordBytes 8 ph.memSize, wordBytes 8 4096].flatten

/-- The file header: 64 bytes, with the table right behind it. -/
def fileHeader (elf : ElfHeaders) : Bytes :=
  [elfMagic, [2, 1, 1, 0], wordBytes 8 0, wordBytes 2 3, wordBytes 2 243, wordBytes 4 1,
    wordBytes 8 elf.entryPoint, wordBytes 8 64, wordBytes 8 0, wordBytes 4 0, wordBytes 2 64,
    wordBytes 2 56, wordBytes 2 elf.ph.length, wordBytes 6 0].flatten

/-- A file with these headers. -/
def elfFile (elf : ElfHeaders) (body : Bytes) : Bytes :=
  fileHeader elf ++ ((elf.ph.map headerBytes).flatten ++ body)

theorem rangeOrdered_elf64 (content : Bytes) : RangeOrdered Elf.elf64 content := by
  intro start stop h
  unfold Elf.elf64 at h
  grind

/-! ## §3. A disk. -/

/-- The files of a disk, each under one name. -/
def FileSystem.ofFiles (files : List (Str × Bytes)) : FileSystem where
  resolve path :=
    match files.findIdx? (fun f => decide (f.1 = path)) with
    | some loc => .ok loc
    | none => .error .notFound
  content loc := (files[loc]?.map Prod.snd).getD []
  absolutePath loc := .ok ((files[loc]?.map Prod.fst).getD [])
  name loc := (files[loc]?.map Prod.fst).getD []

/-- A file whose first line is `#!` and the path of an interpreter. -/
def scriptFile (path : Str) : Bytes :=
  [35, 33] ++ path.map (fun c => UInt8.ofNat c.toNat) ++ [10]

/-- A file without segments, whose interpreter has the name that follows the
headers.  `size` is the length that `PT_INTERP` gives for the name. -/
def interpFile (path : Str) (size : Nat) : Bytes :=
  elfFile ⟨[⟨.interp, true, false, false, 120, 0, size, size⟩], 0⟩
    (path.map (fun c => UInt8.ofNat c.toNat) ++ [0])

/-- A file with one segment of a page. -/
def segmentFile (offset addr : Nat) : Bytes :=
  elfFile ⟨[⟨.load, true, false, true, offset, addr, 120, 4096⟩], 0⟩ []

/-- The environment of the examples. -/
def LoadEnv.calm : LoadEnv := .steady false

/-- An address space that has one mapping. -/
def AddrSpace.onePage : AddrSpace Backend where
  vaStart := 0x1000
  vaStop := 0x4000000000
  areas := AreaSet.empty.insert ⟨0x10000, 0x11000, by decide, .rw, .alloc 0x10000⟩

/-- Nothing was loaded so far; the page of the mapping is in memory. -/
def LoadState.fresh : LoadState where
  mm := ⟨[AddrSpace.onePage], ⟨fun key => if key = (0, 0x10000) then some 0 else none, 1⟩⟩
  elfCache := []
  reads := 0

end StarryOS.Exec
