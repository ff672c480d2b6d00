/-
  StarryOS.Net.SockAddr — SOCKET ADDRESSES IN USER MEMORY (`SocketAddrExt` of
  `kernel/src/syscall/net/addr.rs`).

  `write_to_user` stores the prefix of an address that fits into the buffer and
  reports the whole length.  IP addresses are read back as they were written
  (`sockaddr_round_trips_iff`).  Unix addresses are not: `AF_UNIX` is a `u32`, so
  its four bytes are written where two are read, and the other two become the
  beginning of an abstract name (`unnamed_comes_back_abstract`).
-/
import StarryOS.Errno
import StarryOS.Lib.ByteString

namespace StarryOS.Net

open Lib

/-! ## §1. Writing and reading. -/

inductive UnixSocketAddr where
  | unnamed
  | abstract (name : Bytes)
  | path (path : String)

/-- `SocketAddrEx`; an IP address is the number of its octets. -/
inductive SocketAddr where
  | v4 (ip : BitVec 32) (port : BitVec 16)
  | v6 (ip : BitVec 128) (port : BitVec 16) (flowinfo scopeId : BitVec 32)
  | unix (addr : UnixSocketAddr)

def SocketAddr.isIp : SocketAddr → Bool
  | .unix _ => false
  | _ => true

/-- A number in network byte order. -/
def beBytes {w : Nat} (n : BitVec (8 * w)) : Bytes := (wordBytes w n.toNat).reverse

def beValue (w : Nat) (bytes : Bytes) : BitVec (8 * w) := .ofNat _ (wordValue bytes.reverse)

/-- What `write_to_user` has to store. -/
def SocketAddr.bytes : SocketAddr → Bytes
  | .v4 ip port =>
    wordBytes 2 2 ++ (beBytes (w := 2) port ++ (beBytes (w := 4) ip ++ List.replicate 8 0))
  | .v6 ip port flowinfo scopeId =>
    wordBytes 2 10 ++ (beBytes (w := 2) port ++ (beBytes (w := 4) flowinfo
      ++ (beBytes (w := 16) ip ++ wordBytes 4 scopeId.toNat)))
  -- `AF_UNIX.to_ne_bytes()`
  | .unix .unnamed => wordBytes 4 1
  | .unix (.abstract name) => wordBytes 4 1 ++ 0 :: name
  | .unix (.path path) => wordBytes 4 1 ++ (path.toUTF8.toList ++ [0])

/-- `fill_addr`: the buffer afterwards, and the length in `addrlen`. -/
def fillAddr (buffer : Bytes) (addrlen : BitVec 32) (data : Bytes) :
    Bytes × BitVec 32 :=
  let len := min addrlen.toNat data.length
  (data.take len ++ buffer.drop len, .ofNat 32 data.length)

def SocketAddr.writeToUser (a : SocketAddr) (buffer : Bytes) (addrlen : BitVec 32) :
    Bytes × BitVec 32 :=
  fillAddr buffer addrlen a.bytes

/-- `UnixSocketAddr::read_from_user`, behind the family. -/
def readUnix : Bytes → AxResult SocketAddr
  | [] => .ok (.unix .unnamed)
  | c :: rest =>
    if c = 0 then .ok (.unix (.abstract rest))
    else
      match String.fromUTF8? ⟨((c :: rest).takeWhile (fun b => b ≠ 0)).toArray⟩ with
      | some path => .ok (.unix (.path path))
      | none => .error .invalidInput

/-- `read_from_user`, without the feature `vsock`. -/
def readFromUser (buffer : Bytes) (addrlen : BitVec 32) : AxResult SocketAddr :=
  if addrlen.toNat < 2 then .error .invalidInput
  else
    match wordValue (slice buffer 0 2) with
    | 2 =>
      if addrlen ≠ 16 then .error .invalidInput
      else .ok (.v4 (beValue 4 (slice buffer 4 4)) (beValue 2 (slice buffer 2 2)))
    | 10 =>
      if addrlen ≠ 28 then .error .invalidInput
      else .ok (.v6 (beValue 16 (slice buffer 8 16)) (beValue 2 (slice buffer 2 2))
        (beValue 4 (slice buffer 4 4)) (.ofNat 32 (wordValue (slice buffer 24 4))))
    | 1 => readUnix (slice buffer 2 (addrlen.toNat - 2))
    | _ => .error .afNotSupported

/-! ## §2. What is read back. -/

/-- A buffer that is too small gets the prefix that fits and the whole length; from any other
one the address is read back. -/
def RoundTrips (a : SocketAddr) (buffer : Bytes) (addrlen : BitVec 32) : Prop :=
  let written := a.writeToUser buffer addrlen
  if addrlen.toNat < a.bytes.length then
    written.1 = a.bytes.take addrlen.toNat ++ buffer.drop addrlen.toNat
      ∧ written.2.toNat = a.bytes.length
  else readFromUser written.1 written.2 = .ok a

theorem beValue_beBytes {w : Nat} (n : BitVec (8 * w)) : beValue w (beBytes n) = n := by
  unfold beValue beBytes
  rw [List.reverse_reverse, wordValue_wordBytes, Nat.mod_eq_of_lt, BitVec.ofNat_toNat,
    BitVec.setWidth_eq]
  have hlt := n.isLt
  rw [Nat.pow_mul] at hlt
  exact hlt

theorem readFromUser_v4 (ip : BitVec 32) (port : BitVec 16) (rest : Bytes) :
    readFromUser ((SocketAddr.v4 ip port).bytes ++ rest) 16 = .ok (.v4 ip port) := by
  show Except.ok (SocketAddr.v4 (beValue 4 (beBytes (w := 4) ip))
    (beValue 2 (beBytes (w := 2) port))) = _
  rw [beValue_beBytes, beValue_beBytes]

theorem readFromUser_v6 (ip : BitVec 128) (port : BitVec 16) (flowinfo scopeId : BitVec 32)
    (rest : Bytes) : readFromUser ((SocketAddr.v6 ip port flowinfo scopeId).bytes ++ rest) 28
      = .ok (.v6 ip port flowinfo scopeId) := by
  show Except.ok (SocketAddr.v6 (beValue 16 (beBytes (w := 16) ip))
    (beValue 2 (beBytes (w := 2) port)) (beValue 4 (beBytes (w := 4) flowinfo))
    (.ofNat 32 (wordValue (wordBytes 4 scopeId.toNat)))) = _
  rw [beValue_beBytes, beValue_beBytes, beValue_beBytes, wordValue_wordBytes,
    Nat.mod_eq_of_lt (show scopeId.toNat < 256 ^ 4 from scopeId.isLt)]
  simp

/-- Two of the four bytes of `AF_UNIX` are read as a name. -/
theorem readFromUser_unix (data rest : Bytes) {n : BitVec 32} (hn : n.toNat = data.length + 4) :
    readFromUser (wordBytes 4 1 ++ data ++ rest) n = .ok (.unix (.abstract (0 :: data))) := by
  have hname : slice (wordBytes 4 1 ++ data ++ rest) 2 (n.toNat - 2) = 0 :: 0 :: data := by
    show (0 :: 0 :: (data ++ rest)).take (n.toNat - 2) = _
    rw [hn, Nat.add_sub_assoc (by decide)]
    simp
  unfold readFromUser
  rw [if_neg (by omega), hname]
  rfl

theorem unix_bytes (u : UnixSocketAddr) :
    ∃ data, (SocketAddr.unix u).bytes = wordBytes 4 1 ++ data ∧ .abstract (0 :: data) ≠ u := by
  cases u with
  | unnamed => exact ⟨[], rfl, nofun⟩
  | abstract name =>
    refine ⟨0 :: name, rfl, ?_⟩
    intro h
    injection h with h
    have hlength := congrArg List.length h
    simp only [List.length_cons] at hlength
    omega
  | path path => exact ⟨_, rfl, nofun⟩

/-- **IP addresses round-trip, Unix addresses do not**; a prefix is reported with the whole
length unless this does not fit into 32 bits. -/
theorem sockaddr_round_trips_iff (a : SocketAddr) (buffer : Bytes) (addrlen : BitVec 32) :
    RoundTrips a buffer addrlen ↔ if addrlen.toNat < a.bytes.length then a.bytes.length < 2 ^ 32
      else a.isIp = true := by
  unfold RoundTrips SocketAddr.writeToUser fillAddr
  dsimp only
  by_cases hsmall : addrlen.toNat < a.bytes.length
  · rw [if_pos hsmall, if_pos hsmall, Nat.min_eq_left (Nat.le_of_lt hsmall), BitVec.toNat_ofNat,
      and_iff_right rfl]
    constructor
    · intro hfull
      rw [← hfull]
      exact Nat.mod_lt _ (by decide)
    · exact Nat.mod_eq_of_lt
  · rw [if_neg hsmall, if_neg hsmall, Nat.min_eq_right (Nat.le_of_not_lt hsmall), List.take_length]
    cases a with
    | v4 ip port => exact iff_of_true (readFromUser_v4 ip port _) rfl
    | v6 ip port flowinfo scopeId =>
      exact iff_of_true (readFromUser_v6 ip port flowinfo scopeId _) rfl
    | unix u =>
      refine iff_of_false ?_ nofun
      obtain ⟨data, hdata, hne⟩ := unix_bytes u
      have hlength : (SocketAddr.unix u).bytes.length = data.length + 4 := by
        rw [hdata, List.length_append, Nat.add_comm]
        rfl
      have hlt := addrlen.isLt
      rw [hlength, hdata, readFromUser_unix]
      · intro h
        injection h with h
        injection h with h
        exact hne h
      · rw [BitVec.toNat_ofNat, Nat.mod_eq_of_lt (by omega)]

/-- **An unnamed address comes back as an abstract one.** -/
theorem unnamed_comes_back_abstract :
    readFromUser ((SocketAddr.unix .unnamed).writeToUser (List.replicate 16 7) 16).1
        ((SocketAddr.unix .unnamed).writeToUser (List.replicate 16 7) 16).2
      = .ok (.unix (.abstract [0]))
    ∧ ¬ RoundTrips (.unix .unnamed) (List.replicate 16 7) 16 := by
  refine ⟨rfl, ?_⟩
  intro h
  cases h

end StarryOS.Net
