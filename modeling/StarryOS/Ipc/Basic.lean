/-
  StarryOS.Ipc.Basic — what the System V calls share
  (`kernel/src/syscall/ipc/mod.rs`).
-/
import StarryOS.Mm.AddrSpace

namespace StarryOS.Ipc

open Lib Mm

/-- `IpcPerm`; `seq` and the padding are written and never read. -/
structure IpcPerm where
  key : BitVec 32
  uid : Nat
  gid : Nat
  cuid : Nat
  cgid : Nat
  mode : Nat
  deriving Repr, DecidableEq

/-- Who makes a call, and when.  `sys_getuid` and `sys_getgid` return 0; here they
may return anything. -/
structure Caller where
  uid : Nat
  gid : Nat
  pid : Nat
  /-- `monotonic_time_nanos`. -/
  now : Nat
  deriving Repr, DecidableEq

/-- `has_ipc_permission`. -/
def hasIpcPermission (perm : IpcPerm) (uid gid : Nat) (isWrite : Bool) : Bool :=
  if uid = 0 then true
  else if perm.uid = uid then perm.mode &&& (if isWrite then 0o200 else 0o400) ≠ 0
  else if perm.gid = gid then perm.mode &&& (if isWrite then 0o020 else 0o040) ≠ 0
  else perm.mode &&& (if isWrite then 0o002 else 0o004) ≠ 0

/-- The key of an object without a key. -/
def IPC_PRIVATE : BitVec 32 := 0

/-- Make the object if there is none. -/
def IPC_CREAT : BitVec 32 := 0o1000

/-- Fail if there is one. -/
def IPC_EXCL : BitVec 32 := 0o2000

/-- Remove the object. -/
def IPC_RMID : BitVec 32 := 0

/-- Set its owner and mode. -/
def IPC_SET : BitVec 32 := 1

/-- Read its state. -/
def IPC_STAT : BitVec 32 := 2

/-- Read the limits. -/
def IPC_INFO : BitVec 32 := 3

/-- `IPC_STAT` by index. -/
def MSG_STAT : BitVec 32 := 11

/-- Read the use of resources. -/
def MSG_INFO : BitVec 32 := 12

/-- The sum of two `u64`. -/
def addU64 (a b : Nat) : Nat := (a + b) % 2 ^ 64

/-- The difference of two `u64`. -/
def subU64 (a b : Nat) : Nat := (a + 2 ^ 64 - b) % 2 ^ 64

/-- No overflow. -/
theorem addU64_of_lt {a b : Nat} (h : a + b < 2 ^ 64) : addU64 a b = a + b := Nat.mod_eq_of_lt h

/-- No underflow. -/
theorem subU64_of_le {a b : Nat} (ha : a < 2 ^ 64) (h : b ≤ a) : subU64 a b = a - b := by
  unfold subU64
  omega

/-- What the environment answers. -/
def answer {σ α : Type} : AxResult α → EStateM Stop σ α
  | .ok a => return a
  | .error e => throw (.err e)

end StarryOS.Ipc
