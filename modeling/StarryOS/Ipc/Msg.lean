/-
  StarryOS.Ipc.Msg — SYSTEM V MESSAGE QUEUES (`kernel/src/syscall/ipc/msg.rs`).

  A queue keeps its messages in a `BTreeMap` from types to lists, beside three
  counters of bytes and messages.  `MSG_MANAGER` finds queues by identifier and
  by key.  A call looks its queue up under the lock of the manager, gets a
  counted reference, and does all the rest under the lock of the queue:

      msgsnd    look up; [check, copy in, enqueue]
      msgrcv    look up; [check, select, copy out, remove]
      msgctl    look up; [IPC_STAT, IPC_SET, IPC_RMID]; remove from the manager

  What stands in brackets is one step, and other calls come in between two
  steps.

  `next_ipc_id` is shared with `shmget`, which draws identifiers of its own.

  Two things are not in the code.  Every message carries a `stamp`, the number
  of the send it came from, and every queue the history of what was sent and
  what was received, and its identifier; no function reads them.  And the memory
  of the kernel has less than 2^64 bytes: an allocation that does not fit stops
  the kernel.
-/
import StarryOS.Ipc.Basic
import StarryOS.Lib.Buckets
import StarryOS.Lib.Threads
import StarryOS.Lib.Transition

namespace StarryOS.Ipc.Msg

open Lib Mm

/-! ## §1. A queue. -/

/-- `msqid_ds`. -/
structure MsqidDs where
  msgPerm : IpcPerm
  msgStime : Nat
  msgRtime : Nat
  msgCtime : Nat
  msgCbytes : Nat
  msgQnum : Nat
  msgQbytes : Nat
  msgLspid : Nat
  msgLrpid : Nat
  deriving Repr, DecidableEq

/-- A queued message. -/
structure Message where
  mtype : Int
  data : List UInt8
  /-- Which send it came from. -/
  stamp : Nat
  deriving Repr, DecidableEq

/-- `MessageQueue`. -/
structure MessageQueue where
  msqidDs : MsqidDs
  messages : OrdMap Int (List Message)
  totalBytes : Nat
  markRemoved : Bool

/-- Maximum number of message queues. -/
def MSGMNI : Nat := 32000
/-- Maximum bytes in a message queue. -/
def MSGMNB : Nat := 16384
/-- Maximum size of a single message. -/
def MSGMAX : Nat := 8192

/-- `MessageQueue::new`. -/
def MessageQueue.new (key : BitVec 32) (mode : Nat) (who : Caller) : MessageQueue where
  msqidDs := {
    msgPerm := ⟨key, who.uid, who.gid, who.uid, who.gid, mode⟩
    msgStime := 0
    msgRtime := 0
    msgCtime := who.now
    msgCbytes := 0
    msgQnum := 0
    msgQbytes := MSGMNB
    msgLspid := who.pid
    msgLrpid := who.pid }
  messages := .empty
  totalBytes := 0
  markRemoved := false

/-- The kernel's memory. -/
structure Memory where
  bytes : Nat
  addressable : bytes < 2 ^ 64

structure Config where
  memory : Memory
  /-- A debug build panics on overflow. -/
  overflowChecks : Bool

variable (q : MessageQueue)

/-- What the stored messages occupy: the bytes, and 32 for each `Message`. -/
def MessageQueue.footprint : Nat :=
  q.messages.total (fun _ b => (b.map (fun m => 32 + m.data.length)).sum)

abbrev QueueM := EStateM Stop MessageQueue

variable (cfg : Config)

/-- An allocation of `n` bytes beside the stored messages. -/
def alloc (n : Nat) : QueueM Unit := do
  if cfg.memory.bytes < (← get).footprint + n then throw .halt else return ()

/-- `enqueue_message`. -/
def enqueueMessage (m : Message) : QueueM Unit := do
  let q ← get
  if q.msqidDs.msgQbytes < addU64 q.totalBytes m.data.length then throw (.err .storageFull)
  else do
    alloc cfg (32 + m.data.length)
    set { q with
      messages := Buckets.push Message.mtype m q.messages
      totalBytes := addU64 q.totalBytes m.data.length
      msqidDs := { q.msqidDs with
        msgCbytes := addU64 q.msqidDs.msgCbytes m.data.length
        msgQnum := addU64 q.msqidDs.msgQnum 1 } }

/-- `find_first_message`. -/
def MessageQueue.findFirstMessage : Option (Int × Message) :=
  q.messages.entries.findSome? (fun e => e.2.head?.map (fun m => (e.1, m)))

/-- `find_message_by_type`. -/
def MessageQueue.findMessageByType (msgtyp : Int) : Option (Int × Message) :=
  ((q.messages.lookup msgtyp).bind List.head?).map (fun m => (msgtyp, m))

/-- `find_message_not_equal`. -/
def MessageQueue.findMessageNotEqual (msgtyp : Int) : Option (Int × Message) :=
  q.messages.entries.findSome? (fun e =>
    if e.1 ≠ msgtyp then e.2.head?.map (fun m => (e.1, m)) else none)

/-- The loop of `find_message_less_equal`. -/
def candidateType (absTyp : Int) (es : List (Int × List Message)) : Option Int :=
  es.foldl (fun candidate e =>
    if e.1 ≤ absTyp && !e.2.isEmpty && candidate.all (fun c => decide (e.1 < c)) then some e.1
    else candidate) none

/-- `find_message_less_equal`. -/
def MessageQueue.findMessageLessEqual (absTyp : Int) :
    Option (Int × Message) :=
  (candidateType absTyp q.messages.entries).bind q.findMessageByType

/-- `get_total_message_count`. -/
def MessageQueue.totalMessageCount : Nat :=
  q.messages.total (fun _ b => b.length)

/-- The loop of `get_message_by_index`. -/
def messageAt (index : Nat) : Nat → List (Int × List Message) → Option Message
  | _, [] => none
  | current, e :: rest =>
    if index < current + e.2.length then e.2[index - current]?
    else messageAt index (current + e.2.length) rest

/-- `get_message_by_index`. -/
def MessageQueue.messageByIndex (index : Nat) : Option Message :=
  messageAt index 0 q.messages.entries

/-- `remove_message_by_type_and_index`. -/
def removeMessage (mtype : Int) (index : Nat) : QueueM Message := do
  let q ← get
  match q.messages.lookup mtype with
  | none => throw (.err .noMessage)
  | some b =>
    match b[index]? with
    | none => throw (.err .noMessage)
    | some m => do
      set { q with
        messages := Buckets.removeAt mtype index q.messages
        totalBytes := subU64 q.totalBytes m.data.length
        msqidDs := { q.msqidDs with
          msgCbytes := subU64 q.msqidDs.msgCbytes m.data.length
          msgQnum := subU64 q.msqidDs.msgQnum 1 } }
      return m

/-! ## §2. The calls, under the lock of the queue. -/

/-- What `msgsnd` finds at `msgp`: the type, and the bytes that can be read. -/
structure SendArgs where
  mtype : AxResult (BitVec 64)
  mtext : Nat → Option UInt8
  msgsz : Nat

/-- `vm_load`. -/
def vmLoad (mtext : Nat → Option UInt8) (n : Nat) : AxResult (List UInt8) :=
  match (List.range n).mapM mtext with
  | some bytes => .ok bytes
  | none => .error .badAddress

/-- `sys_msgsnd`, under the lock.  With and without `IPC_NOWAIT` a full queue is an
error. -/
def msgsnd (who : Caller) (a : SendArgs) (stamp : Nat) : QueueM Message := do
  let q ← get
  if !hasIpcPermission q.msqidDs.msgPerm who.uid who.gid true then throw (.err .permissionDenied)
  else do
    let mtype ← answer a.mtype
    if mtype.toInt ≤ 0 then throw (.err .invalidInput)
    else do
      alloc cfg a.msgsz
      let data ← answer (vmLoad a.mtext a.msgsz)
      if q.msqidDs.msgQbytes < addU64 q.totalBytes data.length
          ∨ q.msqidDs.msgQbytes < addU64 q.msqidDs.msgQnum 1 then
        throw (.err .wouldBlock)
      else do
        enqueueMessage cfg ⟨mtype.toInt, data, stamp⟩
        modify (fun q => { q with msqidDs := { q.msqidDs with
          msgLspid := who.pid, msgStime := who.now } })
        return ⟨mtype.toInt, data, stamp⟩

/-- `MsgRcvFlags::from_bits_truncate`. -/
structure MsgRcvFlags where
  nowait : Bool
  noerror : Bool
  copy : Bool
  except : Bool
  deriving Repr, DecidableEq

/-- **The message that `sys_msgrcv` selects**, and its type. -/
def MessageQueue.select (q : MessageQueue) (msgtyp : BitVec 64)
    (flags : MsgRcvFlags) : Except Stop (Int × Message) :=
  let orNoMessage (x : Option (Int × Message)) : Except Stop (Int × Message) :=
    match x with
    | some r => .ok r
    | none => .error (.err .noMessage)
  if flags.copy then
    -- `msgtyp as usize`
    if q.totalMessageCount ≤ msgtyp.toNat then .error (.err .noMessage)
    else orNoMessage ((q.messageByIndex msgtyp.toNat).map (fun m => (m.mtype, m)))
  else if msgtyp = 0 then orNoMessage q.findFirstMessage
  else if 0 < msgtyp.toInt then
    if flags.except then orNoMessage (q.findMessageNotEqual msgtyp.toInt)
    else orNoMessage (q.findMessageByType msgtyp.toInt)
  else if cfg.overflowChecks && msgtyp = BitVec.intMin 64 then .error .halt
  else orNoMessage (q.findMessageLessEqual msgtyp.abs.toInt)

/-- The receiver's buffer: whether type and text can be written to it. -/
structure ReceiveArgs where
  msgsz : Nat
  msgtyp : BitVec 64
  flags : MsgRcvFlags
  writeMtype : AxResult Unit
  writeText : AxResult Unit

def removeUnlessCopied (flags : MsgRcvFlags) (mtype : Int) : QueueM Unit := do
  if flags.copy then return ()
  else do
    let _ ← removeMessage mtype 0
    return ()

/-- `sys_msgrcv`, under the lock: the message whose type and first bytes were
written, and how many bytes. -/
def msgrcv (who : Caller) (a : ReceiveArgs) : QueueM (Message × Nat) := do
  let q ← get
  if !hasIpcPermission q.msqidDs.msgPerm who.uid who.gid false then
    throw (.err .permissionDenied)
  else if q.markRemoved then throw (.err .idRemoved)
  else do
    match q.select cfg a.msgtyp a.flags with
    | .error e => throw e
    | .ok (mtype, m) => do
      if a.msgsz < m.data.length ∧ !a.flags.noerror then throw (.err .argumentListTooLong)
      else do
        answer a.writeMtype
        answer a.writeText
        removeUnlessCopied a.flags mtype
        modify (fun q => { q with msqidDs := { q.msqidDs with
          msgLrpid := who.pid, msgRtime := who.now } })
        return (m, min m.data.length a.msgsz)

/-- What `IPC_SET` reads of the user's `msqid_ds`. -/
structure SetBuf where
  uid : Nat
  gid : Nat
  mode : Nat
  msgQbytes : BitVec 64

/-- The commands of `msgctl` that lock a queue. -/
inductive CtlCommand where
  /-- `IPC_STAT`, and whether the structure can be written. -/
  | stat (write : AxResult Unit)
  /-- `IPC_SET`, and the structure that is read. -/
  | set (buf : AxResult SetBuf)
  | rmid

/-- `sys_msgctl`, under the lock.  The result says whether the manager has to
remove the queue. -/
def msgctl (who : Caller) (cmd : CtlCommand) : QueueM Bool := do
  let q ← get
  if q.markRemoved then throw (.err .idRemoved)
  else
    match cmd with
    | .stat write => do
      if !hasIpcPermission q.msqidDs.msgPerm who.uid who.gid false then
        throw (.err .permissionDenied)
      else do
        answer write
        return false
    | .set buf => do
      if who.uid ≠ 0 ∧ who.uid ≠ q.msqidDs.msgPerm.uid ∧ who.uid ≠ q.msqidDs.msgPerm.cuid then
        throw (.err .operationNotPermitted)
      else do
        let user ← answer buf
        -- the owner is changed even when the limit is refused
        modify (fun q => { q with msqidDs := { q.msqidDs with
          msgPerm := { q.msqidDs.msgPerm with
            uid := user.uid, gid := user.gid, mode := user.mode &&& 0o777 } } })
        if user.msgQbytes.toNat ≠ q.msqidDs.msgQbytes ∧ MSGMNB < user.msgQbytes.toNat
            ∧ who.uid ≠ 0 then
          throw (.err .operationNotPermitted)
        else do
          modify (fun q => { q with msqidDs := { q.msqidDs with
            msgQbytes := user.msgQbytes.toNat, msgCtime := who.now } })
          return false
    | .rmid => do
      if who.uid ≠ 0 ∧ who.uid ≠ q.msqidDs.msgPerm.uid ∧ who.uid ≠ q.msqidDs.msgPerm.cuid then
        throw (.err .operationNotPermitted)
      else do
        modify (fun q => { q with markRemoved := true })
        if q.msqidDs.msgQnum = 0 then return true
        else do
          modify (fun q => { q with msqidDs := { q.msqidDs with msgCtime := who.now } })
          return false

/-! ## §3. The manager and the threads. -/

/-- A queue and its history. -/
structure QueueObject where
  queue : MessageQueue
  /-- The messages of all successful sends, in order. -/
  sent : List Message
  /-- The messages that receives without `MSG_COPY` have returned. -/
  received : List Message

/-- `MSG_MANAGER`.  A queue is a number: that of the object. -/
structure MsgManager where
  keyMsqid : Table (BitVec 32) (BitVec 32)
  msqidQueues : OrdMap Int Nat

/-- `remove_msqid`. -/
def MsgManager.removeMsqid (m : MsgManager) (msqid : BitVec 32) : MsgManager where
  keyMsqid := m.keyMsqid.filterKeys (fun k => m.keyMsqid.lookup k ≠ some msqid)
  msqidQueues := m.msqidQueues.alter msqid.toInt (fun _ => none)

/-- A call that locks a queue. -/
inductive Call where
  | snd (a : SendArgs)
  | rcv (a : ReceiveArgs)
  | ctl (cmd : CtlCommand)

/-- Where a thread is. -/
inductive Point where
  /-- Outside; the last call returned this. -/
  | returned (result : Except Stop Int)
  /-- The queue was looked up; its lock is next. -/
  | found (q : Nat) (msqid : BitVec 32) (who : Caller) (call : Call)
  /-- `IPC_RMID` has released the lock of an empty queue; the manager is next. -/
  | removing (msqid : BitVec 32)

instance : Inhabited Point := ⟨.returned (.ok 0)⟩

/-- The tables and the threads. -/
structure World where
  manager : MsgManager
  objects : List QueueObject
  /-- The identifiers that the queues were made with. -/
  ids : List (BitVec 32)
  /-- `IPC_ID`. -/
  nextIpcId : BitVec 32
  threads : Threads Point

def World.initial : World := ⟨⟨.empty, .empty⟩, [], [], 0, .initial⟩

/-- A new queue. -/
def World.create (w : World) (key : BitVec 32) (mode : Nat) (who : Caller) (named : Bool) : World :=
  { w with
    manager := {
      keyMsqid := if named then w.manager.keyMsqid.insert key w.nextIpcId else w.manager.keyMsqid
      msqidQueues := w.manager.msqidQueues.alter w.nextIpcId.toInt
        (fun _ => some w.objects.length) }
    objects := w.objects ++ [⟨.new key mode who, [], []⟩]
    ids := w.ids ++ [w.nextIpcId]
    nextIpcId := w.nextIpcId + 1 }

/-- `sys_msgget`. -/
def World.msgget (w : World) (who : Caller) (key msgflg : BitVec 32) :
    AxResult (BitVec 32) × World :=
  let mode := (msgflg &&& 0o777).toNat
  if MSGMNI ≤ w.manager.msqidQueues.entries.length then (.error .storageFull, w)
  else if key = IPC_PRIVATE then (.ok w.nextIpcId, w.create key mode who false)
  else
    match w.manager.keyMsqid.lookup key with
    | some msqid =>
      match (w.manager.msqidQueues.lookup msqid.toInt).bind (fun i => w.objects[i]?) with
      | none => (.error .notFound, w)
      | some o =>
        if !hasIpcPermission o.queue.msqidDs.msgPerm who.uid who.gid false then
          (.error .permissionDenied, w)
        else if o.queue.markRemoved then (.error .idRemoved, w)
        else if msgflg &&& IPC_EXCL ≠ 0 ∧ msgflg &&& IPC_CREAT ≠ 0 then
          (.error .alreadyExists, w)
        else (.ok msqid, w)
    | none =>
      if msgflg &&& IPC_CREAT = 0 then (.error .notFound, w)
      else (.ok w.nextIpcId, w.create key mode who true)

/-- `iter_active_queues`. -/
def World.activeQueues (w : World) : List (Int × MessageQueue) :=
  w.manager.msqidQueues.entries.filterMap (fun e =>
    (w.objects[e.2]?).bind (fun o => if o.queue.markRemoved then none else some (e.1, o.queue)))

/-- `IPC_INFO`, `MSG_INFO` and `MSG_STAT` of `sys_msgctl`, which look at the manager
only; the structure that is written, and whether it can be. -/
def World.msgctlInfo (w : World) (who : Caller) (msqid cmd : BitVec 32)
    (write : AxResult Unit) : AxResult (Int × Option MsqidDs) :=
  if cmd = IPC_INFO then write.map (fun _ => (0, none))
  else if cmd = MSG_INFO then
    write.map (fun _ => (w.manager.msqidQueues.entries.length, some {
      msgPerm := ⟨0, who.uid, who.gid, who.uid, who.gid, 0o600⟩
      msgStime := 0
      msgRtime := 0
      msgCtime := 0
      msgCbytes := (w.activeQueues.map (fun e => e.2.totalBytes)).sum % 2 ^ 64
      msgQnum := w.manager.msqidQueues.entries.length
      msgQbytes := MSGMNB
      msgLspid := 0
      msgLrpid := 0 }))
  else if cmd = MSG_STAT then
    -- `msqid as usize` sign-extends, and no list is that long
    match w.activeQueues[msqid.toInt.toNat]?, decide (0 ≤ msqid.toInt) with
    | some (actual, q), true =>
      if !hasIpcPermission q.msqidDs.msgPerm who.uid who.gid false then
        .error .permissionDenied
      else write.map (fun _ => (actual, some q.msqidDs))
    | _, _ => .error .invalidInput
  else .error .invalidInput

/-- A call under the lock of its queue: the result, the queue and its history after
it, and whether the manager has to remove the queue. -/
def QueueObject.run (who : Caller) (o : QueueObject) :
    Call → Except Stop Int × QueueObject × Bool
  | .snd a =>
    match msgsnd cfg who a o.sent.length o.queue with
    | .ok m q => (.ok 0, { o with queue := q, sent := o.sent ++ [m] }, false)
    | .error e q => (.error e, { o with queue := q }, false)
  | .rcv a =>
    match msgrcv cfg who a o.queue with
    | .ok (m, len) q => (.ok len, { o with
        queue := q
        received := if a.flags.copy then o.received else o.received ++ [m] }, false)
    | .error e q => (.error e, { o with queue := q }, false)
  | .ctl cmd =>
    match msgctl who cmd o.queue with
    | .ok remove q => (.ok 0, { o with queue := q }, remove)
    | .error e q => (.error e, { o with queue := q }, false)

/-- What is checked before the queue is looked up. -/
def Call.refused : Call → Option AxError
  | .snd a => if MSGMAX < a.msgsz then some .invalidInput else none
  | .rcv a => if a.flags.copy ∧ (!a.flags.nowait ∨ a.flags.except) then some .invalidInput else none
  | .ctl _ => none

/-- What a thread may do. -/
inductive Step where
  | msgget (t : Nat) (who : Caller) (key msgflg : BitVec 32)
  /-- Thread `t` makes a call: the checks, and the queue is looked up. -/
  | call (t : Nat) (who : Caller) (msqid : BitVec 32) (call : Call)
  | info (t : Nat) (who : Caller) (msqid cmd : BitVec 32) (write : AxResult Unit)
  /-- Thread `t` goes on. -/
  | run (t : Nat)
  /-- `shmget` draws an identifier. -/
  | drawId

/-- A thread that is not inside a call. -/
def Point.outside : Point → Bool
  | .returned _ => true
  | _ => false

def step (w : World) : Step → Option World
  | .msgget t who key msgflg =>
    if (w.threads.pc t).outside then
      let r := w.msgget who key msgflg
      some { r.2 with threads := r.2.threads.goto t (.returned (match r.1 with
        | .ok msqid => .ok msqid.toInt
        | .error e => .error (.err e))) }
    else none
  | .call t who msqid call =>
    if (w.threads.pc t).outside then
      some { w with threads := w.threads.goto t (match call.refused with
        | some e => .returned (.error (.err e))
        | none =>
          match w.manager.msqidQueues.lookup msqid.toInt with
          | some i => .found i msqid who call
          | none => .returned (.error (.err .invalidInput))) }
    else none
  | .info t who msqid cmd write =>
    if (w.threads.pc t).outside then
      some { w with threads := w.threads.goto t (.returned (match
        w.msgctlInfo who msqid cmd write with
        | .ok r => .ok r.1
        | .error e => .error (.err e))) }
    else none
  | .run t =>
    match w.threads.pc t with
    | .returned _ => none
    | .removing msqid => some { w with
        manager := w.manager.removeMsqid msqid
        threads := w.threads.goto t (.returned (.ok 0)) }
    | .found i msqid who call =>
      match w.objects[i]? with
      | none => none
      | some o =>
        let r := o.run cfg who call
        some { w with
          objects := w.objects.set i r.2.1
          threads := w.threads.goto t
            (if r.2.2 then .removing msqid else .returned r.1) }
  | .drawId => some { w with nextIpcId := w.nextIpcId + 1 }

end StarryOS.Ipc.Msg
