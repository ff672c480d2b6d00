/-
  StarryOS.Task.GroupSignals — SIGNALS TO A PROCESS GROUP
  (`kernel/src/task/signal.rs`).

  The loop over the members has a `?` in it: the first member whose data has been
  released ends it, and the members behind are not reached.
-/
import StarryOS.Errno
import Mathlib.Data.List.Count
import Mathlib.Data.List.TakeWhile

namespace StarryOS.Task

/-- A process whose data is still there. -/
inductive ProcessState where
  | running
  | zombie
  deriving Repr, DecidableEq

structure SignalWorld (Sig : Type) where
  /-- `pg.processes()`, in the order of the visits. -/
  processes : Nat → List Nat
  /-- `PROCESS_GROUP_TABLE` has the group. -/
  registered : Nat → Bool
  /-- `PROCESS_TABLE`, as the visit of the member finds it: `none` for released data. -/
  processData : Nat → Option ProcessState
  /-- The signals that processes have been given. -/
  sent : List (Nat × Sig)
  nodup : ∀ pgid, (processes pgid).Nodup

namespace SignalWorld

variable {Sig : Type}

def sendSignalToProcess (w : SignalWorld Sig) (pid : Nat) (sig : Option Sig) :
    AxResult Unit × SignalWorld Sig :=
  match w.processData pid, sig with
  | none, _ => (.error .noSuchProcess, w)
  | some _, none => (.ok (), w)
  | some _, some sig => (.ok (), { w with sent := w.sent ++ [(pid, sig)] })

/-- The loop of `send_signal_to_process_group`. -/
def sendToMembers (sig : Sig) : SignalWorld Sig → List Nat → AxResult Unit × SignalWorld Sig
  | w, [] => (.ok (), w)
  | w, pid :: rest =>
    match w.sendSignalToProcess pid (some sig) with
    | (.error e, w) => (.error e, w)
    | (.ok (), w) => sendToMembers sig w rest

def sendSignalToProcessGroup (w : SignalWorld Sig) (pgid : Nat) (sig : Option Sig) :
    AxResult Unit × SignalWorld Sig :=
  if w.registered pgid then
    match sig with
    | none => (.ok (), w)
    | some sig => sendToMembers sig w (w.processes pgid)
  else (.error .noSuchProcess, w)

/-- **The loop ends at the first member without data.** -/
theorem sent_sendToMembers (sig : Sig) (pids : List Nat) : ∀ w : SignalWorld Sig,
    (sendToMembers sig w pids).2.sent = w.sent
      ++ (pids.takeWhile (fun pid => (w.processData pid).isSome)).map (fun pid => (pid, sig)) := by
  induction pids with
  | nil =>
    intro w
    exact (List.append_nil _).symm
  | cons pid rest ih =>
    intro w
    simp only [sendToMembers, sendSignalToProcess, List.takeWhile_cons]
    cases hdata : w.processData pid with
    | none => exact (List.append_nil _).symm
    | some state =>
      -- a send changes nothing but `sent`
      rw [ih, List.append_assoc]
      rfl

variable [DecidableEq Sig] (w : SignalWorld Sig) (sig : Sig) (pgid : Nat)

/-- Every running member is given the signal once. -/
def Reaches : Prop :=
  ∀ pid ∈ w.processes pgid, w.processData pid = some .running →
    (w.sendSignalToProcessGroup pgid (some sig)).2.sent.count (pid, sig)
      = w.sent.count (pid, sig) + 1

/-- **WHEN A GROUP SIGNAL REACHES EVERY RUNNING MEMBER**, for every group and every order of its
members: the group is in the table, and nobody is running behind a member without data. -/
theorem group_signal_reaches_all_iff :
    w.Reaches sig pgid ↔ ∀ pid ∈ w.processes pgid, w.processData pid = some .running →
      w.registered pgid = true
        ∧ pid ∉ (w.processes pgid).dropWhile (fun pid => (w.processData pid).isSome) := by
  refine forall₃_congr fun pid hpid _ => ?_
  unfold sendSignalToProcessGroup
  split
  next hreg =>
    -- a member is visited once, before the end of the loop or not at all
    have honce := (w.nodup pgid).count (a := pid)
    rw [if_pos hpid, ← List.takeWhile_append_dropWhile (p := fun pid => (w.processData pid).isSome)
      (l := w.processes pgid), List.count_append] at honce
    rw [sent_sendToMembers, List.count_append, List.count_map_of_injective _ _
      (fun _ _ h => (Prod.mk.inj h).1), ← List.count_eq_zero, and_iff_right hreg]
    omega
  next hreg => simp [hreg]

/-- **A member without data hides the one behind it**: process 7 is running and gets nothing. -/
theorem released_member_ends_the_loop :
    ∃ w : SignalWorld Nat, w.processes 5 = [6, 7] ∧ w.processData 7 = some .running
      ∧ (w.sendSignalToProcessGroup 5 (some 15)).2.sent = [] ∧ ¬ w.Reaches 15 5 := by
  let w : SignalWorld Nat := ⟨fun _ => [6, 7], fun _ => true,
    fun pid => if pid = 7 then some .running else none, [], fun _ => by decide⟩
  have hnone : (w.sendSignalToProcessGroup 5 (some 15)).2.sent = [] := rfl
  refine ⟨w, rfl, rfl, hnone, fun hall => ?_⟩
  have hseven := hall 7 (by decide) rfl
  rw [hnone] at hseven
  cases hseven

end SignalWorld

end StarryOS.Task
