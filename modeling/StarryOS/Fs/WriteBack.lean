/-
  StarryOS.Fs.WriteBack — FAILED WRITE-BACKS AND THE BYTES THEY TAKE ALONG.

  The file is followed together with a record of what its callers were promised:
  `stored i = some b` after a successful `write_at` put `b` at `i`, until a
  later write, failed or not, touches the offset or a truncation cuts it off.

  `page_or_insert` and `sync` POP a page before they write it back.  When the
  write-back fails, the page is dropped with its bytes, and the error goes to
  whoever triggered the eviction; when it is short, nobody hears of it
  (`stored_bytes_are_read_back`, `failed_sync_forgets_the_byte`).
-/
import StarryOS.Fs.ByteKept
import StarryOS.Lib.Transition

namespace StarryOS.Fs

open Lib

/-! ## §1. A file and what was promised about it. -/

/-- A cached file with the bytes that successful writes have stored in it. -/
structure Tracked where
  file : FileState
  stored : Nat → Option UInt8

/-- What is promised about an offset after a call.  A write that failed may
have stored a part of its bytes, so it promises nothing about its range. -/
def record (st : FileState) (stored : Nat → Option UInt8) (op : FileOp)
    (result : AxResult OpResult) (i : Nat) : Option UInt8 :=
  match result, op.writes st i with
  | .ok _, some b => some b
  | .ok _, none => if op.cuts i then none else stored i
  | .error _, some _ => none
  | .error _, none => stored i

/-- One call. -/
def trackedStep (env : Env) (s : Tracked) (op : FileOp) : Option Tracked :=
  some {
    file := execState env s.file op
    stored := record s.file s.stored op (execResult env s.file op) }

/-- A file that was just opened; nothing is promised yet. -/
def tracked (cap : Nat) (hcap : 0 < cap) (node : Bytes) : Tracked where
  file := opened cap hcap node
  stored _ := none

/-- No page leaves the cache without its bytes while the call runs. -/
def writeBacksLand (env : Env) (s : Tracked) (op : FileOp) : Bool :=
  op.fits s.file && keepsBytes env s.file op

/-- A read returns every promised byte of its range. -/
def ReadsBack (env : Env) (s : Tracked) (n off : Nat) : Prop :=
  ∀ bytes, execResult env s.file (.readAt n off) = .ok (.read bytes) →
    ∀ i b, s.stored i = some b → off ≤ i → i < off + n → bytes[i - off]? = some b

/-! ## §2. The invariant. -/

/-- Every promise is kept by the file. -/
@[grind cases] structure PromisesKept (env : Env) (s : Tracked) : Prop where
  small : s.file.node.length ≤ maxEnd
  held : ∀ i b, s.stored i = some b → Holds env s.file i b

section Invariant

variable {env : Env} {s s' : Tracked} {op : FileOp}

theorem execState_of_ok {st st' : FileState} {r : OpResult} (h : exec env op st = .ok r st') :
    execState env st op = st' ∧ execResult env st op = .ok r := by
  unfold execState stateAfter execResult
  rw [h]
  exact ⟨rfl, rfl⟩

theorem execState_of_error {st st' : FileState} {e : AxError} (h : exec env op st = .error e st') :
    execState env st op = st' ∧ execResult env st op = .error e := by
  unfold execState stateAfter execResult
  rw [h]
  exact ⟨rfl, rfl⟩

/-- **What is promised after a call is held after it.** -/
theorem record_held {st : FileState} {stored : Nat → Option UInt8} {i : Nat} {b : UInt8}
    (hmax : st.node.length ≤ maxEnd) (hheld : ∀ c, stored i = some c → Holds env st i c)
    (hfits : op.fits st = true) (hok : keepsBytes env st op = true)
    (hb : record st stored op (execResult env st op) i = some b) :
    Holds env (execState env st op) i b := by
  unfold record at hb
  cases hw : op.writes st i with
  | some c =>
    -- the call writes the offset: only success promises anything
    cases he : exec env op st with
    | ok r st' =>
      obtain ⟨hstate, hresult⟩ := execState_of_ok he
      rw [hresult, hw] at hb
      cases hb
      rw [hstate]
      exact wp_of_run he (exec_holds hmax hfits hok (by simp [hw]) (by simp [hw])) (by simp [hw])
    | error e st' =>
      rw [(execState_of_error he).2, hw] at hb
      cases hb
  | none =>
    cases he : exec env op st with
    | ok r st' =>
      obtain ⟨hstate, hresult⟩ := execState_of_ok he
      rw [hresult, hw] at hb
      simp only [Option.ite_none_left_eq_some, Bool.not_eq_true] at hb
      rw [hstate]
      exact wp_of_run he (exec_holds hmax hfits hok (fun _ => hheld b hb.2) (by simp [hw]))
        (fun _ => hb.1)
    | error e st' =>
      obtain ⟨hstate, hresult⟩ := execState_of_error he
      rw [hresult, hw] at hb
      rw [hstate]
      exact wp_of_error he (exec_holds hmax hfits hok (fun _ => hheld b hb) (by simp [hw])) hw

theorem trackedStep_kept (h : PromisesKept env s) (hok : writeBacksLand env s op = true)
    (hs : trackedStep env s op = some s') : PromisesKept env s' := by
  unfold writeBacksLand at hok
  rw [Bool.and_eq_true] at hok
  cases hs
  refine ⟨stateAfter_of_ends (exec_length h.small hok.1), ?_⟩
  intro i b hb
  exact record_held h.small (h.held i) hok.1 hok.2 hb

theorem PromisesKept.readsBack (h : PromisesKept env s) {n off : Nat}
    (hok : writeBacksLand env s (.readAt n off) = true) : ReadsBack env s n off := by
  unfold writeBacksLand at hok
  rw [Bool.and_eq_true] at hok
  intro bytes hres i b hb h1 h2
  have hreads := exec_reads (h.held i b hb) h.small hok.1 hok.2 h1 h2
  cases he : exec env (.readAt n off) s.file with
  | ok r st' =>
    rw [(execState_of_ok he).2] at hres
    obtain ⟨bytes', hr, hbyte⟩ := wp_of_run he hreads
    grind
  | error e st' =>
    rw [(execState_of_error he).2] at hres
    cases hres

end Invariant

/-! ## §3. Whole runs. -/

/-- **STORED BYTES ARE READ BACK in every run whose write-backs land**: any
other call of the node and any page allocation may fail. -/
theorem stored_bytes_are_read_back (env : Env) (cap : Nat) (hcap : 0 < cap) (node : Bytes)
    (hnode : node.length ≤ maxEnd) (s : Tracked)
    (hs : Reach (trackedStep env) (fun s op => writeBacksLand env s op = true)
      (tracked cap hcap node) s) (n off : Nat)
    (hread : writeBacksLand env s (.readAt n off) = true) : ReadsBack env s n off := by
  have hinit : PromisesKept env (tracked cap hcap node) :=
    ⟨hnode, fun i b hb => absurd hb (by simp [tracked])⟩
  exact (hs.invariant (PromisesKept env) hinit (fun _ _ _ => trackedStep_kept)).readsBack hread

/-- A disk whose `k`-th call is refused. -/
def refuses (k : Nat) : Env where
  inMemory := false
  alloc j := some (j, fun _ => 0xEE)
  io j := if j = k then .err else .ok

/-- A byte is written and synced; the node's own `sync` fails, after the
write-back has landed. -/
theorem failed_node_sync_keeps_the_byte :
    ∃ s, Reach (trackedStep (refuses 5)) (fun s op => writeBacksLand (refuses 5) s op = true)
        (tracked 64 (by decide) []) s
      ∧ s.stored 0 = some 65 ∧ ReadsBack (refuses 5) s 1 0 := by
  obtain ⟨s, hs, hc⟩ := exists_reach_guarded (trackedStep (refuses 5))
    (tracked 64 (by decide) []) (writeBacksLand (refuses 5))
    [.writeAt [65] 0, .sync false]
    (fun s => s.stored 0 = some 65 ∧ writeBacksLand (refuses 5) s (.readAt 1 0))
    (by decide +kernel)
  exact ⟨s, hs, hc.1,
    stored_bytes_are_read_back (refuses 5) 64 (by decide) [] (by decide) s hs 1 0 hc.2⟩

/-- **The page is popped before it is written back.**  A byte is written, the
`write_at` of the sync is refused, and a later read finds the old zero. -/
theorem failed_sync_forgets_the_byte :
    ∃ s, Reach (trackedStep (refuses 4)) Always (tracked 64 (by decide) []) s
      ∧ s.stored 0 = some 65 ∧ ¬ ReadsBack (refuses 4) s 1 0 := by
  obtain ⟨s, hs, hc⟩ := exists_reach (trackedStep (refuses 4))
    (tracked 64 (by decide) []) [.writeAt [65] 0, .sync false]
    (fun s => s.stored 0 = some 65
      ∧ execResult (refuses 4) s.file (.readAt 1 0) = .ok (.read [0])) (by decide +kernel)
  refine ⟨s, hs, hc.1, ?_⟩
  intro hread
  exact absurd (hread [0] hc.2 0 65 hc.1 (Nat.le_refl 0) (by decide)) (by decide)

end StarryOS.Fs
