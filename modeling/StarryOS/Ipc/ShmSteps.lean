/-
  StarryOS.Ipc.ShmSteps — ONE STEP OF A THREAD, seen three ways:

    • `advance_keeps` — a step that is orderly keeps the books (and
      `advance_exit_keeps`, `advance_exitInner_keeps` for the exit of a process),
    • `advance_untouched` — any step touches only what it has locked, so what the
      other threads know stays true (`pointOk_of_untouched`),
    • `advance_leads` — where it leads, and what the thread holds then.

  `orderlyAt` is what keeps the books: an identifier that exists and is not drawn
  twice, one attachment for a process and a segment, mappings that succeed, an
  `IPC_SET` that leaves `shm_nattch` alone, no removal between the lookup and the
  attachment, no second thread that moves the attachment a `shmdt` looks for.
-/
import StarryOS.Ipc.ShmBook

namespace StarryOS.Ipc.Shm

open Lib Mm Tables ShmInner Point Option

/-! ## §1. The books after a step. -/

/-- **What keeps the books**, for a thread that gets a lock. -/
def orderlyAt (tb : Tables) (pid : Nat) (ans : Answers) : Point → Bool
  -- no identifier is drawn twice
  | .shmget a => (a.key ≠ IPC_PRIVATE && (tb.getShmidByKey a.key.toInt).isSome)
      || tb.inners.all (fun o => o.shmid ≠ tb.nextIpcId.toInt)
  | .shmat shmid => (tb.getInnerByShmid shmid.toInt).isSome
  -- a process attaches a segment once
  | .shmatSpace i => (tb.rangeOf i pid).isNone
  -- nobody has removed the segment meanwhile, and the mapping succeeds
  | .shmatManager i _ => tb.getInnerByShmid (tb.inner i).shmid = some i
      && decide ((tb.inner i).attachCount < 65535)
      && ((tb.inner i).physPages.isSome || ans.pages.isOk) && ans.map.isOk
  -- nobody has moved the attachment meanwhile
  | .shmdtInner shmaddr _ i => (tb.rangeOf i pid).all (fun r => r.1 = shmaddr)
  | .shmctlSpace a i => a.cmd ≠ IPC_SET || (match ans.buf with
      | .ok user => user.shmNattch.toNat = (tb.inner i).attachCount
      | .error _ => true)
  | _ => true

/-- The same for every step. -/
def orderly (cfg : Config) (w : World) : Step → Bool
  | .call _ (.shmget a) => !cfg.overflowChecks || decide (a.size + 4095 < 2 ^ 64)
  | .run t ans => orderlyAt w.tables (cfg.process t) ans (w.threads.pc t)
  | _ => true

/-- What a thread of process `pid` knows where it is. -/
def PointOk (tb : Tables) (pid : Nat) : Point → Prop
  | .shmgetInner _ i | .shmatInner i | .shmatSpace i | .shmctlInner _ i | .shmctlSpace _ i =>
    i < tb.inners.length
  | .shmatManager i start => i < tb.inners.length ∧ tb.rangeOf i pid = none
      ∧ ∀ s, tb.recorded pid s ≠ some start
  | .shmdtInner _ shmid i => i < tb.inners.length ∧ (tb.inner i).shmid = shmid
  | .shmdtSpace shmaddr shmid i | .shmdtManager shmaddr shmid i =>
    i < tb.inners.length ∧ (tb.inner i).shmid = shmid
      ∧ ∃ stop, tb.rangeOf i pid = some (shmaddr, stop)
  | .exitInner shmid i rest => tb.shmidInner.lookup shmid = some i ∧ (shmid :: rest).Nodup
      ∧ ∀ s ∈ shmid :: rest, ∃ a, tb.recorded pid s = some a
  | .shmget a => 0 < pagesOf a.size
  | _ => True

/-- The segments that an exiting process still has to give back. -/
def Point.exitList : Point → Option (List Int)
  | .exitInner shmid _ rest => some (shmid :: rest)
  | _ => none

/-- What still counts while process `pid` exits. -/
def stillCounts (pid : Nat) (x : Option (List Int)) (p : Nat) (s : Int) : Prop :=
  ∀ l, x = some l → p = pid → s ∈ l

/-- A step that leaves the books right, outside the exit of a process. -/
def Keeps (pid : Nat) (pending : Nat → Int → Prop) (r : Option (Tables × Point)) : Prop :=
  ∃ tb p, r = some (tb, p) ∧ Book tb pending ∧ PointOk tb pid p ∧ p.exitList = none

section Steps

variable {cfg : Config} {tb : Tables} {pending : Nat → Int → Prop} {pid i : Nat} {ans : Answers}

theorem Book.keeps (h : Book tb pending) {p : Point} (hp : PointOk tb pid p)
    (hlist : p.exitList = none) : Keeps pid pending (some (tb, p)) :=
  ⟨tb, p, rfl, h, hp, hlist⟩

theorem Book.keeps_returned (h : Book tb pending) (x : AxResult Int) :
    Keeps pid pending (some (tb, .returned x)) := h.keeps trivial rfl

/-- A call writes the user's view of a segment, or marks it. -/
theorem Book.keeps_written (h : Book tb pending) (hi : i < tb.inners.length) (rmid : Bool)
    (ds : ShmidDs) (hcount : ds.shmNattch.toNat = (tb.inner i).attachCount)
    (x : AxResult Int) : Keeps pid pending
      (some (tb.setInner i { tb.inner i with rmid := rmid, shmidDs := ds }, .returned x)) := by
  have hbook : Book (tb.setInner i { tb.inner i with rmid := rmid, shmidDs := ds }) pending := by
    refine h.update hi ?_ ?_ ?_ hcount
    · rfl
    · rfl
    · rfl
  exact hbook.keeps_returned x

/-- Where `shmget` makes a segment, its identifier is new. -/
theorem fresh_of_orderly {a : GetArgs} (hok : orderlyAt tb pid ans (.shmget a) = true)
    (hkey : (if a.key ≠ IPC_PRIVATE then tb.getShmidByKey a.key.toInt else none) = none) :
    ∀ o ∈ tb.inners, o.shmid ≠ tb.nextIpcId.toInt := by
  unfold orderlyAt at hok
  rw [Bool.or_eq_true] at hok
  grind

section

variable (h : Book tb pending)
include h

theorem shmget_keeps {a : GetArgs} (hp : 0 < pagesOf a.size)
    (hok : orderlyAt tb pid ans (.shmget a) = true) :
    Keeps pid pending (some (shmget tb pid a)) := by
  unfold shmget
  split
  next shmid hkey =>
    split
    · exact h.keeps_returned _
    next i hi => exact h.keeps (h.named shmid i hi).1 rfl
  next hkey =>
    exact (h.create (o := .new a.key tb.nextIpcId.toInt a.size a.mappingFlags pid) hp rfl rfl
      (fresh_of_orderly hok hkey) _ _).keeps_returned _

/-- An area that is free is not the address of a segment the process has. -/
theorem not_recorded_of_isFreeArea (hpending : ∀ s, pending pid s)
    (hi : i < tb.inners.length) {start : Nat}
    (hfree : tb.isFreeArea cfg pid start ((tb.inner i).pageNum * 4096) = true) (s : Int) :
    tb.recorded pid s ≠ some start := by
  intro hrec
  obtain ⟨j, stop, hj, hr⟩ := (h.linked pid s start).mpr ⟨hrec, hpending s⟩
  have hjl := (h.named s j hj).1
  have hlt := (h.live j hjl pid _ hr).2
  have hpages := h.sized i hi
  unfold isFreeArea at hfree
  rw [List.all_eq_true] at hfree
  have hall := hfree _ (inner_mem hjl)
  rw [List.all_eq_true] at hall
  have hthis := hall (pid, (start, stop)) ((Table.lookup_eq_some_iff _ _ _).mp hr)
  grind

theorem shmatAttach_keeps (hpending : ∀ s, pending pid s) {start : Nat}
    (hp : PointOk tb pid (.shmatManager i start))
    (hok : orderlyAt tb pid ans (.shmatManager i start) = true) (checks : Bool) :
    Keeps pid pending (shmatAttach checks tb pid i start ans) := by
  obtain ⟨hi, hnone, hnew⟩ := hp
  simp only [orderlyAt, Bool.and_eq_true, decide_eq_true_eq] at hok
  obtain ⟨⟨⟨hmanager, hroom⟩, hpages⟩, hmap⟩ := hok
  have hpagesOk : (if (tb.inner i).physPages.isSome = true then .ok () else ans.pages)
    = .ok () := by
    split
    · rfl
    next hsome =>
      rw [Bool.or_eq_true] at hpages
      rcases hpages with hyes | hyes
      · exact absurd hyes hsome
      cases hans : ans.pages with
      | ok u => rfl
      | error e =>
        rw [hans] at hyes
        cases hyes
  have hmapOk : ans.map = .ok () := by
    cases hans : ans.map with
    | ok u => rfl
    | error e =>
      rw [hans] at hmap
      cases hmap
  have hlt : start < start + (tb.inner i).pageNum * 4096 := by
    have := h.sized i hi
    omega
  obtain ⟨o, ho, hatt⟩ := exists_attachProcess
    { tb.inner i with physPages := some ((tb.inner i).physPages.getD
      ((tb.inner i).pageNum * 4096)) } checks ans.now
    (start, start + (tb.inner i).pageNum * 4096) (h.counted i hi) hroom hnone
  have hatt' : SetsRange pid (some (start, start + (tb.inner i).pageNum * 4096)) (tb.inner i) o :=
    ⟨hatt.shmid, hatt.pageNum, hatt.rmid, hatt.vaRange, hatt.nattch⟩
  refine ⟨_, .returned (.ok start), ?_, h.attach hi hatt' hlt hmanager hnew hpending, trivial, rfl⟩
  unfold shmatAttach
  simp only [hpagesOk, hmapOk, ho, map_some]

theorem shmdtDetach_keeps {shmaddr : Nat} {shmid : Int}
    (hp : PointOk tb pid (.shmdtManager shmaddr shmid i)) (checks : Bool) (now : Nat) :
    Keeps pid pending (shmdtDetach checks tb pid shmaddr shmid i now) := by
  obtain ⟨hi, rfl, stop, hr⟩ := hp
  obtain ⟨o, ho, hdet⟩ := exists_detachProcess (tb.inner i) checks now (h.counted i hi) hr
  have hrec := ((h.linked pid (tb.inner i).shmid shmaddr).mp
    ⟨i, stop, (h.live i hi pid _ hr).1, hr⟩).1
  refine ⟨_, .returned (.ok 0), ?_, h.detach hi hdet hr (tb.removeShmaddr pid shmaddr).pidShmidVaddr
    ?_, trivial, rfl⟩
  · unfold shmdtDetach
    rw [ho]
    rfl
  intro p s a
  show (tb.removeShmaddr pid shmaddr).recorded p s = some a ∧ pending p s ↔ _
  rw [recorded_removeShmaddr]
  split
  · grind [recorded_unique]
  · grind

theorem shmctlCommand_keeps {a : CtlArgs} (hi : i < tb.inners.length)
    (now : Nat) : Keeps pid pending (some (shmctlCommand tb a i now)) := by
  unfold shmctlCommand
  split
  · split
    · exact h.keeps_returned _
    · exact h.keeps hi rfl
  split
  · split
    · refine h.keeps_written hi _ _ ?_ _
      exact h.counted i hi
    · exact h.keeps_returned _
    · exact h.keeps hi rfl
  · split
    · refine h.keeps_written hi _ _ ?_ _
      exact h.counted i hi
    · exact h.keeps_returned _

theorem shmctlBuffer_keeps {a : CtlArgs} (hi : i < tb.inners.length)
    (hok : orderlyAt tb pid ans (.shmctlSpace a i) = true) :
    Keeps pid pending (some (shmctlBuffer tb a i ans)) := by
  unfold shmctlBuffer
  unfold orderlyAt at hok
  split
  · exact h.keeps_returned _
  · next user hbuf =>
      refine h.keeps_written hi _ _ ?_ _
      grind

/-- **Every call but the exit keeps the books.** -/
theorem advance_keeps (hpending : ∀ s, pending pid s) (checks : Bool)
    {p : Point} (hp : PointOk tb pid p) (hok : orderlyAt tb pid ans p = true)
    (hadm : ans.admissible cfg tb pid p = true) (hlist : p.exitList = none) (hexit : p ≠ .exit) :
    Keeps pid pending (advance checks tb pid ans p) := by
  cases p with
  | returned r => exact h.keeps_returned r
  | shmget a => exact shmget_keeps h hp hok
  | shmgetInner a i =>
    simp only [advance]
    unfold tryUpdate
    split
    · exact h.keeps_returned _
    next o heq =>
      split at heq
      · cases heq
      · obtain rfl := Except.ok.inj heq
        refine h.keeps_written hp _ _ ?_ _
        exact h.counted i hp
  | shmat shmid =>
    obtain ⟨i, hi⟩ := isSome_iff_exists.mp hok
    simp only [advance, hi, map_some]
    exact h.keeps (h.named _ i hi).1 rfl
  | shmatInner i => exact h.keeps hp rfl
  | shmatSpace i =>
    simp only [orderlyAt, isNone_iff_eq_none] at hok
    have hnone : ((tb.inner i).getAddrRange pid).isSome = false := by
      show (tb.rangeOf i pid).isSome = false
      rw [hok]
      rfl
    simp only [advance, hnone, Bool.false_eq_true, if_false]
    split
    · exact h.keeps_returned _
    next start hstart =>
      simp only [Answers.admissible, hstart, all_some] at hadm
      exact h.keeps ⟨hp, hok, not_recorded_of_isFreeArea h hpending hp hadm⟩ rfl
  | shmatManager i start => exact shmatAttach_keeps h hpending hp hok checks
  | shmdt shmaddr =>
    simp only [advance]
    split
    · exact h.keeps_returned _
    · exact h.keeps trivial rfl
  | shmdtShmid shmaddr shmid =>
    simp only [advance]
    split
    · exact h.keeps_returned _
    next i hi => exact h.keeps (h.named shmid i hi) rfl
  | shmdtInner shmaddr shmid i =>
    simp only [advance]
    split
    · exact h.keeps_returned _
    next r hr =>
      have hrange : tb.rangeOf i pid = some r := hr
      simp only [orderlyAt, hrange, all_some, decide_eq_true_eq] at hok
      refine h.keeps ⟨hp.1, hp.2, r.2, ?_⟩ rfl
      rw [hrange, ← hok]
  | shmdtSpace shmaddr shmid i =>
    simp only [advance]
    split
    · exact h.keeps_returned _
    · exact h.keeps hp rfl
  | shmdtManager shmaddr shmid i => exact shmdtDetach_keeps h hp checks ans.now
  | shmctl a =>
    simp only [advance]
    split
    · exact h.keeps_returned _
    next i hi => exact h.keeps (h.named _ i hi).1 rfl
  | shmctlInner a i => exact shmctlCommand_keeps h hp ans.now
  | shmctlSpace a i => exact shmctlBuffer_keeps h hp hok
  | exit => exact absurd rfl hexit
  | exitInner shmid i rest => cases hlist

end

/-- A step of the exit of process `pid`. -/
def KeepsExit (pid : Nat) (r : Option (Tables × Point)) : Prop :=
  ∃ tb p, r = some (tb, p) ∧ Book tb (stillCounts pid p.exitList) ∧ PointOk tb pid p

/-- The loop finds every segment of the process in the manager, and at its end none
is left. -/
theorem exitLoop_keeps {l : List Int} (h : Book tb (stillCounts pid (some l))) (hnd : l.Nodup)
    (hrec : ∀ s ∈ l, ∃ a, tb.recorded pid s = some a) :
    KeepsExit pid (some (exitLoop tb pid l)) := by
  cases l with
  | nil =>
    refine ⟨_, _, rfl, h.relink (tb.removePid pid).pidShmidVaddr ?_, trivial⟩
    intro p s a
    show (tb.removePid pid).recorded p s = some a ∧ _ ↔ _
    rw [recorded_removePid]
    split
    next hp =>
      refine iff_of_false (fun hl => absurd hl.1 (by simp)) ?_
      exact fun hr => absurd (hr.2 [] rfl hp) List.not_mem_nil
    next hp =>
      exact and_congr_right (fun _ => iff_of_true (fun _ _ heq => absurd heq hp)
        (fun _ _ heq => absurd heq hp))
  | cons shmid rest =>
    obtain ⟨a, ha⟩ := hrec shmid (.head _)
    have hcounts : stillCounts pid (some (shmid :: rest)) pid shmid := by
      intro l hl _
      cases hl
      exact .head _
    obtain ⟨i, stop, hi, -⟩ := (h.linked pid shmid a).mpr ⟨ha, hcounts⟩
    have hloop : exitLoop tb pid (shmid :: rest) = (tb, .exitInner shmid i rest) := by
      have hget : tb.getInnerByShmid shmid = some i := hi
      simp only [exitLoop, hget]
    rw [hloop]
    exact ⟨tb, _, rfl, h, hi, hnd, hrec⟩

/-- The exit begins: every segment of the process is to be given back. -/
theorem advance_exit_keeps (h : Book tb (stillCounts pid none)) (checks : Bool) :
    KeepsExit pid (advance checks tb pid ans .exit) := by
  simp only [advance]
  unfold getShmidsByPid
  cases hm : tb.pidShmidVaddr.lookup pid with
  | none =>
    refine ⟨_, _, rfl, h.relink (tb.removePid pid).pidShmidVaddr ?_, trivial⟩
    intro p s a
    show (tb.removePid pid).recorded p s = some a ∧ _ ↔ _
    rw [recorded_removePid]
    by_cases hp : p = pid
    · have hnone : tb.recorded p s = none := by
        unfold recorded
        rw [hp, hm]
        rfl
      rw [if_pos hp, hnone]
      rfl
    · rw [if_neg hp]
      rfl
  | some m =>
    have hkeys : ∀ s, s ∈ m.forward.entries.map Prod.fst ↔ ∃ a, tb.recorded pid s = some a := by
      intro s
      unfold recorded
      rw [hm, List.mem_map]
      constructor
      · rintro ⟨e, he, rfl⟩
        exact ⟨e.2, (m.forward.lookup_eq_some_iff _ _).mpr he⟩
      · rintro ⟨a, ha⟩
        exact ⟨(s, a), (m.forward.lookup_eq_some_iff _ _).mp ha, rfl⟩
    refine exitLoop_keeps ?_ m.forward.nodup (fun s => (hkeys s).mp)
    refine h.relink tb.pidShmidVaddr ?_
    intro p s a
    refine and_congr_right (fun hrec => iff_of_true ?_ (fun _ hl => absurd hl (by simp)))
    intro l hl hp
    cases hl
    exact (hkeys s).mpr ⟨a, by rw [← hp]; exact hrec⟩

theorem advance_exitInner_keeps {shmid : Int} {rest : List Int}
    (h : Book tb (stillCounts pid (some (shmid :: rest))))
    (hp : PointOk tb pid (.exitInner shmid i rest)) (checks : Bool) :
    KeepsExit pid (advance checks tb pid ans (.exitInner shmid i rest)) := by
  obtain ⟨hmanager, hnd, hrec⟩ := hp
  obtain ⟨hi, rfl⟩ := h.named shmid i hmanager
  obtain ⟨a, ha⟩ := hrec (tb.inner i).shmid (.head _)
  have hcounts : stillCounts pid (some ((tb.inner i).shmid :: rest)) pid (tb.inner i).shmid := by
    intro l hl _
    cases hl
    exact .head _
  obtain ⟨j, stop, hj, hr⟩ := (h.linked pid _ a).mpr ⟨ha, hcounts⟩
  obtain rfl := some.inj (hj.symm.trans hmanager)
  obtain ⟨o, ho, hdet⟩ := exists_detachProcess (tb.inner j) checks ans.now (h.counted j hi) hr
  obtain ⟨hfresh, hnd'⟩ := List.nodup_cons.mp hnd
  have hbook : Book ((tb.setInner j o).removeIfUnused (tb.inner j).shmid o)
      (stillCounts pid (some rest)) := by
    refine h.detach hi hdet hr tb.pidShmidVaddr ?_
    intro p s x
    show tb.recorded p s = some x ∧ _ ↔ _
    constructor
    · intro hl
      refine ⟨⟨hl.1, ?_⟩, ?_⟩
      · intro l heq hpid
        cases heq
        exact .tail _ (hl.2 rest rfl hpid)
      · intro hboth
        exact hfresh (hboth.2 ▸ hl.2 rest rfl hboth.1)
    · intro hr'
      refine ⟨hr'.1.1, ?_⟩
      intro l heq hpid
      cases heq
      rcases List.mem_cons.mp (hr'.1.2 _ rfl hpid) with hs | hs
      · exact absurd ⟨hpid, hs⟩ hr'.2
      · exact hs
  have hstep : advance checks tb pid ans (.exitInner (tb.inner j).shmid j rest)
      = some (exitLoop ((tb.setInner j o).removeIfUnused (tb.inner j).shmid o) pid rest) := by
    simp only [advance, ho, map_some]
  rw [hstep]
  refine exitLoop_keeps hbook hnd' ?_
  intro s hs
  rw [recorded_removeIfUnused]
  exact hrec s (.tail _ hs)

end Steps

/-! ## §2. What a step leaves alone. -/

/-- What a thread of process `pid` with certain locks does not touch. -/
@[grind cases] structure Untouched (locks : List Lock) (pid space : Nat)
    (tb tb' : Tables) : Prop where
  length : tb.inners.length ≤ tb'.inners.length
  shmid : ∀ i < tb.inners.length, (tb'.inner i).shmid = (tb.inner i).shmid
  /-- The ranges of a segment that it has not locked. -/
  ranges : ∀ i < tb.inners.length, .inner i ∉ locks → ∀ p, tb'.rangeOf i p = tb.rangeOf i p
  /-- The tables of the manager, unless it has locked it. -/
  manager : .manager ∉ locks → tb'.keyShmid = tb.keyShmid ∧ tb'.shmidInner = tb.shmidInner
    ∧ tb'.pidShmidVaddr = tb.pidShmidVaddr
  /-- An address is new only in its own process, whose space it has locked. -/
  addresses : ∀ p s a, tb'.recorded p s = some a → tb.recorded p s = some a
    ∨ p = pid ∧ .space space ∈ locks

section Frame

variable {tb : Tables} {pid space i : Nat} {locks : List Lock} {ans : Answers}

theorem untouched_refl : Untouched locks pid space tb tb where
  length := le_rfl
  shmid := fun _ _ => rfl
  ranges := fun _ _ _ _ => rfl
  manager := fun _ => ⟨rfl, rfl, rfl⟩
  addresses := fun _ _ _ => .inl

variable {o : ShmInner} {checks : Bool} {now : Nat} {r : Tables × Point}

/-- Putting a locked segment back touches that segment only. -/
theorem untouched_setInner (hi : .inner i ∈ locks) (hshmid : o.shmid = (tb.inner i).shmid) :
    Untouched locks pid space tb (tb.setInner i o) := by
  have hother : ∀ j, j ≠ i → (tb.setInner i o).inner j = tb.inner j := by
    intro j hj
    unfold setInner Tables.inner
    rw [List.getD_eq_getElem?_getD, List.getD_eq_getElem?_getD, List.getElem?_set_ne hj.symm]
  refine ⟨by simp, ?_, ?_, fun _ => ⟨rfl, rfl, rfl⟩, fun _ _ _ => .inl⟩
  · intro j hj
    by_cases hji : j = i
    · subst hji
      rw [inner_setInner hj, if_pos rfl]
      exact hshmid
    · rw [hother j hji]
  · intro j _ hnot p
    have hji : j ≠ i := fun heq => hnot (heq ▸ hi)
    unfold rangeOf
    rw [hother j hji]

theorem Untouched.trans {tb₁ tb₂ : Tables} (h : Untouched locks pid space tb tb₁)
    (h' : Untouched locks pid space tb₁ tb₂) : Untouched locks pid space tb tb₂ where
  length := Nat.le_trans h.length h'.length
  shmid := fun i hi => (h'.shmid i (Nat.lt_of_lt_of_le hi h.length)).trans (h.shmid i hi)
  ranges := fun i hi hnot p =>
    (h'.ranges i (Nat.lt_of_lt_of_le hi h.length) hnot p).trans (h.ranges i hi hnot p)
  manager := fun hnot => ⟨(h'.manager hnot).1.trans (h.manager hnot).1,
    (h'.manager hnot).2.1.trans (h.manager hnot).2.1,
    (h'.manager hnot).2.2.trans (h.manager hnot).2.2⟩
  addresses := fun p s a ha => (h'.addresses p s a ha).elim (h.addresses p s a) .inr

section

variable (hmanager : .manager ∈ locks)
include hmanager

theorem untouched_of_inners {tb' : Tables} (hinners : tb'.inners = tb.inners)
    (haddr : ∀ p s a, tb'.recorded p s = some a → tb.recorded p s = some a
      ∨ p = pid ∧ .space space ∈ locks) : Untouched locks pid space tb tb' := by
  have hinner : ∀ j, tb'.inner j = tb.inner j := by
    intro j
    unfold Tables.inner
    rw [hinners]
  refine ⟨by rw [hinners], fun j _ => by rw [hinner], ?_, absurd hmanager, haddr⟩
  intro j _ _ p
  unfold rangeOf
  rw [hinner]

theorem shmget_untouched (a : GetArgs) : Untouched locks pid space tb (shmget tb pid a).1 := by
  unfold shmget
  split
  · split
    · exact untouched_refl
    · exact untouched_refl
  have hold : ∀ j o, j < tb.inners.length → (tb.inners ++ [o]).getD j default = tb.inner j :=
    fun _ _ => getD_append_old
  refine ⟨by simp, ?_, ?_, absurd hmanager, fun _ _ _ => .inl⟩
  · intro j hj
    exact congrArg shmid (hold j _ hj)
  · intro j hj _ p
    exact congrArg (fun o : ShmInner => o.vaRange.lookup p) (hold j _ hj)

theorem untouched_removeIfUnused (shmid : Int) (o : ShmInner) :
    Untouched locks pid space tb (tb.removeIfUnused shmid o) := by
  refine untouched_of_inners hmanager inners_removeIfUnused ?_
  intro p s a ha
  rw [recorded_removeIfUnused] at ha
  exact .inl ha

theorem exitLoop_untouched : ∀ l : List Int,
    Untouched locks pid space tb (exitLoop tb pid l).1 := by
  intro l
  induction l with
  | nil =>
    refine untouched_of_inners hmanager rfl ?_
    intro p s a ha
    have ha' : (tb.removePid pid).recorded p s = some a := ha
    rw [recorded_removePid] at ha'
    split at ha'
    · cases ha'
    · exact .inl ha'
  | cons shmid rest ih =>
    simp only [exitLoop]
    split
    · exact ih
    · exact untouched_refl

end

theorem of_attachProcess {o' : ShmInner} {r : Nat × Nat}
    (h : o.attachProcess checks pid r now = some o') : o'.shmid = o.shmid ∧ o'.rmid = o.rmid := by
  grind [attachProcess]

theorem of_detachProcess {o' : ShmInner} (h : o.detachProcess checks pid now = some o') :
    o'.shmid = o.shmid ∧ o'.rmid = o.rmid := by grind [detachProcess]

theorem shmctlCommand_untouched (hi : .inner i ∈ locks) (a : CtlArgs) (now : Nat) :
    Untouched locks pid space tb (shmctlCommand tb a i now).1 := by
  unfold shmctlCommand
  split
  · split
    · exact untouched_refl
    · exact untouched_refl
  · grind [untouched_setInner, untouched_refl]

theorem shmatAttach_untouched (hmanager : .manager ∈ locks) (hi : .inner i ∈ locks)
    (hspace : .space space ∈ locks) {start : Nat}
    (h : shmatAttach checks tb pid i start ans = some r) : Untouched locks pid space tb r.1 := by
  have hinsert : Untouched locks pid space tb
      (tb.insertShmidVaddr pid (tb.inner i).shmid start) := by
    refine untouched_of_inners hmanager rfl ?_
    intro p s a ha
    rw [recorded_insertShmidVaddr] at ha
    grind
  simp only [shmatAttach] at h
  split at h
  · cases h
    exact hinsert
  · cases h
    exact hinsert
  · obtain ⟨o, ho, rfl⟩ := map_eq_some_iff.mp h
    exact hinsert.trans (untouched_setInner hi (of_attachProcess ho).1)

theorem shmdtDetach_untouched (hmanager : .manager ∈ locks) (hi : .inner i ∈ locks) {shmaddr : Nat}
    {shmid : Int} (h : shmdtDetach checks tb pid shmaddr shmid i now = some r) :
    Untouched locks pid space tb r.1 := by
  have hremove : Untouched locks pid space tb (tb.removeShmaddr pid shmaddr) := by
    refine untouched_of_inners hmanager rfl ?_
    intro p s a ha
    rw [recorded_removeShmaddr] at ha
    split at ha
    · cases ha
    · exact .inl ha
  obtain ⟨o, ho, rfl⟩ := map_eq_some_iff.mp h
  exact (hremove.trans (untouched_setInner hi (of_detachProcess ho).1)).trans
    (untouched_removeIfUnused hmanager _ _)

/-- **What a thread knows stays true** while others move: they do not have its locks. -/
theorem pointOk_of_untouched {tb' : Tables} {pid' space' : Nat} {p : Point}
    (h : Untouched locks pid space tb tb') (hp : PointOk tb pid' p)
    (hmine : ∀ l ∈ p.held space', l ∉ locks) (hspace : pid' = pid → space' = space) :
    PointOk tb' pid' p := by
  have hlt : ∀ i, i < tb.inners.length → i < tb'.inners.length :=
    fun i hi => Nat.lt_of_lt_of_le hi h.length
  cases p with
  | returned _ => trivial
  | shmget _ => exact hp
  | shmgetInner _ i | shmatInner i | shmatSpace i | shmctlInner _ i | shmctlSpace _ i =>
    exact hlt i hp
  | shmat _ => trivial
  | shmatManager i start =>
    obtain ⟨hi, hr, hnew⟩ := hp
    refine ⟨hlt i hi, ?_, ?_⟩
    · rw [h.ranges i hi (hmine _ (by simp [held]))]
      exact hr
    intro s hs
    rcases h.addresses _ s start hs with hold | ⟨heq, hin⟩
    · exact hnew s hold
    · rw [← hspace heq] at hin
      exact hmine (.space space') (by simp [held]) hin
  | shmdt _ => trivial
  | shmdtShmid _ _ => trivial
  | shmdtInner _ shmid i => exact ⟨hlt i hp.1, (h.shmid i hp.1).trans hp.2⟩
  | shmdtSpace shmaddr shmid i | shmdtManager shmaddr shmid i =>
    obtain ⟨hi, hs, stop, hr⟩ := hp
    refine ⟨hlt i hi, (h.shmid i hi).trans hs, stop, ?_⟩
    rw [h.ranges i hi (hmine _ (by simp [held]))]
    exact hr
  | shmctl _ => trivial
  | exit => trivial
  | exitInner shmid i rest =>
    obtain ⟨-, hinner, hvaddr⟩ := h.manager (hmine .manager (by simp [held]))
    obtain ⟨hlookup, hnd, hrec⟩ := hp
    refine ⟨by rw [hinner]; exact hlookup, hnd, ?_⟩
    intro s hs
    unfold recorded
    rw [hvaddr]
    exact hrec s hs

end Frame

/-! ## §3. Where a step leads. -/

/-- In the exit of its process. -/
def Point.exiting : Point → Bool
  | .exit | .exitInner _ _ _ => true
  | _ => false

/-- Where a thread may get to from a point, and what it then holds. -/
@[grind cases] structure Leads (space : Nat) (p p' : Point) : Prop where
  held : ∀ m ∈ p'.held space, p.request space = some m ∨ m ∈ p.held space
  exiting : p'.exiting = true → p.exiting = true
  leaving : p.exiting = true → p'.outside = true ∨ p'.exiting = true
  found : ∀ a i, p' = .shmgetInner a i → p = .shmget a

section Leads

variable {space : Nat} {p p' : Point}

theorem leads_returned (x : AxResult Int) : Leads space p (.returned x) where
  held := fun _ hm => absurd hm List.not_mem_nil
  exiting := fun h => absurd h (by simp [exiting])
  leaving := fun _ => .inl rfl
  found := fun _ _ h => absurd h (by simp)

theorem leads_call (hp : p.exiting = false) (hp' : p'.exiting = false)
    (hheld : ∀ m ∈ p'.held space, p.request space = some m ∨ m ∈ p.held space)
    (hfound : ∀ a i, p' = .shmgetInner a i → p = .shmget a) : Leads space p p' where
  held := hheld
  exiting := fun h => absurd (h.symm.trans hp') (by simp)
  leaving := fun h => absurd (h.symm.trans hp) (by simp)
  found := hfound

theorem exitLoop_leads {tb : Tables} {pid : Nat} (hp : p.exiting = true)
    (hmanager : p.request space = some .manager ∨ .manager ∈ p.held space) : ∀ l : List Int,
    Leads space p (exitLoop tb pid l).2 := by
  intro l
  induction l with
  | nil => exact leads_returned _
  | cons shmid rest ih =>
    simp only [exitLoop]
    split
    · exact ih
    · refine ⟨?_, fun _ => hp, fun _ => .inr rfl, fun _ _ h => absurd h (by simp)⟩
      intro m hm
      rw [List.mem_singleton.mp hm]
      exact hmanager

/-- **A step touches only what it has locked**, and this is where it leads. -/
theorem advance_step {tb : Tables} {pid : Nat} {ans : Answers} {checks : Bool} {r : Tables × Point}
    {l : Lock} (hl : p.request space = some l) (h : advance checks tb pid ans p = some r) :
    Untouched (l :: p.held space) pid space tb r.1 ∧ Leads space p r.2 := by
  have hsame : ∀ x, Leads space p x → some (tb, x) = some r →
      Untouched (l :: p.held space) pid space tb r.1 ∧ Leads space p r.2 := by
    intro x hx heq
    cases heq
    exact ⟨untouched_refl, hx⟩
  cases p with
  | returned x => cases hl
  | shmget a =>
    cases hl
    cases h
    refine ⟨shmget_untouched (.head _) a, ?_⟩
    unfold shmget
    split
    · split
      · exact leads_returned _
      · refine leads_call rfl rfl (by simp [held, request]) ?_
        intro a' i' heq
        rw [(shmgetInner.inj heq).1]
    · exact leads_returned _
  | shmgetInner a i =>
    cases hl
    simp only [advance] at h
    split at h
    · exact hsame _ (leads_returned _) h
    · cases h
      refine ⟨?_, leads_returned _⟩
      grind [tryUpdate, untouched_setInner]
  | shmat shmid =>
    obtain ⟨i, -, hx⟩ := map_eq_some_iff.mp h
    exact hsame _ (leads_call rfl rfl (by simp [held]) (by simp)) (congrArg some hx)
  | shmatInner i =>
    exact hsame _ (leads_call rfl rfl (by simp [held, request]) (by simp)) h
  | shmatSpace i =>
    simp only [advance] at h
    split at h
    · cases h
    · split at h
      · exact hsame _ (leads_returned _) h
      · exact hsame _ (leads_call rfl rfl (by simp [held, request]) (by simp)) h
  | shmatManager i start =>
    cases hl
    refine ⟨shmatAttach_untouched (by simp) (by simp [held]) (by simp [held]) h, ?_⟩
    grind [advance, shmatAttach, map_eq_some_iff, leads_returned]
  | shmdt shmaddr | shmdtShmid shmaddr shmid | shmctl a | shmdtInner shmaddr shmid i
  | shmdtSpace shmaddr shmid i =>
    simp only [advance] at h
    split at h
    · exact hsame _ (leads_returned _) h
    · exact hsame _ (leads_call rfl rfl (by simp [held, request]) (by simp)) h
  | shmdtManager shmaddr shmid i =>
    cases hl
    refine ⟨shmdtDetach_untouched (by simp) (by simp [held]) h, ?_⟩
    obtain ⟨o, -, rfl⟩ := map_eq_some_iff.mp h
    exact leads_returned _
  | shmctlInner a i =>
    cases hl
    cases h
    refine ⟨shmctlCommand_untouched (.head _) a ans.now, ?_⟩
    have hspace : Leads space (.shmctlInner a i) (.shmctlSpace a i) :=
      leads_call rfl rfl (by simp [held, request]) (by simp)
    grind [shmctlCommand, leads_returned]
  | shmctlSpace a i =>
    cases h
    unfold shmctlBuffer
    split
    · exact ⟨untouched_refl, leads_returned _⟩
    · exact ⟨untouched_setInner (by simp [held]) rfl, leads_returned _⟩
  | exit =>
    cases hl
    simp only [advance] at h
    split at h
    · cases h
      exact ⟨exitLoop_untouched (.head _) [], leads_returned _⟩
    · cases h
      exact ⟨exitLoop_untouched (.head _) _, exitLoop_leads rfl (.inl rfl) _⟩
  | exitInner shmid i rest =>
    cases hl
    obtain ⟨o, ho, rfl⟩ := map_eq_some_iff.mp h
    have hmanager : Lock.manager ∈ Lock.inner i :: held space (.exitInner shmid i rest) := by
      simp [held]
    exact ⟨((untouched_setInner (.head _) (of_detachProcess ho).1).trans
      (untouched_removeIfUnused hmanager _ _)).trans (exitLoop_untouched hmanager rest),
      exitLoop_leads rfl (.inr (.head _)) rest⟩

end Leads

end StarryOS.Ipc.Shm
