/-
  StarryOS.Ipc.ShmBook — THE BOOKS OF SHARED MEMORY: who is attached where.

  The same facts stand in three places: `va_range` of a segment says which
  processes have it and where, `shm_nattch` how many, `pid_shmid_vaddr` which
  segments a process has.  `Book` says that they agree.  While a process exits,
  the manager still lists segments that were detached already; `pending` says
  which entries still count.
-/
import StarryOS.Ipc.Shm

namespace StarryOS.Ipc.Shm

open Lib Mm ShmInner OrdMap

/-! ## §1. What the tables say. -/

namespace Tables

/-- The address that `pid_shmid_vaddr` has for a process and a segment. -/
def recorded (tb : Tables) (pid : Nat) (shmid : Int) : Option Nat :=
  (tb.pidShmidVaddr.lookup pid).bind (fun m => m.getByKey shmid)

/-- The range at which a segment is attached in a process. -/
def rangeOf (tb : Tables) (i pid : Nat) : Option (Nat × Nat) := (tb.inner i).vaRange.lookup pid

variable {tb : Tables} {i j pid p : Nat} {o : ShmInner} {s shmid : Int} {a : Nat}

theorem inner_mem (hi : i < tb.inners.length) : tb.inner i ∈ tb.inners := by
  unfold inner
  grind

theorem exists_inner_eq (ho : o ∈ tb.inners) : ∃ i < tb.inners.length, tb.inner i = o := by
  obtain ⟨i, hi, rfl⟩ := List.mem_iff_getElem.mp ho
  refine ⟨i, hi, ?_⟩
  unfold inner
  rw [List.getD_eq_getElem?_getD, List.getElem?_eq_getElem hi]
  rfl

theorem getD_append_old (hj : j < tb.inners.length) :
    (tb.inners ++ [o]).getD j default = tb.inner j := by
  rw [List.getD_eq_getElem?_getD, List.getElem?_append_left hj]
  rfl

theorem getD_append_new : (tb.inners ++ [o]).getD tb.inners.length default = o := by grind

@[simp] theorem length_setInner : (tb.setInner i o).inners.length = tb.inners.length :=
  List.length_set

theorem inner_setInner (hi : i < tb.inners.length) :
    (tb.setInner i o).inner j = if j = i then o else tb.inner j := by
  unfold setInner inner
  grind

@[simp] theorem recorded_setInner : (tb.setInner i o).recorded p s = tb.recorded p s := rfl

theorem recorded_insertShmidVaddr : (tb.insertShmidVaddr pid shmid a).recorded p s = if p = pid then
        if s = shmid then some a
        else if tb.recorded pid s = some a then none else tb.recorded pid s
      else tb.recorded p s := by
  unfold recorded insertShmidVaddr
  rw [lookup_alter]
  by_cases hp : p = pid
  · rw [if_pos hp, if_pos hp, Option.bind_some, BiMap.getByKey_insert]
    cases tb.pidShmidVaddr.lookup pid with
    | none => rfl
    | some m => rfl
  · rw [if_neg hp, if_neg hp]

theorem recorded_removeShmaddr : (tb.removeShmaddr pid a).recorded p s
    = if p = pid ∧ tb.recorded pid s = some a then none else tb.recorded p s := by
  unfold recorded removeShmaddr
  rw [lookup_alter]
  by_cases hp : p = pid
  · subst hp
    rw [if_pos rfl]
    simp only [true_and]
    cases tb.pidShmidVaddr.lookup p with
    | none => rfl
    | some m =>
      simp only [Option.bind_some]
      have hkey := m.getByKey_removeByValue a s
      split
      next hempty =>
        -- an empty map answers nothing
        have hnone : (m.removeByValue a).getByKey s = none := by
          unfold BiMap.getByKey
          rw [Table.lookup_eq_none_iff, List.isEmpty_iff.mp hempty]
          exact fun _ => List.not_mem_nil
        rw [← hkey, hnone]
        rfl
      · exact hkey
  · rw [if_neg hp, if_neg (fun h => hp h.1)]

theorem recorded_removePid : (tb.removePid pid).recorded p s
    = if p = pid then none else tb.recorded p s := by
  unfold recorded removePid
  grind

theorem recorded_unique (h : tb.recorded pid s = some a) (h' : tb.recorded pid shmid = some a) :
    s = shmid := by
  obtain ⟨m, hm, hs⟩ := Option.bind_eq_some_iff.mp h
  obtain ⟨m', hm', hs'⟩ := Option.bind_eq_some_iff.mp h'
  cases hm.symm.trans hm'
  exact m.key_unique hs hs'

theorem inners_removeIfUnused : (tb.removeIfUnused shmid o).inners = tb.inners := by
  unfold removeIfUnused
  split <;> rfl

theorem pidShmidVaddr_removeIfUnused :
    (tb.removeIfUnused shmid o).pidShmidVaddr = tb.pidShmidVaddr := by
  unfold removeIfUnused
  split <;> rfl

theorem inner_removeIfUnused : (tb.removeIfUnused shmid o).inner j = tb.inner j := by
  unfold inner
  rw [inners_removeIfUnused]

theorem rangeOf_removeIfUnused : (tb.removeIfUnused shmid o).rangeOf j p = tb.rangeOf j p := by
  unfold rangeOf
  rw [inner_removeIfUnused]

theorem recorded_removeIfUnused : (tb.removeIfUnused shmid o).recorded p s = tb.recorded p s := by
  unfold recorded
  rw [pidShmidVaddr_removeIfUnused]

theorem lookup_removeIfUnused : (tb.removeIfUnused shmid o).shmidInner.lookup s
    = if (o.rmid = true ∧ o.attachCount = 0) ∧ s = shmid then none else tb.shmidInner.lookup s := by
  unfold removeIfUnused
  split
  next hgone =>
    rw [Bool.and_eq_true] at hgone
    unfold removeShmid
    grind
  · grind

theorem getByKey_removeIfUnused (k : Int) : (tb.removeIfUnused shmid o).keyShmid.getByKey k
    = if (o.rmid = true ∧ o.attachCount = 0) ∧ tb.keyShmid.getByKey k = some shmid then none
      else tb.keyShmid.getByKey k := by
  unfold removeIfUnused
  split
  next hgone =>
    rw [Bool.and_eq_true, decide_eq_true_eq] at hgone
    unfold removeShmid
    rw [BiMap.getByKey_removeByValue]
    simp only [hgone, and_self, true_and]
  · grind

end Tables

open Tables

/-! ## §2. The books. -/

/-- **The three places agree.** -/
@[grind cases] structure Book (tb : Tables) (pending : Nat → Int → Prop) : Prop where
  /-- No two segments have one identifier. -/
  distinct : ∀ i j, i < tb.inners.length → j < tb.inners.length →
    (tb.inner i).shmid = (tb.inner j).shmid → i = j
  named : ∀ s i, tb.shmidInner.lookup s = some i → i < tb.inners.length ∧ (tb.inner i).shmid = s
  sized : ∀ i < tb.inners.length, 0 < (tb.inner i).pageNum
  /-- `shm_nattch` is the number of processes. -/
  counted : ∀ i < tb.inners.length,
    (tb.inner i).shmidDs.shmNattch.toNat = (tb.inner i).attachCount
  /-- A segment with a process is in the manager. -/
  live : ∀ i < tb.inners.length, ∀ pid r, tb.rangeOf i pid = some r →
    tb.shmidInner.lookup (tb.inner i).shmid = some i ∧ r.1 < r.2
  /-- The manager and the segments say the same. -/
  linked : ∀ pid s a, (∃ i stop, tb.shmidInner.lookup s = some i
      ∧ tb.rangeOf i pid = some (a, stop)) ↔ tb.recorded pid s = some a ∧ pending pid s

theorem book_initial (pending : Nat → Int → Prop) : Book .initial pending where
  distinct := fun i _ hi => absurd hi (Nat.not_lt_zero i)
  named := fun _ _ h => absurd h (by simp [initial, empty])
  sized := fun i hi => absurd hi (Nat.not_lt_zero i)
  counted := fun i hi => absurd hi (Nat.not_lt_zero i)
  live := fun i hi => absurd hi (Nat.not_lt_zero i)
  linked := by
    intro pid s a
    simp [initial, empty, recorded]

section Operations

variable {tb : Tables} {pending pending' : Nat → Int → Prop} {i pid : Nat} {shmid : Int}

theorem Book.relink (h : Book tb pending) (table : OrdMap Nat (BiMap Int Nat))
    (hlink : ∀ p s a, ({ tb with pidShmidVaddr := table }.recorded p s = some a ∧ pending' p s)
      ↔ (tb.recorded p s = some a ∧ pending p s)) :
    Book { tb with pidShmidVaddr := table } pending' where
  distinct := h.distinct
  named := h.named
  sized := h.sized
  counted := h.counted
  live := h.live
  linked := fun p s a => (h.linked p s a).trans (hlink p s a).symm

/-- Segments keep their identifiers and sizes; what is left to check is what is
counted and who is attached where. -/
theorem Book.change (h : Book tb pending) {tb' : Tables}
    (hlength : tb'.inners.length = tb.inners.length)
    (hshmid : ∀ j, (tb'.inner j).shmid = (tb.inner j).shmid)
    (hpages : ∀ j, (tb'.inner j).pageNum = (tb.inner j).pageNum)
    (hnamed : ∀ s j, tb'.shmidInner.lookup s = some j → tb.shmidInner.lookup s = some j)
    (hcounted : ∀ j < tb.inners.length,
      (tb'.inner j).shmidDs.shmNattch.toNat = (tb'.inner j).attachCount)
    (hlive : ∀ j < tb.inners.length, ∀ p r, tb'.rangeOf j p = some r →
      tb'.shmidInner.lookup (tb.inner j).shmid = some j ∧ r.1 < r.2)
    (hlinked : ∀ p s a, (∃ j stop, tb'.shmidInner.lookup s = some j
      ∧ tb'.rangeOf j p = some (a, stop)) ↔ tb'.recorded p s = some a ∧ pending' p s) :
    Book tb' pending' := by
  refine ⟨?_, ?_, ?_, ?_, ?_, hlinked⟩
  · grind
  · intro s j hs
    rw [hlength, hshmid]
    exact h.named s j (hnamed s j hs)
  · intro j hj
    rw [hlength] at hj
    rw [hpages]
    exact h.sized j hj
  · intro j hj
    rw [hlength] at hj
    exact hcounted j hj
  · intro j hj
    rw [hlength] at hj
    rw [hshmid]
    exact hlive j hj

variable {o : ShmInner}

/-- What a segment that is put back in its place changes. -/
theorem inner_put {α : Type} (f : ShmInner → α) (hi : i < tb.inners.length)
    (hf : f o = f (tb.inner i)) (j : Nat) : f ((tb.setInner i o).inner j) = f (tb.inner j) := by
  rw [inner_setInner hi]
  split
  next hj => rw [hj, hf]
  · rfl

theorem Book.update (h : Book tb pending) (hi : i < tb.inners.length)
    (hshmid : o.shmid = (tb.inner i).shmid) (hpages : o.pageNum = (tb.inner i).pageNum)
    (hrange : o.vaRange = (tb.inner i).vaRange)
    (hcount : o.shmidDs.shmNattch.toNat = (tb.inner i).attachCount) :
    Book (tb.setInner i o) pending := by
  have hva := inner_put vaRange hi hrange
  refine h.change length_setInner (inner_put shmid hi hshmid)
    (inner_put pageNum hi hpages) (fun _ _ => id) ?_ ?_ ?_
  · intro j hj
    unfold attachCount
    rw [hva, inner_setInner hi]
    split
    next hji =>
      rw [hcount, hji]
      rfl
    · exact h.counted j hj
  · intro j hj p r hr
    unfold rangeOf at hr
    rw [hva] at hr
    exact h.live j hj p r hr
  · intro p s a
    unfold rangeOf
    simp only [hva]
    exact h.linked p s a

/-- The ranges when process `pid` gets or loses segment `i`. -/
theorem rangeOf_alter (hi : i < tb.inners.length) {x : Option (Nat × Nat)}
    (ho : o.vaRange = (tb.inner i).vaRange.alter pid (fun _ => x)) (j p : Nat) :
    (tb.setInner i o).rangeOf j p = if j = i ∧ p = pid then x else tb.rangeOf j p := by
  unfold rangeOf
  rw [inner_setInner hi]
  grind

/-- What `attach_process` and `detach_process` do: process `pid` has the range `x`. -/
@[grind cases] structure SetsRange (pid : Nat) (x : Option (Nat × Nat))
    (o o' : ShmInner) : Prop where
  shmid : o'.shmid = o.shmid
  pageNum : o'.pageNum = o.pageNum
  rmid : o'.rmid = o.rmid
  vaRange : o'.vaRange = o.vaRange.alter pid (fun _ => x)
  nattch : o'.shmidDs.shmNattch.toNat = o'.attachCount

/-- **An attachment succeeds** where the books are right and not full. -/
theorem exists_attachProcess (o : ShmInner) (checks : Bool) (now : Nat) (r : Nat × Nat)
    (hcount : o.shmidDs.shmNattch.toNat = o.attachCount) (hroom : o.attachCount < 65535)
    (hnew : o.getAddrRange pid = none) :
    ∃ o', o.attachProcess checks pid r now = some o' ∧ SetsRange pid (some r) o o' := by
  have hmax : o.shmidDs.shmNattch ≠ BitVec.allOnes 16 := by
    intro heq
    rw [heq] at hcount
    simp at hcount
    omega
  have hlength := o.vaRange.length_alter pid (fun _ => some r)
  have hlookup : o.vaRange.lookup pid = none := hnew
  rw [hlookup] at hlength
  simp only [Option.isSome_none, Option.isSome_some, Bool.toNat_false, Bool.toNat_true] at hlength
  unfold attachProcess
  rw [hnew, if_neg (by simp),
    if_neg (by rw [Bool.and_eq_true, decide_eq_true_eq]; exact fun h => hmax h.2)]
  refine ⟨_, rfl, rfl, rfl, rfl, rfl, ?_⟩
  show (o.shmidDs.shmNattch + 1).toNat = (o.vaRange.alter pid (fun _ => some r)).entries.length
  unfold attachCount at hcount hroom
  simp
  omega

/-- **A process attaches a segment** that the manager has, at an address that is new. -/
theorem Book.attach (h : Book tb pending) (hi : i < tb.inners.length) {start stop : Nat}
    (ho : SetsRange pid (some (start, stop)) (tb.inner i) o) (hlt : start < stop)
    (hmanager : tb.shmidInner.lookup (tb.inner i).shmid = some i)
    (hnew : ∀ s, tb.recorded pid s ≠ some start) (hpending : ∀ s, pending pid s) :
    Book ((tb.insertShmidVaddr pid (tb.inner i).shmid start).setInner i o) pending := by
  have hi' : i < (tb.insertShmidVaddr pid (tb.inner i).shmid start).inners.length := hi
  have hrange := rangeOf_alter hi' ho.vaRange
  refine h.change length_setInner (inner_put shmid hi' ho.shmid)
    (inner_put pageNum hi' ho.pageNum) (fun _ _ => id) ?_ ?_ ?_
  · intro j hj
    rw [inner_setInner hi']
    split
    · exact ho.nattch
    · exact h.counted j hj
  · intro j hj p r hr
    rw [hrange] at hr
    split at hr
    next hnow =>
      cases hr
      rw [hnow.1]
      exact ⟨hmanager, hlt⟩
    · exact h.live j hj p r hr
  · intro p s a
    have hold := h.linked p s a
    rw [recorded_setInner, recorded_insertShmidVaddr]
    simp only [hrange]
    by_cases hp : p = pid
    · subst hp
      rw [if_pos rfl]
      by_cases hs : s = (tb.inner i).shmid
      · subst hs
        rw [if_pos rfl]
        constructor
        · rintro ⟨j, stop', hj, hr⟩
          cases hj.symm.trans hmanager
          grind
        · intro hright
          cases hright.1
          exact ⟨i, stop, hmanager, by rw [if_pos ⟨rfl, rfl⟩]⟩
      · rw [if_neg hs, if_neg (hnew s), ← hold]
        -- another segment of this process
        have hother : ∀ j, tb.shmidInner.lookup s = some j → ¬ (j = i ∧ p = p) := by grind
        constructor
        · rintro ⟨j, stop', hj, hr⟩
          rw [if_neg (hother j hj)] at hr
          exact ⟨j, stop', hj, hr⟩
        · rintro ⟨j, stop', hj, hr⟩
          exact ⟨j, stop', hj, by rw [if_neg (hother j hj)]; exact hr⟩
    · rw [if_neg hp, ← hold]
      have hother : ∀ j, ¬ (j = i ∧ p = pid) := fun j hji => hp hji.2
      simp only [hother, if_false]
      rfl

/-- **A detachment succeeds** where the books are right. -/
theorem exists_detachProcess (o : ShmInner) (checks : Bool) (now : Nat) {r : Nat × Nat}
    (hcount : o.shmidDs.shmNattch.toNat = o.attachCount) (hold : o.getAddrRange pid = some r) :
    ∃ o', o.detachProcess checks pid now = some o' ∧ SetsRange pid none o o' := by
  have hlength := o.vaRange.length_alter pid (fun _ => none)
  have hlookup : o.vaRange.lookup pid = some r := hold
  rw [hlookup] at hlength
  simp only [Option.isSome_none, Option.isSome_some, Bool.toNat_false, Bool.toNat_true] at hlength
  unfold attachCount at hcount
  have hzero : o.shmidDs.shmNattch ≠ 0 := by
    intro heq
    rw [heq] at hcount
    simp at hcount
    omega
  unfold detachProcess
  rw [hold, if_neg (by simp),
    if_neg (by rw [Bool.and_eq_true, decide_eq_true_eq]; exact fun h => hzero h.2)]
  refine ⟨_, rfl, rfl, rfl, rfl, rfl, ?_⟩
  show (o.shmidDs.shmNattch - 1).toNat = (o.vaRange.alter pid (fun _ => none)).entries.length
  simp
  omega

/-- **A process loses a segment**, and an unused segment that was marked leaves the
manager. -/
theorem Book.detach (h : Book tb pending) (hi : i < tb.inners.length) {r : Nat × Nat}
    (ho : SetsRange pid none (tb.inner i) o) (hr : tb.rangeOf i pid = some r)
    (table : OrdMap Nat (BiMap Int Nat))
    (hlink : ∀ p s a, ({ tb with pidShmidVaddr := table }.recorded p s = some a ∧ pending' p s)
      ↔ (tb.recorded p s = some a ∧ pending p s) ∧ ¬ (p = pid ∧ s = (tb.inner i).shmid)) :
    Book (({ tb with pidShmidVaddr := table }.setInner i o).removeIfUnused
      (tb.inner i).shmid o) pending' := by
  have hi' : i < { tb with pidShmidVaddr := table }.inners.length := hi
  have hrange : ∀ j p, ({ tb with pidShmidVaddr := table }.setInner i o).rangeOf j p
      = if j = i ∧ p = pid then none else tb.rangeOf j p := rangeOf_alter hi' ho.vaRange
  have hmanager := (h.live i hi pid r hr).1
  -- an unused segment has no range left
  have hunused : o.attachCount = 0 → ∀ p,
      ({ tb with pidShmidVaddr := table }.setInner i o).rangeOf i p = none := by
    intro hzero p
    unfold rangeOf
    rw [inner_setInner hi', if_pos rfl, Table.lookup_eq_none_iff]
    rw [List.length_eq_zero_iff.mp hzero]
    exact fun _ => List.not_mem_nil
  refine h.change ?_ ?_ ?_ ?_ ?_ ?_ ?_
  · rw [inners_removeIfUnused, length_setInner]
  · intro j
    rw [inner_removeIfUnused]
    exact inner_put shmid hi' ho.shmid j
  · intro j
    rw [inner_removeIfUnused]
    exact inner_put pageNum hi' ho.pageNum j
  · intro s j hs
    rw [lookup_removeIfUnused] at hs
    split at hs
    · cases hs
    · exact hs
  · intro j hj
    rw [inner_removeIfUnused, inner_setInner hi']
    split
    · exact ho.nattch
    · exact h.counted j hj
  · intro j hj p r' hr'
    rw [rangeOf_removeIfUnused] at hr'
    have hfull := hr'
    rw [hrange] at hr'
    split at hr'
    · cases hr'
    have hlive := h.live j hj p r' hr'
    refine ⟨?_, hlive.2⟩
    rw [lookup_removeIfUnused, if_neg]
    · exact hlive.1
    · grind
  · intro p s a
    simp only [rangeOf_removeIfUnused, recorded_removeIfUnused,
      recorded_setInner, hlink, ← h.linked p s a, lookup_removeIfUnused]
    constructor
    · rintro ⟨j, stop, hj, hr'⟩
      split at hj
      · cases hj
      rw [hrange] at hr'
      split at hr'
      · cases hr'
      next hne =>
        refine ⟨⟨j, stop, hj, hr'⟩, ?_⟩
        intro hboth
        rw [hboth.2] at hj
        exact hne ⟨Option.some.inj (hj.symm.trans hmanager), hboth.1⟩
    · rintro ⟨⟨j, stop, hj, hr'⟩, hne⟩
      have hnot : ¬ (j = i ∧ p = pid) := by grind
      have hnow : ({ tb with pidShmidVaddr := table }.setInner i o).rangeOf j p
        = some (a, stop) := by
        rw [hrange, if_neg hnot]
        exact hr'
      refine ⟨j, stop, ?_, hnow⟩
      rw [if_neg]
      · exact hj
      · grind

/-- A new segment, with an identifier that no segment had before. -/
theorem Book.create (h : Book tb pending) (hpages : 0 < o.pageNum)
    (hcount : o.shmidDs.shmNattch = 0) (hempty : o.vaRange = .empty)
    (hnew : ∀ o' ∈ tb.inners, o'.shmid ≠ o.shmid) (keys : BiMap Int Int) (next : BitVec 32) :
    Book { tb with
      keyShmid := keys
      shmidInner := tb.shmidInner.alter o.shmid (fun _ => some tb.inners.length)
      inners := tb.inners ++ [o]
      nextIpcId := next } pending := by
  have hold : ∀ j, j < tb.inners.length → (tb.inners ++ [o]).getD j default = tb.inner j :=
    fun _ => getD_append_old
  have hlast : (tb.inners ++ [o]).getD tb.inners.length default = o := getD_append_new
  have hlength : (tb.inners ++ [o]).length = tb.inners.length + 1 := by simp
  have hid : ∀ j, j < tb.inners.length → (tb.inner j).shmid ≠ o.shmid :=
    fun _ hj => hnew _ (inner_mem hj)
  have hnone : tb.shmidInner.lookup o.shmid = none := by
    cases hl : tb.shmidInner.lookup o.shmid with
    | none => rfl
    | some j => exact absurd (h.named _ j hl).2 (hid j (h.named _ j hl).1)
  have hcases : ∀ j, j < (tb.inners ++ [o]).length →
    j < tb.inners.length ∨ j = tb.inners.length := by
    intro j hj
    omega
  refine ⟨?_, ?_, ?_, ?_, ?_, ?_⟩
  · intro j k hj hk heq
    unfold Tables.inner at heq
    grind
  · intro s j hs
    simp only [lookup_alter] at hs
    unfold Tables.inner
    grind
  · intro j hj
    unfold Tables.inner
    grind
  · intro j hj
    unfold Tables.inner
    rcases hcases j hj with hj | rfl
    · rw [hold j hj]
      exact h.counted j hj
    · rw [hlast]
      unfold attachCount
      rw [hcount, hempty]
      rfl
  · intro j hj p r hr
    unfold rangeOf Tables.inner at hr
    unfold Tables.inner
    rcases hcases j hj with hj | rfl
    · rw [hold j hj] at hr ⊢
      rw [lookup_alter, if_neg (hid j hj)]
      exact h.live j hj p r hr
    · rw [hlast, hempty] at hr
      cases hr
  · intro p s a
    unfold rangeOf Tables.inner
    simp only [lookup_alter]
    have hlinked := h.linked p s a
    by_cases hs : s = o.shmid
    · -- nobody has the new segment
      have hright : ¬ (tb.recorded p s = some a ∧ pending p s) := by
        rw [← hlinked, hs, hnone]
        simp
      refine iff_of_false ?_ hright
      rintro ⟨j, stop, hj, hr⟩
      rw [if_pos hs] at hj
      cases hj
      rw [hlast, hempty] at hr
      cases hr
    · refine Iff.trans ?_ hlinked
      constructor
      · rintro ⟨j, stop, hj, hr⟩
        rw [if_neg hs] at hj
        rw [hold j (h.named s j hj).1] at hr
        exact ⟨j, stop, hj, hr⟩
      · rintro ⟨j, stop, hj, hr⟩
        refine ⟨j, stop, by rw [if_neg hs]; exact hj, ?_⟩
        rw [hold j (h.named s j hj).1]
        exact hr

end Operations

end StarryOS.Ipc.Shm
