/-
  StarryOS.Ipc.MsgFifo — WHICH MESSAGE A RECEIVE SELECTS, against the rule of
  System V.

  The rule reads one list, that of the undelivered messages in the order in which
  they arrived:

      msgtyp = 0        the oldest
      msgtyp > 0        the oldest of this type; with MSG_EXCEPT the oldest of any other
      msgtyp < 0        the oldest of the smallest type not above |msgtyp|
      MSG_COPY          the one at position msgtyp

  `sys_msgrcv` reads a map from types to lists.  So a receive by type and one
  with negative `msgtyp` follow the rule (`i64::MIN` apart, whose absolute value
  is no `i64`), and the others where the two orders agree.
  `msgrcv_follows_rule_iff` says exactly where.
-/
import StarryOS.Ipc.MsgConservation

namespace StarryOS.Ipc.Msg

open Lib Mm MessageQueue Message

/-! ## §1. The rule. -/

/-- **The System V rule** on the messages in the order of arrival. -/
def systemVRule (msgtyp : Int) (flags : MsgRcvFlags) (l : List Message) : Option Message :=
  if flags.copy then
    if 0 ≤ msgtyp then l[msgtyp.toNat]? else none
  else if msgtyp = 0 then l.head?
  else if 0 < msgtyp then
    if flags.except then l.find? (fun m => m.mtype ≠ msgtyp)
    else l.find? (fun m => m.mtype = msgtyp)
  else (((l.map Message.mtype).filter (fun t => t ≤ -msgtyp)).min?).bind
    (fun t => l.find? (fun m => m.mtype = t))

/-- What a receive does with what it has found. -/
def found : Option Message → Except Stop (Int × Message)
  | some m => .ok (m.mtype, m)
  | none => .error (.err .noMessage)

theorem found_inj {x y : Option Message} : found x = found y ↔ x = y := by
  cases x <;> cases y <;> simp [found]
  exact congrArg _

/-- Where the order of the map is the order of arrival. -/
def OrderAgrees (cfg : Config) (msgtyp : BitVec 64) (flags : MsgRcvFlags)
    (l : List Message) : Prop :=
  if flags.copy then
    ∀ x, l[msgtyp.toNat]? = some x →
      (l.drop msgtyp.toNat).countP (fun m => m.mtype < x.mtype)
        = (l.take msgtyp.toNat).countP (fun m => x.mtype < m.mtype)
  else if msgtyp = 0 then
    ∀ x, l.head? = some x → ∀ m ∈ l, x.mtype ≤ m.mtype
  else if 0 < msgtyp.toInt then
    flags.except = true → ∀ x, l.find? (fun m => m.mtype ≠ msgtyp.toInt) = some x →
      ∀ m ∈ l, m.mtype ≠ msgtyp.toInt → x.mtype ≤ m.mtype
  else msgtyp ≠ BitVec.intMin 64 ∨ l = [] ∧ cfg.overflowChecks = false

/-! ## §2. The scans of the map. -/

section Scans

variable {cfg : Config} {o : QueueObject}

/-- A message with its type. -/
def tagged (m : Message) : Int × Message := (m.mtype, m)

/-- A scan stops at the first list whose type is wanted: none is empty. -/
theorem findSome?_eq_find? {es : List (Int × List Message)} (p : Int → Bool)
    (hes : ∀ e ∈ es, e.2 ≠ [] ∧ ∀ m ∈ e.2, m.mtype = e.1) :
    es.findSome? (fun e => if p e.1 then e.2.head?.map (fun m => (e.1, m)) else none)
      = ((es.find? (fun e => p e.1)).bind (fun e => e.2.head?)).map tagged := by
  induction es with
  | nil => rfl
  | cons e es ih =>
    have hrest := ih (fun e' he' => hes e' (.tail _ he'))
    obtain ⟨hne, htype⟩ := hes e (.head _)
    obtain ⟨t, b⟩ := e
    cases hp : p t with
    | false => grind
    | true =>
      cases b with
      | nil => exact absurd rfl hne
      | cons m b =>
        have hm : m.mtype = t := htype m (.head _)
        simp [hp, tagged, hm]

theorem Sound.buckets (h : Sound cfg o) :
    ∀ e ∈ o.queue.messages.entries, e.2 ≠ [] ∧ ∀ m ∈ e.2, m.mtype = e.1 := by
  intro e he
  obtain ⟨hb, hne⟩ := h.held.bucket ((o.queue.messages.lookup_eq_some_iff e.1 e.2).mpr he)
  refine ⟨hne, ?_⟩
  intro m hm
  rw [hb, List.mem_filter] at hm
  simpa using hm.2

theorem Sound.findFirstMessage_eq (h : Sound cfg o) : o.queue.findFirstMessage
    = ((o.queue.messages.entries.find? (fun _ => true)).bind (fun e => e.2.head?)).map tagged :=
  findSome?_eq_find? (fun _ => true) h.buckets

theorem Sound.findMessageNotEqual_eq (h : Sound cfg o) (t : Int) : o.queue.findMessageNotEqual t
    = ((o.queue.messages.entries.find? (fun e => decide (e.1 ≠ t))).bind
        (fun e => e.2.head?)).map tagged := by
  rw [← findSome?_eq_find? (fun k => decide (k ≠ t)) h.buckets]
  unfold findMessageNotEqual
  simp only [decide_eq_true_eq]

theorem Sound.findMessageByType_eq (h : Sound cfg o) (t : Int) : o.queue.findMessageByType t
    = (o.undelivered.find? (fun m => m.mtype = t)).map tagged := by
  unfold findMessageByType
  rw [h.held.find?_bucket]
  cases hfind : o.undelivered.find? (fun m => decide (m.mtype = t)) with
  | none => rfl
  | some m =>
    have hm : m.mtype = t := by simpa using List.find?_some hfind
    simp [tagged, hm]

/-- Once a type was taken, the types behind it are larger. -/
theorem foldl_candidate_some {absTyp t : Int} : ∀ {es : List (Int × List Message)},
    (∀ e ∈ es, t < e.1) → es.foldl (fun candidate e =>
      if e.1 ≤ absTyp && !e.2.isEmpty && candidate.all (fun c => decide (e.1 < c)) then some e.1
      else candidate) (some t) = some t := by
  intro es
  induction es with
  | nil =>
    intro _
    rfl
  | cons e es ih => grind

theorem candidateType_eq {absTyp : Int} : ∀ {es : List (Int × List Message)},
    es.Pairwise (fun a b => a.1 < b.1) → (∀ e ∈ es, e.2 ≠ []) →
    candidateType absTyp es = (es.find? (fun e => decide (e.1 ≤ absTyp))).map Prod.fst := by
  intro es
  induction es with
  | nil =>
    intro _ _
    rfl
  | cons e es ih =>
    intro hsorted hne
    obtain ⟨hlt, hsorted⟩ := List.pairwise_cons.mp hsorted
    have hb : e.2.isEmpty = false := by simpa using hne e (.head _)
    unfold candidateType
    rw [List.foldl_cons]
    by_cases hle : e.1 ≤ absTyp
    · rw [if_pos (by simp [hle, hb]), List.find?_cons_of_pos (by simpa using hle)]
      exact foldl_candidate_some hlt
    · rw [if_neg (by simp [hle]), List.find?_cons_of_neg (by simpa using hle)]
      exact ih hsorted (fun e' he' => hne e' (.tail _ he'))

theorem Sound.findMessageLessEqual_eq (h : Sound cfg o) (absTyp : Int) :
    o.queue.findMessageLessEqual absTyp
      = ((((o.undelivered.map mtype).filter (fun t => t ≤ absTyp)).min?).bind
          (fun t => o.undelivered.find? (fun m => m.mtype = t))).map tagged := by
  unfold findMessageLessEqual
  rw [candidateType_eq o.queue.messages.sorted (fun e he => (h.buckets e he).1),
    ← h.held.first_bucket (fun t => decide (t ≤ absTyp))]
  cases hfind : o.queue.messages.entries.find? (fun e => decide (e.1 ≤ absTyp)) with
  | none => rfl
  | some e =>
    have hmem := List.mem_of_find?_eq_some hfind
    have hlookup := (o.queue.messages.lookup_eq_some_iff e.1 e.2).mpr hmem
    obtain ⟨t, b⟩ := e
    obtain ⟨hne, htype⟩ := h.buckets _ hmem
    simp only [Option.map_some, Option.bind_some, findMessageByType] at hlookup ⊢
    rw [hlookup]
    cases b with
    | nil => exact absurd rfl hne
    | cons m b =>
      have hm : m.mtype = t := htype m (.head _)
      simp [tagged, hm]

theorem messageAt_eq (index : Nat) : ∀ (es : List (Int × List Message)) (current : Nat),
    current ≤ index → messageAt index current es = (es.flatMap Prod.snd)[index - current]? := by
  intro es
  induction es with
  | nil =>
    intro current _
    rfl
  | cons e es ih =>
    intro current hle
    unfold messageAt
    grind

theorem MessageQueue.messageByIndex_eq (q : MessageQueue) (index : Nat) :
    q.messageByIndex index = q.stored[index]? :=
  messageAt_eq index _ 0 (Nat.zero_le _)

theorem Sound.totalMessageCount_eq (h : Sound cfg o) :
    o.queue.totalMessageCount = o.undelivered.length := by
  have hsum := h.held.total_eq (fun _ => 1)
  simp only [List.map_const', List.sum_replicate_nat, Nat.mul_one] at hsum
  exact hsum

end Scans

/-! ## §3. The five modes. -/

section Modes

variable {cfg : Config} {o : QueueObject} {msgtyp : BitVec 64} {flags : MsgRcvFlags}

theorem match_map_tagged (x : Option Message) : (match x.map tagged with
      | some r => .ok r
      | none => .error (.err .noMessage) : Except Stop (Int × Message)) = found x := by
  cases x <;> rfl

/-- `select` follows the System V rule exactly where the order of the map agrees. -/
def Follows (cfg : Config) (o : QueueObject) (msgtyp : BitVec 64) (flags : MsgRcvFlags) : Prop :=
  o.queue.select cfg msgtyp flags = found (systemVRule msgtyp.toInt flags o.undelivered)
    ↔ OrderAgrees cfg msgtyp flags o.undelivered

variable (h : Sound cfg o)
include h

/-- No queue is as long as a position above `i64::MAX`. -/
theorem Sound.length_lt : o.undelivered.length < 2 ^ 63 := by
  have hfits := h.fits
  have hmem := cfg.memory.addressable
  rw [sum_footprint] at hfits
  omega

theorem Sound.select_copy (hcopy : flags.copy = true) :
    o.queue.select cfg msgtyp flags = found (o.queue.stored[msgtyp.toNat]?) := by
  unfold select
  simp only [hcopy, if_true]
  rw [h.totalMessageCount_eq, ← h.stored_perm.length_eq, messageByIndex_eq]
  split
  next hlen =>
    rw [List.getElem?_eq_none hlen]
    rfl
  · exact match_map_tagged _

/-- **`MSG_COPY`.** -/
theorem Sound.copy_follows (hcopy : flags.copy = true) : Follows cfg o msgtyp flags := by
  have hlen := h.length_lt
  have hrule : systemVRule msgtyp.toInt flags o.undelivered = o.undelivered[msgtyp.toNat]? := by
    unfold systemVRule
    rw [if_pos hcopy]
    by_cases hneg : 0 ≤ msgtyp.toInt
    · have htoNat : msgtyp.toInt.toNat = msgtyp.toNat := by
        have := BitVec.toInt_eq_toNat_cond msgtyp
        omega
      rw [if_pos hneg, htoNat]
    · grind
  unfold Follows OrderAgrees
  rw [h.select_copy hcopy, found_inj, hrule]
  rw [if_pos hcopy]
  cases hx : o.undelivered[msgtyp.toNat]? with
  | none =>
    rw [List.getElem?_eq_none_iff] at hx ⊢
    rw [h.stored_perm.length_eq]
    exact iff_of_true hx (fun x hx => absurd hx (by simp))
  | some x =>
    have hiff := h.held.getElem?_flatMap_eq_iff h.nodup_undelivered hx
    constructor
    · intro heq x' hx'
      cases hx'
      exact hiff.mp heq
    · intro hcount
      exact hiff.mpr (hcount x rfl)

section

variable (hcopy : flags.copy = false)
include hcopy

/-- **`msgtyp = 0`.** -/
theorem Sound.first_follows : Follows cfg o 0 flags := by
  have hselect : o.queue.select cfg 0 flags
      = found ((o.queue.messages.entries.find? (fun _ => true)).bind (fun e => e.2.head?)) := by
    unfold select
    simp only [hcopy, Bool.false_eq_true, if_false, if_true]
    rw [h.findFirstMessage_eq]
    exact match_map_tagged _
  have hhead : o.undelivered.find? (fun _ => true) = o.undelivered.head? := by
    cases o.undelivered <;> rfl
  have hiff := h.held.first_bucket_eq_iff (fun _ => true)
  rw [hhead] at hiff
  unfold Follows
  rw [hselect, found_inj]
  unfold systemVRule OrderAgrees
  grind

/-- **`msgtyp > 0`.** -/
theorem Sound.typed_follows (hpos : 0 < msgtyp.toInt) : Follows cfg o msgtyp flags := by
  have hne : msgtyp ≠ 0 := by
    rintro rfl
    cases hpos
  have hne' : msgtyp.toInt ≠ 0 := by omega
  unfold Follows systemVRule OrderAgrees
  simp only [hcopy, Bool.false_eq_true, if_false, hne, hne', hpos, if_true]
  cases hexcept : flags.except with
  | false =>
    have hselect : o.queue.select cfg msgtyp flags
        = found (o.undelivered.find? (fun m => m.mtype = msgtyp.toInt)) := by
      unfold select
      simp only [hcopy, Bool.false_eq_true, if_false, hne, hpos, if_true, hexcept]
      rw [h.findMessageByType_eq]
      exact match_map_tagged _
    grind
  | true =>
    have hselect : o.queue.select cfg msgtyp flags
        = found ((o.queue.messages.entries.find? (fun e => decide (e.1 ≠ msgtyp.toInt))).bind
            (fun e => e.2.head?)) := by
      unfold select
      simp only [hcopy, Bool.false_eq_true, if_false, hne, hpos, if_true, hexcept]
      rw [h.findMessageNotEqual_eq]
      exact match_map_tagged _
    have hiff := h.held.first_bucket_eq_iff (fun t => decide (t ≠ msgtyp.toInt))
    rw [hselect, if_pos rfl, found_inj, hiff]
    simp only [decide_eq_true_eq, forall_const]

/-- **`msgtyp < 0`.**  `i64::MIN.abs()` panics, or is negative and admits no type. -/
theorem Sound.negative_follows (hneg : msgtyp.toInt < 0) : Follows cfg o msgtyp flags := by
  have hne : msgtyp ≠ 0 := by
    rintro rfl
    cases hneg
  have hne' : msgtyp.toInt ≠ 0 := by omega
  have hpos : ¬ 0 < msgtyp.toInt := by omega
  unfold Follows systemVRule OrderAgrees
  simp only [hcopy, Bool.false_eq_true, if_false, hne, hne', hpos]
  by_cases hmin : msgtyp = BitVec.intMin 64
  · have hint : msgtyp.toInt = -2 ^ 63 := by
      rw [hmin]
      decide
    have habs : msgtyp.abs.toInt = -2 ^ 63 := by
      rw [hmin]
      decide
    have hrange : ∀ t ∈ o.undelivered.map mtype, 0 < t ∧ t < 2 ^ 63 := by
      intro t ht
      obtain ⟨m, hm, rfl⟩ := List.mem_map.mp ht
      exact h.positive m (List.mem_filter.mp hm).1
    cases hchecks : cfg.overflowChecks with
    | true =>
      have hselect : o.queue.select cfg msgtyp flags = .error .halt := by
        unfold select
        grind
      rw [hselect]
      refine iff_of_false ?_ (by simp [hmin])
      intro heq
      unfold found at heq
      split at heq
      · cases heq
      · cases heq
    | false =>
      have hselect : o.queue.select cfg msgtyp flags = found none := by
        unfold select
        simp only [hcopy, Bool.false_eq_true, if_false, hne, hpos, hchecks, Bool.false_and]
        have hnone : (o.undelivered.map mtype).filter (fun t => t ≤ msgtyp.abs.toInt) = [] := by
          rw [List.filter_eq_nil_iff]
          intro t ht
          have hp := hrange t ht
          simp only [decide_eq_true_eq]
          omega
        rw [h.findMessageLessEqual_eq, hnone]
        rfl
      rw [hselect, found_inj]
      constructor
      · intro heq
        refine .inr ⟨?_, rfl⟩
        -- every type is below 2^63, so the rule finds nothing only in an empty list
        have hall : (o.undelivered.map mtype).filter (fun t => t ≤ -msgtyp.toInt)
            = o.undelivered.map mtype := by
          rw [List.filter_eq_self]
          intro t ht
          have hp := hrange t ht
          simp only [decide_eq_true_eq]
          omega
        rw [hall] at heq
        cases hlist : (o.undelivered.map mtype).min? with
        | none => exact List.map_eq_nil_iff.mp (List.min?_eq_none_iff.mp hlist)
        | some t =>
          rw [hlist, Option.bind_some, eq_comm] at heq
          rw [List.min?_eq_some_iff] at hlist
          grind
      · grind
  · have habs : msgtyp.abs.toInt = -msgtyp.toInt := by
      rw [BitVec.toInt_abs_eq_ite, if_neg hmin, BitVec.msb_eq_toInt, if_pos (by simpa using hneg)]
    have hselect : o.queue.select cfg msgtyp flags
        = found ((((o.undelivered.map mtype).filter (fun t => t ≤ -msgtyp.toInt)).min?).bind
            (fun t => o.undelivered.find? (fun m => m.mtype = t))) := by
      unfold select
      simp only [hcopy, Bool.false_eq_true, if_false, hne, hpos, hmin, decide_false, Bool.and_false]
      rw [h.findMessageLessEqual_eq, habs]
      exact match_map_tagged _
    rw [hselect]
    exact iff_of_true rfl (.inl hmin)

end

theorem Sound.follows (msgtyp : BitVec 64) (flags : MsgRcvFlags) : Follows cfg o msgtyp flags := by
  cases hcopy : flags.copy with
  | true => exact h.copy_follows hcopy
  | false =>
    rcases lt_trichotomy msgtyp.toInt 0 with hneg | hzero | hpos
    · exact h.negative_follows hcopy hneg
    · obtain rfl : msgtyp = 0 := BitVec.eq_of_toInt_eq hzero
      exact h.first_follows hcopy
    · exact h.typed_follows hcopy hpos

end Modes

/-! ## §4. The receive. -/

/-- **WHERE A RECEIVE FOLLOWS THE RULE.**  On every queue of every run, `sys_msgrcv`
selects the message of the System V rule if and only if the order of the map is
the order of arrival, as far as `msgtyp` and the flags depend on it; then the
message that a successful receive returns is that of the rule. -/
theorem msgrcv_follows_rule_iff (cfg : Config) (w : World)
    (hw : Reach (step cfg) Always .initial w) (o : QueueObject) (ho : o ∈ w.objects)
    (a : ReceiveArgs) :
    (o.queue.select cfg a.msgtyp a.flags = found (systemVRule a.msgtyp.toInt a.flags o.undelivered)
      ↔ OrderAgrees cfg a.msgtyp a.flags o.undelivered)
    ∧ (OrderAgrees cfg a.msgtyp a.flags o.undelivered →
      ∀ who m len q', msgrcv cfg who a o.queue = .ok (m, len) q' →
        systemVRule a.msgtyp.toInt a.flags o.undelivered = some m) := by
  have hiff := (allSound_of_reach hw o ho).follows a.msgtyp a.flags
  refine ⟨hiff, ?_⟩
  intro hagree who m len q' hrun
  obtain ⟨mtype, hselect, -⟩ := wp_of_run hrun (msgrcv_spec who a)
  rw [hiff.mpr hagree] at hselect
  generalize hrule : systemVRule a.msgtyp.toInt a.flags o.undelivered = p at hselect
  cases p with
  | none => cases hselect
  | some m' =>
    obtain ⟨-, rfl⟩ := Prod.mk.inj (Except.ok.inj hselect)
    rfl

def noFlags : MsgRcvFlags := ⟨false, false, false, false⟩

/-- Of two messages with types 5 and 2, a receive with `msgtyp = -9` selects the
second one, as the rule does. -/
theorem msgrcv_follows_rule_negative : ∃ w, Reach (step smallKernel) Always .initial w
    ∧ ∃ o ∈ w.objects, o.undelivered.length = 2
      ∧ o.queue.select smallKernel (-9) noFlags = found (systemVRule (-9) noFlags o.undelivered)
      ∧ (systemVRule (-9) noFlags o.undelivered).map Message.stamp = some 1 := by
  obtain ⟨w, hw, o, ho, hlength, hstamp⟩ := exists_reach (step smallKernel) .initial
    (twoSends 5 2)
    (fun w => ∃ o ∈ w.objects, o.undelivered.length = 2
      ∧ (systemVRule (-9) noFlags o.undelivered).map stamp = some 1) (by decide +kernel)
  have hagree : OrderAgrees smallKernel (-9) noFlags o.undelivered := .inl (by decide)
  exact ⟨w, hw, o, ho, hlength,
    (msgrcv_follows_rule_iff smallKernel w hw o ho (receiveOf (-9) noFlags)).1.mpr hagree, hstamp⟩

/-- The stamps of what `sys_msgrcv` returns and of what the rule selects. -/
def returnedAndRuled (o : QueueObject) (a : ReceiveArgs) : Option Nat × Option Nat :=
  (match msgrcv smallKernel root a o.queue with
    | .ok (m, _) _ => some m.stamp
    | .error _ _ => none,
   (systemVRule a.msgtyp.toInt a.flags o.undelivered).map Message.stamp)

/-- **The order of arrival is lost.**  A message of type 2 was sent, then one of type
1.  A receive with `msgtyp = 0` returns the second one, and so does one that
excludes type 3; `MSG_COPY` at position 0 copies it.  With `i64::MIN` nothing is
found. -/
theorem msgrcv_breaks_rule : ∃ w, Reach (step smallKernel) Always .initial w
    ∧ ∃ o ∈ w.objects, returnedAndRuled o (receiveOf 0 noFlags) = (some 1, some 0)
      ∧ returnedAndRuled o (receiveOf 3 { noFlags with except := true }) = (some 1, some 0)
      ∧ returnedAndRuled o (receiveOf 0 { noFlags with copy := true, nowait := true })
        = (some 1, some 0)
      ∧ returnedAndRuled o (receiveOf (BitVec.intMin 64) noFlags) = (none, some 1) :=
  exists_reach (step smallKernel) .initial (twoSends 2 1) _ (by decide +kernel)

end StarryOS.Ipc.Msg
