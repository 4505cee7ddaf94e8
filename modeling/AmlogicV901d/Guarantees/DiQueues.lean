import Mathlib.Data.List.Perm.Subperm
import AmlogicV901d.Source.DiQue

/-!
# A buffer of the deinterlacer is in one queue

Sequences of calls on the buffers of a channel. Every call leaves all queues as they are, puts
a buffer that is in no queue into one, or takes a buffer out of the queue it is in; a buffer
that goes into a fifo has to be in no queue, which `di_que_in` only reports.
-/
namespace AmlogicV901d.Guarantees.DiQueues
open Lib.SlotPool Source.DiQue List

/-! ## Queues -/

inductive QueueId
  | old (i : Fin queueNum)
  | new (qtype : QueType)
  deriving DecidableEq, Repr

/-- The value of `queue_index`. -/
def QueueId.number : QueueId → Int
  | .old i => i.val
  | .new qtype => qtype.toNat + queueNum

/-- The values in a queue. -/
def entries (ch : Channel) : QueueId → List Nat
  | .old i => occupied (ch.queue i).pool maxQueuePoolSize
  | .new qtype => ch.fifo qtype

def poolOrder (q : QueueS) : Option (List Nat) :=
  if q.type = .firstOut then some (ring q.pool maxQueuePoolSize q.outIdx q.num) else none

/-- The values of a queue with an order, the oldest first. -/
def order (ch : Channel) : QueueId → Option (List Nat)
  | .old i => poolOrder (ch.queue i)
  | .new qtype => some (ch.fifo qtype)

/-- A buffer is in the queue that its index says, once, or in none. -/
structure OneQueue (ch : Channel) : Prop where
  buffers : ∀ q, ∀ v ∈ entries ch q, ∃ b, v = pwBuf2Qindex b
  once : ∀ q, (entries ch q).Nodup
  index : ∀ b q, ch.queueIndex b = q.number ↔ pwBuf2Qindex b ∈ entries ch q
  index_none : ∀ b, ch.queueIndex b = -1 ↔ ∀ q, pwBuf2Qindex b ∉ entries ch q
  num : ∀ i : Fin queueNum, (ch.queue i).num = (entries ch (.old i)).length
  ordered : ∀ q l, order ch q = some l → l.Perm (entries ch q)

/-! ## Calls -/

inductive Call
  | queueIn (diBuf : Option DiBuf) (queueIdx : Nat)
  | queueOut (diBuf : Option DiBuf)
  | diQueIn (qtype : QueType) (diBuf : Option DiBuf)
  | diQueOut (qtype : QueType) (diBuf : DiBuf)
  | diQueOutToDiBuf (qtype : QueType)
  | diQueOutNotFifo (qtype : QueType) (diBuf : DiBuf)
  deriving Repr

/-- The buffer is delivered if the call says so. -/
def deliver (diBuf : Option DiBuf) (r : Bool × Channel) : Option DiBuf × Channel := (if r.1 then diBuf else none, r.2)

/-- The buffer that is delivered, and the channel afterwards. -/
def Call.exec (call : Call) (ch : Channel) : Option DiBuf × Channel :=
  match call with
  | .queueIn diBuf queueIdx => (none, Source.DiQue.queueIn diBuf queueIdx ch)
  | .queueOut diBuf => deliver diBuf (Source.DiQue.queueOut diBuf ch)
  | .diQueIn qtype diBuf => (none, (Source.DiQue.diQueIn qtype diBuf ch).2)
  | .diQueOut qtype diBuf => deliver (some diBuf) (Source.DiQue.diQueOut qtype diBuf ch)
  | .diQueOutToDiBuf qtype => Source.DiQue.diQueOutToDiBuf qtype ch
  | .diQueOutNotFifo qtype diBuf => deliver (some diBuf) (Source.DiQue.diQueOutNotFifo qtype diBuf ch)

/-- Numbers of queues in range. -/
def Call.InRange : Call → Prop
  | .queueIn _ queueIdx => queueIdx < queueNum + QueType.all.length
  | _ => True

/-- Only a buffer that is in no queue goes into a fifo, and none into the one for lists. -/
def FifoInFree (qtype : QueType) (diBuf : Option DiBuf) (ch : Channel) : Prop :=
  qtype ≠ .dbg ∧ ∀ b ∈ diBuf, ch.queueIndex b = -1

def Call.InFree (call : Call) (ch : Channel) : Prop :=
  match call with
  | .queueIn diBuf queueIdx => ∀ qtype ∈ diQueType2New queueIdx, FifoInFree qtype diBuf ch
  | .diQueIn qtype diBuf => FifoInFree qtype diBuf ch
  | _ => True

def Call.takesAnywhere : Call → Bool
  | .diQueOutNotFifo _ _ => true
  | _ => false

/-- A queue with an order gets a buffer behind all others, loses its first one, or loses one
that was asked for. -/
def InOrder (call : Call) (ch : Channel) (delivered : Option DiBuf) (ch' : Channel) : Prop :=
  (∀ b, delivered = some b → ∃ q, pwBuf2Qindex b ∈ entries ch q ∧ ch'.queueIndex b = -1) ∧
  ∀ q l, order ch q = some l → ∃ l', order ch' q = some l' ∧
    (l' = l ∨ (∃ b, ch.queueIndex b = -1 ∧ l' = l ++ [pwBuf2Qindex b]) ∨
      (∃ b, delivered = some b ∧ l = pwBuf2Qindex b :: l') ∨
      (call.takesAnywhere ∧ ∃ b, delivered = some b ∧ pwBuf2Qindex b ∈ l ∧ l' = l.erase (pwBuf2Qindex b)))

/-- What holds before and after every call of a sequence. -/
def AllInOrder : List Call → Channel → Prop
  | [], ch => OneQueue ch
  | call :: calls, ch =>
    OneQueue ch ∧ InOrder call ch (call.exec ch).1 (call.exec ch).2 ∧ AllInOrder calls (call.exec ch).2

def AllInFree : List Call → Channel → Prop
  | [], _ => True
  | call :: calls, ch => call.InRange ∧ call.InFree ch ∧ AllInFree calls (call.exec ch).2

/-! ## Names of buffers -/

theorem bufNum_le (type : VframeType) : type.bufNum ≤ 20 := by cases type <;> decide

variable (b : DiBuf)

theorem index_lt : b.index.val < 20 := Nat.lt_of_lt_of_le b.index.isLt (bufNum_le b.type)

theorem qindex_eq : pwBuf2Qindex b = b.type.toNat * 256 + b.index.val := by
  have hindex : b.index.val < 2 ^ 8 := Nat.lt_trans (index_lt b) (by decide)
  rw [pwBuf2Qindex, ← Nat.shiftLeft_add_eq_or_of_lt hindex, Nat.shiftLeft_eq]

theorem qindex_ne_zero : pwBuf2Qindex b ≠ 0 := by
  have hpos : ∀ type : VframeType, 0 < type.toNat := fun type => by cases type <;> decide
  have := hpos b.type
  rw [qindex_eq]
  omega

theorem qindex_mod : pwBuf2Qindex b % 256 = b.index.val := by
  have := index_lt b
  rw [qindex_eq]
  omega

theorem qindex_div : pwBuf2Qindex b / 256 % 256 = b.type.toNat := by
  have := index_lt b
  have hle : ∀ type : VframeType, type.toNat < 256 := fun type => by cases type <;> decide
  have := hle b.type
  rw [qindex_eq]
  omega

theorem qindex2Buf_self : pwQindex2Buf (pwBuf2Qindex b) = some b := by
  rw [pwQindex2Buf, qindex_div, qindex_mod]
  obtain ⟨type, index⟩ := b
  cases type <;> exact dif_pos index.isLt

theorem qindex_inj {b c : DiBuf} (h : pwBuf2Qindex b = pwBuf2Qindex c) : b = c :=
  Option.some.inj ((qindex2Buf_self b).symm.trans ((congrArg pwQindex2Buf h).trans (qindex2Buf_self c)))

theorem number_inj {q r : QueueId} (h : q.number = r.number) : q = r := by
  cases q <;> cases r <;> simp only [QueueId.number] at h
  case old.old i j => rw [Fin.ext (show i.val = j.val by omega)]
  case old.new | new.old => omega
  case new.new s t =>
    have hall : ∀ s t : QueType, s.toNat = t.toNat → s = t := by
      intro s t
      cases s <;> cases t <;> decide
    rw [hall s t (by omega)]

theorem number_ne_none (q : QueueId) : q.number ≠ -1 := by
  cases q <;> simp only [QueueId.number] <;> omega

/-! ## Pools -/

/-- What a pool keeps of its own. -/
structure PoolInv (q : QueueS) : Prop where
  ring : q.type = .firstOut → (ring q.pool maxQueuePoolSize q.outIdx q.num).Perm (occupied q.pool maxQueuePoolSize) ∧
    q.outIdx < maxQueuePoolSize ∧ q.inIdx = (q.outIdx + q.num) % maxQueuePoolSize

theorem wrap_eq {idx : Nat} (h : idx < maxQueuePoolSize) : wrap idx = (idx + 1) % maxQueuePoolSize := by
  rw [wrap]
  split
  · next hge => rw [show idx + 1 = maxQueuePoolSize by omega, Nat.mod_self]
  · next hlt => rw [Nat.mod_eq_of_lt (by omega)]

theorem findSlot_some {pool : Nat → Nat} {value i : Nat} (h : findSlot pool value = some i) :
    i < maxQueuePoolSize ∧ pool i = value :=
  ⟨mem_range.mp (mem_of_find?_eq_some h), of_decide_eq_true (find?_some h :)⟩

section Pools
variable {q q' : QueueS} {b : DiBuf}

/-- A pool with one more value. -/
structure PoolGrows (b : DiBuf) (q q' : QueueS) : Prop where
  inv : PoolInv q'
  type : q'.type = q.type
  num : q'.num = q.num + 1
  perm : (occupied q'.pool maxQueuePoolSize).Perm (pwBuf2Qindex b :: occupied q.pool maxQueuePoolSize)
  ring : q.type = .firstOut → ring q'.pool maxQueuePoolSize q'.outIdx q'.num =
    Lib.SlotPool.ring q.pool maxQueuePoolSize q.outIdx q.num ++ [pwBuf2Qindex b]

theorem poolIn_grows (hinv : PoolInv q) (hnodup : (occupied q.pool maxQueuePoolSize).Nodup)
    (hnum : q.num < maxQueuePoolSize) (h : poolIn b q = some q') : PoolGrows b q q' := by
  have hne := qindex_ne_zero b
  rw [poolIn] at h
  cases htype : q.type with
  | firstOut =>
    rw [htype] at h
    cases h
    obtain ⟨hperm, hout, hin⟩ := hinv.ring htype
    have hfree := ring_next_free hperm hnodup hnum
    have hpush := @ring_push q.pool maxQueuePoolSize (pwBuf2Qindex b) q.outIdx q.num hnum
    have hset := occupied_set (Nat.mod_lt (q.outIdx + q.num) (by decide)) hfree hne
    rw [← hin] at hpush hset
    refine ⟨⟨fun _ => ⟨?_, hout, ?_⟩⟩, htype.symm, rfl, hset, fun _ => hpush⟩
    · rw [hpush]
      exact (perm_append_singleton _ _).trans ((hperm.cons _).trans hset.symm)
    · rw [wrap_eq (hin ▸ Nat.mod_lt _ (by decide)), hin, Nat.mod_add_mod, Nat.add_assoc]
  | general =>
    rw [htype] at h
    obtain ⟨i, hi, rfl⟩ := Option.map_eq_some_iff.mp h
    obtain ⟨hlt, hfree⟩ := findSlot_some hi
    exact ⟨⟨nofun⟩, htype.symm, rfl, occupied_set hlt hfree hne, fun hfirst => nomatch htype.symm.trans hfirst⟩
  | fixed =>
    rw [htype] at h
    dsimp only at h
    split at h
    · next hcheck =>
      cases h
      exact ⟨⟨nofun⟩, htype.symm, rfl, occupied_set hcheck.1 hcheck.2 hne,
        fun hfirst => nomatch htype.symm.trans hfirst⟩
    · cases h

/-- A pool with one value less. -/
structure PoolShrinks (b : DiBuf) (q q' : QueueS) : Prop where
  inv : PoolInv q'
  type : q'.type = q.type
  num : q'.num = q.num - 1
  perm : (occupied q.pool maxQueuePoolSize).Perm (pwBuf2Qindex b :: occupied q'.pool maxQueuePoolSize)
  ring : q.type = .firstOut → Lib.SlotPool.ring q.pool maxQueuePoolSize q.outIdx q.num =
    pwBuf2Qindex b :: Lib.SlotPool.ring q'.pool maxQueuePoolSize q'.outIdx q'.num

theorem poolOut_shrinks (hinv : PoolInv q) (hnum : q.num ≤ maxQueuePoolSize) (h : poolOut b q = some q') :
    PoolShrinks b q q' := by
  have hne := qindex_ne_zero b
  rw [poolOut] at h
  split at h
  case isFalse => cases h
  case isTrue hpos =>
    cases htype : q.type with
    | firstOut =>
      rw [htype] at h
      dsimp only at h
      split at h
      case isFalse => cases h
      case isTrue hhead =>
        cases h
        obtain ⟨hperm, hout, hin⟩ := hinv.ring htype
        obtain ⟨num, hsucc⟩ : ∃ num, q.num = num + 1 := ⟨q.num - 1, by omega⟩
        have hpop := @ring_pop q.pool maxQueuePoolSize q.outIdx num (by omega) hout
        have hclear := occupied_clear hout hhead hne
        rw [hhead, ← wrap_eq hout] at hpop
        rw [hsucc, hpop] at hperm
        refine ⟨⟨fun _ => ⟨?_, ?_, ?_⟩⟩, htype.symm, rfl, hclear, fun _ => ?_⟩
        · rw [hsucc]
          exact .cons_inv (hperm.trans hclear)
        · rw [wrap_eq hout]
          exact Nat.mod_lt _ (by decide)
        · dsimp only
          rw [wrap_eq hout, Nat.mod_add_mod, hin, hsucc]
          congr 1
          omega
        · rw [hsucc, hpop]
          rfl
    | general =>
      rw [htype] at h
      obtain ⟨i, hi, rfl⟩ := Option.map_eq_some_iff.mp h
      obtain ⟨hlt, hvalue⟩ := findSlot_some hi
      exact ⟨⟨nofun⟩, htype.symm, rfl, occupied_clear hlt hvalue hne, fun hfirst => nomatch htype.symm.trans hfirst⟩
    | fixed =>
      rw [htype] at h
      dsimp only at h
      split at h
      case isFalse => cases h
      case isTrue hcheck =>
        cases h
        exact ⟨⟨nofun⟩, htype.symm, rfl, occupied_clear hcheck.1 hcheck.2 hne,
          fun hfirst => nomatch htype.symm.trans hfirst⟩

theorem PoolGrows.order (h : PoolGrows b q q') : poolOrder q' = (poolOrder q).map (· ++ [pwBuf2Qindex b]) := by
  rw [poolOrder, poolOrder, h.type]
  split
  · next htype => rw [h.ring htype, Option.map_some]
  · rfl

theorem PoolShrinks.order (h : PoolShrinks b q q') : poolOrder q' = (poolOrder q).map (·.erase (pwBuf2Qindex b)) := by
  rw [poolOrder, poolOrder, h.type]
  split
  · next htype => rw [h.ring htype, Option.map_some, erase_cons_head]
  · rfl

theorem PoolShrinks.head (h : PoolShrinks b q q') {l : List Nat} (hl : poolOrder q = some l) :
    l.head? = some (pwBuf2Qindex b) := by
  rw [poolOrder] at hl
  split at hl
  · next htype =>
    cases hl
    rw [h.ring htype, head?_cons]
  · cases hl

end Pools

/-! ## Moves -/

/-- A buffer goes from no queue into one, behind all others. -/
structure Put (q : QueueId) (b : DiBuf) (ch ch' : Channel) : Prop where
  free : ch.queueIndex b = -1
  perm : (entries ch' q).Perm (pwBuf2Qindex b :: entries ch q)
  others : ∀ r, r ≠ q → entries ch' r = entries ch r
  index : ∀ c, ch'.queueIndex c = if c = b then q.number else ch.queueIndex c
  num : ∀ i : Fin queueNum, (ch'.queue i).num = if q = .old i then (ch.queue i).num + 1 else (ch.queue i).num
  order : ∀ r, order ch' r = (order ch r).map fun l => if r = q then l ++ [pwBuf2Qindex b] else l

/-- A buffer leaves its queue. -/
structure Take (q : QueueId) (b : DiBuf) (ch ch' : Channel) : Prop where
  perm : (entries ch q).Perm (pwBuf2Qindex b :: entries ch' q)
  others : ∀ r, r ≠ q → entries ch' r = entries ch r
  index : ∀ c, ch'.queueIndex c = if c = b then -1 else ch.queueIndex c
  num : ∀ i : Fin queueNum, (ch'.queue i).num = if q = .old i then (ch.queue i).num - 1 else (ch.queue i).num
  order : ∀ r, order ch' r = (order ch r).map fun l => if r = q then l.erase (pwBuf2Qindex b) else l

section Moves
variable {q : QueueId} {b : DiBuf} {ch ch' : Channel}

/-- Only one queue is not what it was, and only one buffer of it. -/
theorem OneQueue.move {i : Int} {f : List Nat → List Nat} {g : Nat → Nat} (h : OneQueue ch) (hothers : ∀ r, r ≠ q → entries ch' r = entries ch r)
    (hindex : ∀ c, ch'.queueIndex c = if c = b then i else ch.queueIndex c)
    (hrest : ∀ c ≠ b, pwBuf2Qindex c ∈ entries ch' q ↔ pwBuf2Qindex c ∈ entries ch q)
    (hat : ∀ r : QueueId, i = r.number ↔ pwBuf2Qindex b ∈ entries ch' r) (hnone : i = -1 ↔ ∀ r, pwBuf2Qindex b ∉ entries ch' r)
    (hbuffers : ∀ v ∈ entries ch' q, ∃ b, v = pwBuf2Qindex b) (honce : (entries ch' q).Nodup)
    (hnum : ∀ i : Fin queueNum, (ch'.queue i).num = if q = .old i then g (ch.queue i).num else (ch.queue i).num)
    (hlength : (entries ch' q).length = g (entries ch q).length)
    (horder : ∀ r, order ch' r = (order ch r).map fun l => if r = q then f l else l)
    (hperm : ∀ l, l.Perm (entries ch q) → (f l).Perm (entries ch' q)) : OneQueue ch' := by
  have hmem : ∀ c ≠ b, ∀ r, pwBuf2Qindex c ∈ entries ch' r ↔ pwBuf2Qindex c ∈ entries ch r := by
    intro c hc r
    by_cases hr : r = q
    · exact hr ▸ hrest c hc
    · rw [hothers r hr]
  refine ⟨fun r => ?_, fun r => ?_, fun c r => ?_, fun c => ?_, fun i => ?_, fun r l hl => ?_⟩
  · by_cases hr : r = q
    · exact hr ▸ hbuffers
    · exact hothers r hr ▸ h.buffers r
  · by_cases hr : r = q
    · exact hr ▸ honce
    · exact hothers r hr ▸ h.once r
  · rw [hindex]
    by_cases hc : c = b
    · rw [if_pos hc, hc, hat]
    · rw [if_neg hc, h.index, hmem c hc]
  · rw [hindex]
    by_cases hc : c = b
    · rw [if_pos hc, hc, hnone]
    · rw [if_neg hc, h.index_none]
      exact forall_congr' fun r => not_congr (hmem c hc r).symm
  · rw [hnum, h.num]
    split
    · next hq => rw [← hq, hlength]
    · next hq => rw [hothers _ (.symm hq)]
  · rw [horder] at hl
    obtain ⟨l0, hl0, rfl⟩ := Option.map_eq_some_iff.mp hl
    have hl0 := h.ordered r l0 hl0
    split
    · next hr => exact hr ▸ hperm l0 (hr ▸ hl0)
    · next hr => rwa [hothers r hr]

theorem Put.oneQueue (hput : Put q b ch ch') (h : OneQueue ch) : OneQueue ch' := by
  have hout := (h.index_none b).mp hput.free
  have hin : pwBuf2Qindex b ∈ entries ch' q := hput.perm.mem_iff.mpr mem_cons_self
  have hat : ∀ r : QueueId, q.number = r.number ↔ pwBuf2Qindex b ∈ entries ch' r := by
    refine fun r => ⟨fun heq => number_inj heq ▸ hin, fun hmem => ?_⟩
    by_cases hr : r = q
    · rw [hr]
    · exact absurd (hput.others r hr ▸ hmem) (hout r)
  refine h.move hput.others hput.index (fun c hc => ?_) hat
    ⟨fun heq => absurd heq (number_ne_none q), fun hall => absurd hin (hall q)⟩ (fun v hv => ?_)
    (hput.perm.nodup_iff.mpr (nodup_cons.mpr ⟨hout q, h.once q⟩)) hput.num hput.perm.length_eq hput.order
    fun l hl => (perm_append_singleton _ _).trans ((hl.cons _).trans hput.perm.symm)
  · rw [hput.perm.mem_iff, mem_cons, or_iff_right fun heq => hc (qindex_inj heq)]
  · exact (mem_cons.mp (hput.perm.mem_iff.mp hv)).elim (fun heq => ⟨b, heq⟩) (h.buffers q v)

theorem Take.mem (htake : Take q b ch ch') : pwBuf2Qindex b ∈ entries ch q :=
  htake.perm.mem_iff.mpr mem_cons_self

theorem Take.oneQueue (htake : Take q b ch ch') (h : OneQueue ch) : OneQueue ch' := by
  have hin := (h.index b q).mpr htake.mem
  obtain ⟨hgone, honce⟩ := nodup_cons.mp (htake.perm.nodup_iff.mp (h.once q))
  have hout : ∀ r, pwBuf2Qindex b ∉ entries ch' r := by
    intro r hmem
    by_cases hr : r = q
    · exact hgone (hr ▸ hmem)
    · exact hr (number_inj (((h.index b r).mpr (htake.others r hr ▸ hmem)).symm.trans hin))
  refine h.move (g := (· - 1)) htake.others htake.index (fun c hc => ?_)
    (fun r => ⟨fun heq => absurd heq.symm (number_ne_none r), fun hmem => absurd hmem (hout r)⟩) ⟨fun _ => hout, fun _ => rfl⟩
    (fun v hv => h.buffers q v (htake.perm.mem_iff.mpr (.tail _ hv))) honce htake.num ?_ htake.order
    fun l hl => .cons_inv (((perm_cons_erase (hl.mem_iff.mpr htake.mem)).symm.trans hl).trans htake.perm)
  · rw [htake.perm.mem_iff, mem_cons, or_iff_right fun heq => hc (qindex_inj heq)]
  · rw [htake.perm.length_eq, length_cons, Nat.add_sub_cancel]

theorem OneQueue.length_lt (h : OneQueue ch) (q : QueueId) : (entries ch q).length < maxQueuePoolSize := by
  have hsub : entries ch q ⊆ (List.range 1024).filter fun v => v % 256 < 20 ∧ 256 ≤ v := by
    intro v hv
    obtain ⟨c, rfl⟩ := h.buffers q v hv
    have hlt : ∀ type : VframeType, 0 < type.toNat ∧ type.toNat < 4 := fun type => by cases type <;> decide
    have := hlt c.type
    have := index_lt c
    refine mem_filter.mpr ⟨mem_range.mpr ?_, decide_eq_true ?_⟩
    · rw [qindex_eq]
      omega
    · rw [qindex_mod, qindex_eq]
      omega
  have hle := (subperm_of_subset (h.once q) hsub).length_le
  have hcount : ((List.range 1024).filter fun v => v % 256 < 20 ∧ 256 ≤ v).length = 60 := by decide +kernel
  rw [hcount] at hle
  exact Nat.lt_of_le_of_lt hle (by decide)

end Moves

/-! ## Changes of a channel -/

section Changes
variable {ch : Channel} {b : DiBuf} {qtype : QueType} {i : Fin queueNum}

theorem fifo_setFifo_at (words : List Nat) (t : QueType) :
    (ch.setFifo qtype words).fifo t = if QueueId.new t = .new qtype then words else ch.fifo t := by
  show (if t = qtype then words else ch.fifo t) = _
  simp only [QueueId.new.injEq]

theorem queue_setQueue (x : QueueS) (j : Fin queueNum) :
    (ch.setQueue i x).queue j = if QueueId.old j = .old i then x else ch.queue j := by
  show (if j.val = i.val then x else ch.queue j) = _
  simp only [QueueId.old.injEq, Fin.ext_iff]

section
variable (words : List Nat) (x : QueueS) (value : Int) (r : QueueId)

theorem entries_setFifo :
    entries ((ch.setFifo qtype words).setIndex b value) r = if r = .new qtype then words else entries ch r := by
  cases r with
  | old i => rfl
  | new t => exact fifo_setFifo_at words t

theorem order_setFifo :
    order ((ch.setFifo qtype words).setIndex b value) r = if r = .new qtype then some words else order ch r := by
  cases r with
  | old i => rfl
  | new t =>
    show some ((ch.setFifo qtype words).fifo t) = _
    rw [fifo_setFifo_at]
    split <;> rfl

theorem entries_setQueue : entries ((ch.setQueue i x).setIndex b value) r =
    if r = .old i then occupied x.pool maxQueuePoolSize else entries ch r := by
  cases r with
  | new t => rfl
  | old j =>
    show occupied ((ch.setQueue i x).queue j).pool _ = _
    rw [queue_setQueue]
    split <;> rfl

theorem order_setQueue :
    order ((ch.setQueue i x).setIndex b value) r = if r = .old i then poolOrder x else order ch r := by
  cases r with
  | new t => rfl
  | old j =>
    show poolOrder ((ch.setQueue i x).queue j) = _
    rw [queue_setQueue]
    split <;> rfl

end

theorem num_setQueue {x : QueueS} (f : Nat → Nat) (hnum : x.num = f (ch.queue i).num) (j : Fin queueNum) :
    ((ch.setQueue i x).queue j).num = if QueueId.old i = .old j then f (ch.queue j).num else (ch.queue j).num := by
  simp only [queue_setQueue, eq_comm]
  split
  · next hj => rw [hnum, QueueId.old.inj hj]
  · rfl

theorem order_map {ch' : Channel} {o : Option (List Nat)} {f : List Nat → List Nat} {q r : QueueId}
    (h : order ch' r = if r = q then o else order ch r) (hself : o = (order ch q).map f) :
    order ch' r = (order ch r).map fun l => if r = q then f l else l := by
  rw [h]
  by_cases hr : r = q
  · simp only [hr, if_true]
    exact hself
  · simp only [hr, if_false, Option.map_id']

theorem put_fifo (hfree : ch.queueIndex b = -1) :
    Put (.new qtype) b ch ((ch.setFifo qtype (ch.fifo qtype ++ [pwBuf2Qindex b])).setIndex b (qtype.toNat + queueNum)) where
  free := hfree
  perm := by
    rw [entries_setFifo, if_pos rfl]
    exact perm_append_singleton _ _
  others r hr := by rw [entries_setFifo, if_neg hr]
  index _ := rfl
  num _ := (if_neg (by simp)).symm
  order r := order_map (order_setFifo _ _ r) rfl

theorem take_fifo {front behind : List Nat} (hwords : ch.fifo qtype = front ++ pwBuf2Qindex b :: behind)
    (hfront : pwBuf2Qindex b ∉ front) :
    Take (.new qtype) b ch ((ch.setFifo qtype (front ++ behind)).setIndex b (-1)) where
  perm := by
    rw [entries_setFifo, if_pos rfl, entries, hwords]
    exact perm_middle
  others r hr := by rw [entries_setFifo, if_neg hr]
  index _ := rfl
  num _ := (if_neg (by simp)).symm
  order r := by
    refine order_map (order_setFifo _ _ r) ?_
    rw [order, Option.map_some, hwords, erase_append_right _ hfront, erase_cons_head]

theorem put_pool {x : QueueS} (hfree : ch.queueIndex b = -1) (hgrows : PoolGrows b (ch.queue i) x) :
    Put (.old i) b ch ((ch.setQueue i x).setIndex b (i.val : Int)) where
  free := hfree
  perm := by
    rw [entries_setQueue, if_pos rfl]
    exact hgrows.perm
  others r hr := by rw [entries_setQueue, if_neg hr]
  index _ := rfl
  num := num_setQueue (· + 1) hgrows.num
  order r := order_map (order_setQueue x _ r) hgrows.order

theorem take_pool {x : QueueS} (hshrinks : PoolShrinks b (ch.queue i) x) :
    Take (.old i) b ch ((ch.setQueue i x).setIndex b (-1)) where
  perm := by
    rw [entries_setQueue, if_pos rfl]
    exact hshrinks.perm
  others r hr := by rw [entries_setQueue, if_neg hr]
  index _ := rfl
  num := num_setQueue (· - 1) hshrinks.num
  order r := order_map (order_setQueue x _ r) hshrinks.order

end Changes

/-! ## One call -/

/-- What a channel keeps besides. -/
structure Shape (ch : Channel) : Prop where
  pools : ∀ i : Fin queueNum, PoolInv (ch.queue i)
  dbg : ch.fifo .dbg = []
  room : ∀ qtype, (ch.fifo qtype).length ≤ maxFifoSize

/-- What a call can do. -/
inductive Moved (anywhere : Bool) (ch : Channel) : Option DiBuf → Channel → Prop
  | stay : Moved anywhere ch none ch
  | put {q : QueueId} {b : DiBuf} {ch' : Channel} (hput : Put q b ch ch') : Moved anywhere ch none ch'
  | take {q : QueueId} {b : DiBuf} {ch' : Channel} (htake : Take q b ch ch')
      (hfirst : anywhere = true ∨ ∀ l, order ch q = some l → l.head? = some (pwBuf2Qindex b)) : Moved anywhere ch (some b) ch'

section Call
variable {ch : Channel} {b : DiBuf} {qtype : QueType}

theorem Shape.setIndex (h : Shape ch) (value : Int) : Shape (ch.setIndex b value) := { h with }

theorem Shape.setFifo (h : Shape ch) {words : List Nat} (hdbg : qtype = .dbg → words = []) (hroom : words.length ≤ maxFifoSize) :
    Shape (ch.setFifo qtype words) where
  pools := h.pools
  dbg := by
    show (if .dbg = qtype then words else ch.fifo .dbg) = []
    split
    · next heq => exact hdbg heq.symm
    · exact h.dbg
  room t := by
    show (if t = qtype then words else ch.fifo t).length ≤ _
    split
    exacts [hroom, h.room t]

theorem Shape.setQueue (h : Shape ch) {i : Fin queueNum} {x : QueueS} (hx : PoolInv x) : Shape (ch.setQueue i x) where
  pools j := by
    rw [queue_setQueue]
    split
    · exact hx
    · exact h.pools j
  dbg := h.dbg
  room := h.room

theorem Shape.ordered (h : Shape ch) {q : QueueId} {l : List Nat} (hl : order ch q = some l) : l.Perm (entries ch q) := by
  cases q with
  | new t => exact Option.some.inj hl ▸ List.Perm.refl _
  | old i =>
    rw [order, poolOrder] at hl
    split at hl
    · next htype => exact Option.some.inj hl ▸ ((h.pools i).ring htype).1
    · cases hl

/-- A call that keeps the shape and makes a move. -/
def Moves (anywhere : Bool) (ch : Channel) (r : Option DiBuf × Channel) : Prop := Moved anywhere ch r.1 r.2 ∧ Shape r.2

theorem moves_stay {anywhere : Bool} (hs : Shape ch) : Moves anywhere ch (none, ch) := ⟨.stay, hs⟩

theorem diQueIn_moves (hs : Shape ch) {diBuf : Option DiBuf} (hfree : FifoInFree qtype diBuf ch) :
    Moves false ch (none, (diQueIn qtype diBuf ch).2) := by
  cases diBuf with
  | none => exact moves_stay hs
  | some b =>
    have hindex := hfree.2 b rfl
    rw [diQueIn, if_neg fun h => h hindex, pwQueueIn]
    by_cases hlen : (ch.fifo qtype).length < maxFifoSize
    · rw [if_pos hlen]
      refine ⟨.put (put_fifo hindex), (hs.setFifo (fun heq => absurd heq hfree.1) ?_).setIndex _⟩
      rw [length_append]
      exact hlen
    · rw [if_neg hlen]
      exact moves_stay hs

theorem moves_front (hs : Shape ch) {rest : List Nat} (hwords : ch.fifo qtype = pwBuf2Qindex b :: rest) :
    Moves false ch (some b, (ch.setFifo qtype rest).setIndex b (-1)) := by
  have htake := @take_fifo ch b qtype [] rest hwords not_mem_nil
  refine ⟨.take htake (.inr fun l hl => ?_), (hs.setFifo (fun heq => ?_) ?_).setIndex _⟩
  · rw [← Option.some.inj hl, hwords, head?_cons]
  · rw [heq, hs.dbg] at hwords
    exact nomatch hwords
  · have hroom := hs.room qtype
    rw [hwords] at hroom
    exact Nat.le_of_succ_le hroom

theorem diQueOut_cases (qtype : QueType) (b : DiBuf) (ch : Channel) : diQueOut qtype b ch = (false, ch) ∨
    ∃ rest, ch.fifo qtype = pwBuf2Qindex b :: rest ∧ diQueOut qtype b ch = (true, (ch.setFifo qtype rest).setIndex b (-1)) := by
  rw [diQueOut, pwQueuePeek]
  cases hwords : ch.fifo qtype with
  | nil => exact .inl rfl
  | cons word rest =>
    dsimp only [head?_cons]
    by_cases hword : pwBuf2Qindex b ≠ word
    · rw [if_pos hword]
      exact .inl rfl
    · rw [if_neg hword, pwQueueOut, hwords, Classical.not_not.mp hword]
      exact .inr ⟨rest, rfl, rfl⟩

theorem diQueOut_moves (hs : Shape ch) : Moves false ch (deliver (some b) (diQueOut qtype b ch)) := by
  obtain hfail | ⟨rest, hwords, htrue⟩ := diQueOut_cases qtype b ch
  · rw [hfail]
    exact moves_stay hs
  · rw [htrue]
    exact moves_front hs hwords

theorem diQueOutToDiBuf_moves (h : OneQueue ch) (hs : Shape ch) : Moves false ch (diQueOutToDiBuf qtype ch) := by
  rw [diQueOutToDiBuf, pwQueuePeek]
  cases hwords : ch.fifo qtype with
  | nil => exact moves_stay hs
  | cons word rest =>
    have hmem : word ∈ entries ch (.new qtype) := by
      rw [entries, hwords]
      exact .head _
    obtain ⟨b, rfl⟩ := h.buffers _ word hmem
    dsimp only [head?_cons]
    rw [qindex2Buf_self, pwQueueOut, hwords]
    exact moves_front hs hwords

/-! ### Rebuilding a fifo -/

theorem setFifo_self (ch : Channel) (qtype : QueType) : ch.setFifo qtype (ch.fifo qtype) = ch := by
  have hsame : (fun t => if t = qtype then ch.fifo qtype else ch.fifo t) = ch.fifo := by
    funext t
    split
    · next heq => rw [heq]
    · rfl
  rw [Channel.setFifo, hsame]

theorem fifo_setFifo (words : List Nat) : (ch.setFifo qtype words).fifo qtype = words := if_pos rfl

theorem setFifo_setFifo (words words' : List Nat) : (ch.setFifo qtype words).setFifo qtype words' = ch.setFifo qtype words' := by
  have hsame : (fun t => if t = qtype then words' else if t = qtype then words else ch.fifo t) =
      fun t => if t = qtype then words' else ch.fifo t := by
    funext t
    split <;> rfl
  rw [Channel.setFifo, Channel.setFifo, hsame]
  rfl

theorem rebuild_words (words : List Nat) (hnot : pwBuf2Qindex b ∉ words) : ∀ (ret : Bool) (ch : Channel),
    (ch.fifo qtype).length + words.length ≤ maxFifoSize →
    words.foldl (rebuild qtype b) (ret, ch) = (ret, ch.setFifo qtype (ch.fifo qtype ++ words)) := by
  induction words with
  | nil =>
    intro ret ch _
    rw [append_nil, setFifo_self]
    rfl
  | cons word words ih =>
    intro ret ch hlen
    rw [length_cons] at hlen
    have hword : word ≠ pwBuf2Qindex b := fun heq => hnot (heq ▸ .head _)
    have hround : rebuild qtype b (ret, ch) word = (ret, ch.setFifo qtype (ch.fifo qtype ++ [word])) := by
      rw [rebuild, if_neg hword]
      dsimp only
      rw [pwQueueIn, if_pos (by omega)]
    rw [foldl_cons, hround,
      ih (fun hmem => hnot (.tail _ hmem)) ret _ (by rw [fifo_setFifo, length_append, length_singleton]; omega),
      fifo_setFifo, setFifo_setFifo, append_assoc, singleton_append]

theorem rebuild_all {front behind : List Nat} (hfront : pwBuf2Qindex b ∉ front) (hbehind : pwBuf2Qindex b ∉ behind)
    (hlen : front.length + behind.length ≤ maxFifoSize) :
    (front ++ pwBuf2Qindex b :: behind).foldl (rebuild qtype b) (false, pwQueueClear qtype ch) =
      (true, (ch.setFifo qtype (front ++ behind)).setIndex b (-1)) := by
  rw [foldl_append, pwQueueClear, rebuild_words front hfront _ _ (by rw [fifo_setFifo, length_nil]; omega),
    fifo_setFifo, setFifo_setFifo, nil_append, foldl_cons, rebuild, if_pos rfl]
  have hrest := @rebuild_words b qtype behind hbehind true ((ch.setFifo qtype front).setIndex b (-1))
    (by show ((ch.setFifo qtype front).fifo qtype).length + _ ≤ _; rw [fifo_setFifo]; exact hlen)
  rw [hrest]
  show (true, ((ch.setFifo qtype front).setFifo qtype ((ch.setFifo qtype front).fifo qtype ++ behind)).setIndex b (-1)) = _
  rw [fifo_setFifo, setFifo_setFifo]

theorem diQueOutNotFifo_moves (h : OneQueue ch) (hs : Shape ch) : Moves true ch (deliver (some b) (diQueOutNotFifo qtype b ch)) := by
  rw [diQueOutNotFifo, pwQueuePeek]
  cases hwords : ch.fifo qtype with
  | nil => exact moves_stay hs
  | cons word rest =>
    have hdbg : qtype ≠ .dbg := by
      rintro rfl
      rw [hs.dbg] at hwords
      exact nomatch hwords
    have hsame : ch.setFifo .dbg [] = ch := hs.dbg ▸ setFifo_self ch .dbg
    have hlist : diQueList qtype ch = (ch.fifo qtype, ch) := by
      rw [diQueList, if_neg (by rw [hwords]; exact cons_ne_nil _ _)]
      dsimp only
      rw [hsame, take_length]
    dsimp only [head?_cons]
    rw [hlist]
    have hroom := hs.room qtype
    by_cases hmem : pwBuf2Qindex b ∈ ch.fifo qtype
    · obtain ⟨front, behind, hsplit⟩ := append_of_mem hmem
      have hnodup : (ch.fifo qtype).Nodup := h.once (.new qtype)
      rw [hsplit] at hnodup hroom
      rw [length_append, length_cons] at hroom
      have hfront : pwBuf2Qindex b ∉ front := fun hin => (nodup_append.mp hnodup).2.2 _ hin _ mem_cons_self rfl
      have hbehind : pwBuf2Qindex b ∉ behind := (nodup_cons.mp (nodup_append.mp hnodup).2.1).1
      rw [hsplit, rebuild_all hfront hbehind (by omega)]
      refine ⟨.take (take_fifo hsplit hfront) (.inl rfl), (hs.setFifo (fun heq => absurd heq hdbg) ?_).setIndex _⟩
      rw [length_append]
      omega
    · rw [rebuild_words _ hmem _ _ (by rw [pwQueueClear, fifo_setFifo, length_nil]; omega), pwQueueClear, fifo_setFifo,
        setFifo_setFifo, nil_append, setFifo_self]
      exact moves_stay hs

/-! ### Pools and fifos -/

theorem type2New_none {queueIdx : Nat} (hrange : queueIdx < queueNum + QueType.all.length)
    (h : diQueType2New queueIdx = none) : queueIdx < queueNum := by
  have hnum : queueNum = 5 := rfl
  have hall : QueType.all.length = 12 := rfl
  by_contra hge
  rw [diQueType2New, if_pos (by omega), List.getElem?_eq_none_iff] at h
  omega

theorem queueIn_moves (h : OneQueue ch) (hs : Shape ch) {diBuf : Option DiBuf} {queueIdx : Nat}
    (hrange : queueIdx < queueNum + QueType.all.length) (hfree : ∀ qtype ∈ diQueType2New queueIdx, FifoInFree qtype diBuf ch) :
    Moves false ch (none, queueIn diBuf queueIdx ch) := by
  cases diBuf with
  | none => exact moves_stay hs
  | some b =>
    rw [queueIn]
    cases hnew : diQueType2New queueIdx with
    | some nqtype => exact diQueIn_moves hs (hfree nqtype hnew)
    | none =>
      have hold := type2New_none hrange hnew
      by_cases hindex : ch.queueIndex b ≠ -1
      · rw [if_pos hindex]
        exact moves_stay hs
      rw [if_neg hindex]
      cases hin : poolIn b (ch.queue queueIdx) with
      | none => exact moves_stay hs
      | some x =>
        have hnum : (ch.queue queueIdx).num < maxQueuePoolSize := h.num ⟨queueIdx, hold⟩ ▸ h.length_lt _
        have hgrows := poolIn_grows (hs.pools ⟨queueIdx, hold⟩) (h.once (.old ⟨queueIdx, hold⟩)) hnum hin
        exact ⟨.put (@put_pool ch b ⟨queueIdx, hold⟩ x (Classical.not_not.mp hindex) hgrows),
          .setIndex (@Shape.setQueue ch hs ⟨queueIdx, hold⟩ x hgrows.inv) queueIdx⟩

theorem queueOut_moves (h : OneQueue ch) (hs : Shape ch) (diBuf : Option DiBuf) :
    Moves false ch (deliver diBuf (queueOut diBuf ch)) := by
  cases diBuf with
  | none => exact moves_stay hs
  | some b =>
    rw [queueOut]
    dsimp only
    cases hnew : diQueType2New (ch.queueIndex b) with
    | some nqtype => exact diQueOut_moves hs
    | none =>
      by_cases hindex : 0 ≤ ch.queueIndex b ∧ ch.queueIndex b < queueNum
      · rw [if_pos hindex]
        have hi : (ch.queueIndex b).toNat < queueNum := by omega
        cases hout : poolOut b (ch.queue (ch.queueIndex b).toNat) with
        | none => exact moves_stay hs
        | some x =>
          have hnum : (ch.queue (ch.queueIndex b).toNat).num ≤ maxQueuePoolSize := h.num ⟨_, hi⟩ ▸ Nat.le_of_lt (h.length_lt _)
          have hshrinks := poolOut_shrinks (hs.pools ⟨_, hi⟩) hnum hout
          exact ⟨.take (@take_pool ch b ⟨_, hi⟩ x hshrinks) (.inr fun l hl => hshrinks.head hl),
            .setIndex (@Shape.setQueue ch hs ⟨_, hi⟩ x hshrinks.inv) (-1)⟩
      · rw [if_neg hindex]
        exact moves_stay hs

theorem exec_moves (h : OneQueue ch) (hs : Shape ch) {call : Call} (hrange : call.InRange) (hfree : call.InFree ch) :
    Moves call.takesAnywhere ch (call.exec ch) := by
  cases call with
  | queueIn diBuf queueIdx => exact queueIn_moves h hs hrange hfree
  | queueOut diBuf => exact queueOut_moves h hs diBuf
  | diQueIn qtype diBuf => exact diQueIn_moves hs hfree
  | diQueOut qtype diBuf => exact diQueOut_moves hs
  | diQueOutToDiBuf qtype => exact diQueOutToDiBuf_moves h hs
  | diQueOutNotFifo qtype diBuf => exact diQueOutNotFifo_moves h hs

theorem Moved.oneQueue {anywhere : Bool} {delivered : Option DiBuf} {ch' : Channel} (hmoved : Moved anywhere ch delivered ch')
    (h : OneQueue ch) : OneQueue ch' := by
  cases hmoved with
  | stay => exact h
  | put hput => exact hput.oneQueue h
  | take htake _ => exact htake.oneQueue h

theorem Moved.inOrder {call : Call} {delivered : Option DiBuf} {ch' : Channel}
    (hmoved : Moved call.takesAnywhere ch delivered ch') (h : OneQueue ch) : InOrder call ch delivered ch' := by
  cases hmoved with
  | stay => exact ⟨nofun, fun q l hl => ⟨l, hl, .inl rfl⟩⟩
  | @put q b _ hput =>
    refine ⟨nofun, fun r l hl => ⟨_, (hput.order r).trans (congrArg _ hl), ?_⟩⟩
    split
    · exact .inr (.inl ⟨b, hput.free, rfl⟩)
    · exact .inl rfl
  | @take q b _ htake hfirst =>
    refine ⟨fun c hc => ?_, fun r l hl => ⟨_, (htake.order r).trans (congrArg _ hl), ?_⟩⟩
    · cases hc
      exact ⟨q, htake.mem, (htake.index b).trans (if_pos rfl)⟩
    · dsimp only
      split
      · next hr =>
        subst hr
        have hmem : pwBuf2Qindex b ∈ l := (h.ordered r l hl).mem_iff.mpr htake.mem
        rcases hfirst with hany | hfirst
        · exact .inr (.inr (.inr ⟨hany, b, rfl, hmem, rfl⟩))
        · obtain ⟨rest, rfl⟩ := head?_eq_some_iff.mp (hfirst l hl)
          exact .inr (.inr (.inl ⟨b, rfl, by rw [erase_cons_head]⟩))
      · exact .inl rfl

end Call

/-! ## Sequences of calls -/

/-- The state after the initialisation. -/
def initialised (use2InterlaceBuff : Bool) (ch : Channel) : Channel := diQueInit (queueInit use2InterlaceBuff ch)

section Init
variable {ch : Channel} (use2 : Bool) (hindex : ∀ b, ch.queueIndex b = -1) (hkeep : ch.fifo .postKeepReAlloc = [])
include hkeep

theorem initialised_fifo (qtype : QueType) : (initialised use2 ch).fifo qtype = [] := by
  cases qtype
  case postKeepReAlloc => exact hkeep
  all_goals rfl

theorem initialised_entries (q : QueueId) : entries (initialised use2 ch) q = [] := by
  cases q with
  | old i =>
    have hqueue : ((initialised use2 ch).queue i).pool = fun _ => 0 := by
      show (if i.val < queueNum then _ else ch.queue i).pool = _
      rw [if_pos i.isLt]
    rw [entries, hqueue, occupied_free]
  | new qtype => exact initialised_fifo use2 hkeep qtype

theorem initialised_shape : Shape (initialised use2 ch) where
  pools i := by
    show PoolInv (if i.val < queueNum then _ else ch.queue i)
    rw [if_pos i.isLt]
    exact ⟨fun _ => ⟨by rw [occupied_free]; exact List.Perm.refl _, Nat.zero_lt_succ 255, rfl⟩⟩
  dbg := initialised_fifo use2 hkeep .dbg
  room qtype := by
    rw [initialised_fifo use2 hkeep]
    exact Nat.zero_le _

include hindex

theorem initialised_oneQueue : OneQueue (initialised use2 ch) := by
  have hentries := initialised_entries use2 hkeep
  have hnone : ∀ b, (initialised use2 ch).queueIndex b = -1 := hindex
  refine ⟨fun q v hv => ?_, fun q => ?_, fun b q => ?_, fun b => ?_, fun i => ?_, fun q l hl => ?_⟩
  · rw [hentries] at hv
    exact nomatch hv
  · rw [hentries]
    exact nodup_nil
  · rw [hnone, hentries]
    exact ⟨fun heq => absurd heq.symm (number_ne_none q), nofun⟩
  · rw [hnone]
    refine ⟨fun _ q => ?_, fun _ => rfl⟩
    rw [hentries]
    exact not_mem_nil
  · rw [hentries]
    show (if i.val < queueNum then _ else ch.queue i).num = _
    rw [if_pos i.isLt]
    rfl
  · exact (initialised_shape use2 hkeep).ordered hl

end Init

theorem run_inOrder {calls : List Call} {ch : Channel} (h : OneQueue ch) (hs : Shape ch) (hcalls : AllInFree calls ch) :
    AllInOrder calls ch := by
  induction calls generalizing ch with
  | nil => exact h
  | cons call calls ih =>
    obtain ⟨hrange, hfree, hrest⟩ := hcalls
    obtain ⟨hmoved, hs'⟩ := exec_moves h hs hrange hfree
    exact ⟨h, hmoved.inOrder h, ih (hmoved.oneQueue h) hs' hrest⟩

/-- After the initialisation every buffer is in one queue at a time, as long as only buffers that
are in no queue go into a fifo. -/
theorem buffer_in_one_queue {ch : Channel} {calls : List Call} (use2InterlaceBuff : Bool) (hindex : ∀ b, ch.queueIndex b = -1)
    (hkeep : ch.fifo .postKeepReAlloc = []) (hcalls : AllInFree calls (initialised use2InterlaceBuff ch)) :
    AllInOrder calls (initialised use2InterlaceBuff ch) :=
  run_inOrder (initialised_oneQueue use2InterlaceBuff hindex hkeep) (initialised_shape use2InterlaceBuff hkeep) hcalls

def blankChannel : Channel := ⟨fun _ => ⟨0, 0, 0, .firstOut, fun _ => 0⟩, fun _ => [], fun _ => -1⟩

def firstInput : DiBuf := ⟨.input, ⟨0, by decide⟩⟩

/-- A buffer goes into a fifo, out of it and into a pool. -/
theorem input_in_one_queue : AllInOrder [.diQueIn .inFree (some firstInput), .diQueOutToDiBuf .inFree,
    .queueIn (some firstInput) queueRecycle, .queueOut (some firstInput)] (initialised false blankChannel) := by
  refine buffer_in_one_queue false (fun _ => rfl) rfl ⟨trivial, ⟨by decide, fun b hb => ?_⟩, trivial, trivial, ?_, ?_, trivial, trivial, trivial⟩
  · cases hb
    decide +kernel
  · show queueRecycle < _
    decide
  · intro qtype hq
    cases hq

/-- A buffer that is in a fifo is put into a second one. -/
theorem reported_buffer_in_two_queues :
    ¬ AllInOrder [.diQueIn .inFree (some firstInput), .diQueIn .preReady (some firstInput)] (initialised false blankChannel) := by
  intro h
  have hlast : OneQueue _ := h.2.2.2.2
  exact absurd ((hlast.index firstInput (.new .inFree)).mpr (by decide +kernel)) (by decide +kernel)

end AmlogicV901d.Guarantees.DiQueues
