import Mathlib.Data.Nat.Bitwise
import AmlogicV901d.Source.RdmaMgr

/-!
# What a handle reads of the registers it wrote

Sequences of writes, submissions and reads of all handles, beside a log of all writes. Every
write of a register is read back, unless the register is in conflict and the submitted table of
the handle has an older value of it; and the bits of a register are replaced in the value that
was written last, under a condition on the log.
-/
namespace AmlogicV901d.Guarantees.RdmaViews
open Source.RdmaMgr List
open Option (some_ne_none map_some map_eq_none_iff isSome_some getD)
open UInt32 (ofNat size ofNat_toNat)

/-! ## The log of writes -/

/-- Where a written value is: in the table of its handle, in the submitted table, or in none of
them. -/
inductive Status
  | pending
  | submitted
  | gone
  deriving DecidableEq, Repr

def Status.rank : Status → Nat
  | .pending => 0
  | .submitted => 1
  | .gone => 2

structure WriteRec where
  handle : Nat
  adr : UInt32
  val : UInt32
  status : Status
  deriving DecidableEq, Repr

/-- The writes, the last one first. -/
abbrev Log := List WriteRec

def newest (p : WriteRec → Bool) (log : Log) : Option UInt32 := (log.find? p).map (·.val)

def ofHandle (handle : Nat) (adr : UInt32) (status : Status) (r : WriteRec) : Bool :=
  r.handle = handle ∧ r.adr = adr ∧ r.status = status

/-- The writes of a handle go on. -/
def age (f : Status → Status) (handle : Nat) (log : Log) : Log :=
  log.map fun r => if r.handle = handle then { r with status := f r.status } else r

def Status.next : Status → Status
  | .pending => .submitted
  | .submitted => .gone
  | .gone => .gone

def Status.lost : Status → Status := fun _ => .gone

/-! ## Calls -/

/-- `hw` is what the register is read as. -/
inductive Op
  | writeReg (handle : Nat) (adr val : UInt32)
  | writeRegBits (handle : Nat) (adr val : UInt32) (start len : Nat) (hw : UInt32)
  | config (handle : Nat) (triggerType : UInt32)
  | readReg (handle : Nat) (adr hw : UInt32)
  deriving Repr

def Op.exec (op : Op) (info : RdmaInfo) : RdmaInfo :=
  match op with
  | .writeReg handle adr val => (rdmaWriteReg handle adr val info).2
  | .writeRegBits handle adr val start len hw => (rdmaWriteRegBits handle adr val start len hw info).2
  | .config handle triggerType => (rdmaConfig handle triggerType info).2
  | .readReg _ _ _ => info

/-- A trigger that submits the table, for reads of nothing. -/
def Submits (triggerType : UInt32) : Prop := 0 < triggerType ∧ triggerType ≤ rdmaTriggerManual

instance (triggerType : UInt32) : Decidable (Submits triggerType) :=
  inferInstanceAs (Decidable (0 < triggerType ∧ triggerType ≤ rdmaTriggerManual))

/-- The items stay in the table of the handle. -/
def kept (handle : Nat) (adr : UInt32) (bits : Bool) (info : RdmaInfo) : Bool :=
  (bits && (findItem (info.ins handle).regBuf adr (info.ins handle).rdmaItemCount).isSome) || hasRoom (info.ins handle)

def logWrite (handle : Nat) (adr val : UInt32) (kept : Bool) (log : Log) : Log :=
  ⟨handle, adr, val, .pending⟩ :: if kept then log else age .lost handle log

def Op.log (op : Op) (info : RdmaInfo) (log : Log) : Log :=
  match op with
  | .writeReg handle adr val =>
    if (info.ins handle).rdmaTableSize = 0 then log else logWrite handle adr val (kept handle adr false info) log
  | .writeRegBits handle adr val start len hw =>
    if (info.ins handle).rdmaTableSize = 0 then log
    else logWrite handle adr (rdmaWriteRegBits handle adr val start len hw info).1.2 (kept handle adr true info) log
  | .config handle triggerType =>
    if handle = 0 ∨ handle ≥ rdmaNum ∨ (info.ins handle).op = false then log
    else age (if Submits triggerType then .next else .lost) handle log
  | .readReg _ _ _ => log

/-- Handles for writes, registers and bits in range, and the triggers that are documented. -/
def Op.InRange (readHandle : Nat) : Op → Prop
  | .writeReg handle adr _ => handle < rdmaNum ∧ handle ≠ readHandle ∧ adr ≠ 0
  | .writeRegBits handle adr val start len _ =>
    handle < rdmaNum ∧ handle ≠ readHandle ∧ adr ≠ 0 ∧ start < 32 ∧ start + len ≤ 32 ∧ val.toNat < 2 ^ len
  | .config handle triggerType => handle ≠ readHandle ∧
      (triggerType ≤ 0x102 ∨ triggerType &&& rdmaReadMask = 0 ∧ triggerType &&& rdmaAutoStartMask ≠ 0)
  | .readReg _ _ _ => True

/-! ## What is promised -/

/-- Another handle has the register in its table. -/
def OtherHas (handle : Nat) (adr : UInt32) (info : RdmaInfo) (i : Nat) : Prop :=
  i ≠ handle ∧ (info.ins i).rdmaTableSize ≠ 0 ∧ lastItem (info.ins i).regBuf adr (info.ins i).rdmaItemCount ≠ none

/-- The register is in the cache of conflicts, or in the table of another handle. -/
def Conflict (handle : Nat) (adr : UInt32) (info : RdmaInfo) : Prop :=
  conflictSlot info adr ≠ none ∨ ∃ i, i < rdmaNum ∧ OtherHas handle adr info i

/-- The register is in conflict, and the submitted table of the handle has another value of it. -/
def Stale (handle : Nat) (adr val : UInt32) (bits : Bool) (info : RdmaInfo) : Prop :=
  Conflict handle adr info ∧ kept handle adr bits info = true ∧
    ∃ old, lastItem (info.ins handle).rdmaTableAddr adr (info.ins handle).rdmaWriteCount = some old ∧ old ≠ val

/-- The value that was written last, by any handle if it is not submitted and else by this one. -/
def lastWritten (handle : Nat) (adr hw : UInt32) (log : Log) : UInt32 :=
  ((newest (fun r => r.adr = adr ∧ r.status = .pending) log).or
    (newest (fun r => r.handle = handle ∧ r.adr = adr) log)).getD hw

/-- The cache has the last write of the register and that is the one to go on from; or the
register is not in conflict, and the handle has its own last write or the hardware does. -/
def Known (handle : Nat) (adr hw : UInt32) (info : RdmaInfo) (log : Log) : Prop :=
  if conflictSlot info adr = none then
    (∀ i, i < rdmaNum → i ≠ handle → lastItem (info.ins i).regBuf adr (info.ins i).rdmaItemCount = none) ∧
    ∀ r, log.find? (fun r => r.handle = handle ∧ r.adr = adr) = some r → r.status = .gone → hw = r.val
  else ∀ r, log.find? (fun r => r.adr = adr) = some r →
    r.status = .pending ∨ (r.handle = handle ∧ ∀ w ∈ log, w.adr = adr → w.status ≠ .pending)

/-- Bits of one value in another. -/
def BitsReplaced (old val : UInt32) (start len : Nat) (new : UInt32) : Prop :=
  ∀ i, i < 32 → new.toNat.testBit i =
    if start ≤ i ∧ i < start + len then val.toNat.testBit (i - start) else old.toNat.testBit i

def ReadsBack (handle : Nat) (adr val : UInt32) (info : RdmaInfo) : Prop := ∀ hw, rdmaReadReg handle adr hw info = val

/-- What holds of one call. -/
def OpOk (op : Op) (info : RdmaInfo) (log : Log) : Prop :=
  match op with
  | .writeReg handle adr val => (info.ins handle).rdmaTableSize ≠ 0 →
      (ReadsBack handle adr val (op.exec info) ↔ ¬ Stale handle adr val false info)
  | .writeRegBits handle adr val start len hw => (info.ins handle).rdmaTableSize ≠ 0 →
      let writeVal := (rdmaWriteRegBits handle adr val start len hw info).1.2
      (Known handle adr hw info log → BitsReplaced (lastWritten handle adr hw log) val start len writeVal) ∧
      (ReadsBack handle adr writeVal (op.exec info) ↔ ¬ Stale handle adr writeVal true info)
  | _ => True

def RunOk : List Op → RdmaInfo → Log → Prop
  | [], _, _ => True
  | op :: ops, info, log => OpOk op info log ∧ RunOk ops (op.exec info) (op.log info log)

/-! ## Items -/

section Items
variable {buf buf' : Nat → UInt32} {adr adr' v : UInt32} {n i : Nat}

theorem findItem_some (h : findItem buf adr n = some i) : i < n ∧ buf (i * 2) = adr := by
  fun_induction findItem buf adr n with
  | case1 => cases h
  | case2 n heq =>
    cases h
    exact ⟨Nat.lt_succ_self _, heq⟩
  | case3 n _ ih => exact ⟨Nat.lt_succ_of_lt (ih h).1, (ih h).2⟩

theorem findItem_none : findItem buf adr n = none ↔ ∀ i, i < n → buf (i * 2) ≠ adr := by
  fun_induction findItem buf adr n with
  | case1 => exact ⟨fun _ i hi => absurd hi (Nat.not_lt_zero i), fun _ => rfl⟩
  | case2 n heq => exact ⟨nofun, fun h => absurd heq (h n (Nat.lt_succ_self n))⟩
  | case3 n hne ih =>
    rw [ih]
    refine ⟨fun h i hi => ?_, fun h i hi => h i (Nat.lt_succ_of_lt hi)⟩
    rcases Nat.lt_succ_iff_lt_or_eq.mp hi with hlt | rfl
    · exact h i hlt
    · exact hne

theorem findItem_congr (h : ∀ i, i < n → buf' (i * 2) = buf (i * 2)) : findItem buf' adr n = findItem buf adr n := by
  induction n with
  | zero => rfl
  | succ n ih => rw [findItem, findItem, h n (Nat.lt_succ_self n), ih fun i hi => h i (Nat.lt_succ_of_lt hi)]

theorem lastItem_congr (h : ∀ j, j < n * 2 → buf' j = buf j) : lastItem buf' adr n = lastItem buf adr n := by
  rw [lastItem, lastItem, findItem_congr fun i hi => h _ (by omega)]
  cases hfind : findItem buf adr n with
  | none => rfl
  | some i => rw [map_some, map_some, h _ (by have := (findItem_some hfind).1; omega)]

theorem lastItem_none : lastItem buf adr n = none ↔ ∀ i, i < n → buf (i * 2) ≠ adr := by
  rw [lastItem, map_eq_none_iff, findItem_none]

theorem lastItem_zero : lastItem buf adr 0 = none := rfl

theorem lastItem_append : lastItem (setWord (setWord buf (n * 2) adr) (n * 2 + 1) v) adr' (n + 1) =
    if adr' = adr then some v else lastItem buf adr' n := by
  have hadr : setWord (setWord buf (n * 2) adr) (n * 2 + 1) v (n * 2) = adr := by
    rw [setWord, if_neg (by omega), setWord, if_pos rfl]
  have hval : setWord (setWord buf (n * 2) adr) (n * 2 + 1) v (n * 2 + 1) = v := if_pos rfl
  rw [lastItem, findItem, hadr]
  by_cases heq : adr' = adr
  · rw [if_pos heq.symm, if_pos heq, map_some, hval]
  · rw [if_neg (Ne.symm heq), if_neg heq]
    refine lastItem_congr fun j hj => ?_
    rw [setWord, if_neg (by omega), setWord, if_neg (by omega)]

theorem lastItem_replace (h : findItem buf adr n = some i) : lastItem (setWord buf (i * 2 + 1) v) adr' n =
    if adr' = adr then some v else lastItem buf adr' n := by
  have hkeys : findItem (setWord buf (i * 2 + 1) v) adr' n = findItem buf adr' n :=
    findItem_congr fun k _ => if_neg (by omega)
  rw [lastItem, hkeys]
  by_cases heq : adr' = adr
  · rw [heq, h, if_pos rfl, map_some, setWord, if_pos rfl]
  rw [if_neg heq, lastItem]
  cases hother : findItem buf adr' n with
  | none => rfl
  | some k =>
    have hne : k ≠ i := by
      rintro rfl
      exact heq ((findItem_some hother).2.symm.trans (findItem_some h).2)
    rw [map_some, map_some, setWord, if_neg (by omega)]

end Items

/-! ## Newest writes -/

section Newest
variable {p q : WriteRec → Bool} {log : Log} {r : WriteRec}

theorem newest_cons : newest p (r :: log) = if p r then some r.val else newest p log := by
  rw [newest, find?_cons]
  cases p r <;> rfl

theorem newest_congr (h : ∀ r ∈ log, p r = q r) : newest p log = newest q log := by
  induction log with
  | nil => rfl
  | cons r log ih =>
    rw [newest_cons, newest_cons, h r mem_cons_self, ih fun w hw => h w (.tail _ hw)]

theorem newest_none (h : ∀ r ∈ log, p r = false) : newest p log = none := by
  rw [newest, map_eq_none_iff, find?_eq_none]
  exact fun r hr hp => absurd hp (by rw [h r hr]; decide)

theorem newest_age (f : Status → Status) (handle : Nat) : newest p (age f handle log) =
    newest (fun r => p (if r.handle = handle then { r with status := f r.status } else r)) log := by
  induction log with
  | nil => rfl
  | cons r log ih =>
    show newest p (_ :: age f handle log) = _
    rw [newest_cons, newest_cons, ih]
    dsimp only
    split <;> rfl

theorem find_and (h : log.find? p = some r) (hq : q r = true) (himp : ∀ w, q w = true → p w = true) :
    log.find? q = some r := by
  obtain ⟨_, front, behind, hlog, hfront⟩ := find?_eq_some_iff_append.mp h
  refine find?_eq_some_iff_append.mpr ⟨hq, front, behind, hlog, fun w hw => ?_⟩
  have hp := hfront w hw
  cases hqw : q w with
  | false => rfl
  | true => rw [himp w hqw] at hp; exact hp

end Newest

section Handles
variable {log : Log} {handle g : Nat} {adr adr' : UInt32} {status : Status}

theorem ofHandle_iff {r : WriteRec} :
    ofHandle handle adr status r = true ↔ r.handle = handle ∧ r.adr = adr ∧ r.status = status :=
  decide_eq_true_iff

theorem newest_age_other (f : Status → Status) (hne : g ≠ handle) :
    newest (ofHandle g adr status) (age f handle log) = newest (ofHandle g adr status) log := by
  rw [newest_age]
  refine newest_congr fun r _ => ?_
  split
  · next heq =>
    rw [ofHandle, ofHandle, decide_eq_false fun h => hne (h.1.symm.trans heq), decide_eq_false fun h => hne (h.1.symm.trans heq)]
  · rfl

theorem newest_age_none {f : Status → Status} (hf : ∀ old, f old ≠ status) :
    newest (ofHandle handle adr status) (age f handle log) = none := by
  rw [newest_age]
  refine newest_none fun r _ => decide_eq_false ?_
  split
  · exact fun h => hf _ h.2.2
  · next hne => exact fun h => hne h.1

theorem newest_lost (hstatus : status ≠ .gone) : newest (ofHandle handle adr status) (age .lost handle log) = none :=
  newest_age_none fun _ => hstatus.symm

theorem next_ne_pending (status : Status) : status.next ≠ .pending := by cases status <;> decide

theorem newest_next_submitted :
    newest (ofHandle handle adr .submitted) (age .next handle log) = newest (ofHandle handle adr .pending) log := by
  rw [newest_age]
  refine newest_congr fun r _ => decide_eq_decide.mpr ?_
  split
  · next heq =>
    refine and_congr_right fun _ => and_congr_right fun _ => ?_
    dsimp only
    cases r.status <;> decide
  · next hne => exact ⟨fun h => absurd h.1 hne, fun h => absurd h.1 hne⟩

theorem newest_age_adr (f : Status → Status) :
    newest (fun r => r.adr = adr) (age f handle log) = newest (fun r => r.adr = adr) log := by
  rw [newest_age]
  refine newest_congr fun r _ => ?_
  split <;> rfl

/-- The older a write of a handle is, the further it has gone. -/
def Sorted (log : Log) : Prop := log.Pairwise fun r w => r.handle = w.handle → r.status.rank ≤ w.status.rank

theorem sorted_age {f : Status → Status} (hf : ∀ a b : Status, a.rank ≤ b.rank → (f a).rank ≤ (f b).rank) (h : Sorted log) :
    Sorted (age f handle log) := by
  refine pairwise_map.mpr (h.imp fun {r w} hrw heq => ?_)
  by_cases hr : r.handle = handle
  · by_cases hw : w.handle = handle
    · rw [if_pos hr, if_pos hw]
      exact hf _ _ (hrw (hr.trans hw.symm))
    · rw [if_pos hr, if_neg hw] at heq
      exact absurd (heq.symm.trans hr) hw
  · by_cases hw : w.handle = handle
    · rw [if_neg hr, if_pos hw] at heq
      exact absurd (heq.trans hw) hr
    · rw [if_neg hr, if_neg hw] at heq ⊢
      exact hrw heq

theorem age_handles {f : Status → Status} (h : ∀ r ∈ log, r.handle < rdmaNum) :
    ∀ r ∈ age f handle log, r.handle < rdmaNum := by
  intro r hr
  obtain ⟨w, hw, rfl⟩ := mem_map.mp hr
  have hlt := h w hw
  split <;> exact hlt

theorem age_id : age id handle log = log := by simp [age]

theorem next_mono (a b : Status) (h : a.rank ≤ b.rank) : a.next.rank ≤ b.next.rank := by
  cases a <;> cases b <;> revert h <;> decide

theorem lost_mono (a b : Status) (_ : a.rank ≤ b.rank) : (Status.lost a).rank ≤ (Status.lost b).rank := Nat.le_refl _

end Handles

/-! ## Conflicts -/

/-- The log says what the tables and the cache have. -/
structure Tracks (info : RdmaInfo) (log : Log) : Prop where
  pending : ∀ h adr, lastItem (info.ins h).regBuf adr (info.ins h).rdmaItemCount = newest (ofHandle h adr .pending) log
  submitted : ∀ h adr, lastItem (info.ins h).rdmaTableAddr adr (info.ins h).rdmaWriteCount = newest (ofHandle h adr .submitted) log
  sorted : Sorted log
  handles : ∀ r ∈ log, r.handle < rdmaNum
  -- the slip of the test for a free slot leaves all but the first one unused
  free : ∀ k, k ≠ 0 → info.adr k = 0
  cache : info.adr 0 ≠ 0 → newest (fun r => r.adr = info.adr 0) log = some (info.val 0)
  manual : (info.ins 0).rdmaTableSize = 0

section Conflicts
variable {info : RdmaInfo} {handle : Nat} {adr val : UInt32}

theorem conflictSlot_eq (hfree : ∀ k, k ≠ 0 → info.adr k = 0) (hadr : adr ≠ 0) :
    conflictSlot info adr = if info.adr 0 = adr then some 0 else none := by
  by_cases hzero : info.adr 0 = adr
  · rw [if_pos hzero, conflictSlot]
    show (0 :: (List.range 31).map Nat.succ).find? _ = _
    rw [find?_cons, decide_eq_true hzero]
  rw [if_neg hzero, conflictSlot, find?_eq_none]
  intro k _ hk
  replace hk := of_decide_eq_true hk
  by_cases h0 : k = 0
  · exact hzero (h0 ▸ hk)
  · exact hadr (hk.symm.trans (hfree k h0))

theorem conflictSlot_first (hfree : ∀ k, k ≠ 0 → info.adr k = 0) (hadr : adr ≠ 0) (hzero : info.adr 0 = adr) :
    conflictSlot info adr ≠ none := by
  rw [conflictSlot_eq hfree hadr, if_pos hzero]
  exact some_ne_none _

/-- A conflict goes into the first slot. -/
def firstSlot (adr word : UInt32) (info : RdmaInfo) : RdmaInfo :=
  { info with adr := setWord info.adr 0 adr, val := setWord info.val 0 word }

section Other
variable (hfree : ∀ k, k ≠ 0 → info.adr k = 0) (hmanual : (info.ins 0).rdmaTableSize = 0)
include hfree hmanual

theorem otherConflict_hit {i : Nat} (l : List Nat) (h : OtherHas handle adr info i) :
    ∃ word, otherConflict info handle adr (i :: l) = some (word, firstSlot adr word info) := by
  obtain ⟨hne, hsize, hitem⟩ := h
  have hcount : (info.ins i).rdmaItemCount ≠ 0 := by
    intro hzero
    rw [hzero] at hitem
    exact hitem rfl
  have hi : i ≠ 0 := fun h0 => hsize (h0 ▸ hmanual)
  have hslot : (List.range maxConflict).find? (fun _ => info.adr i = 0) = some 0 := by
    show (0 :: (List.range 31).map Nat.succ).find? _ = _
    rw [find?_cons, decide_eq_true (hfree i hi)]
  rw [otherConflict]
  rw [if_neg fun hskip => hskip.elim hsize fun hskip => hskip.elim hcount hne]
  cases hfind : (List.range (info.ins i).rdmaItemCount).find? (fun j => (info.ins i).regBuf (j * 2) = adr) with
  | none =>
    refine absurd (lastItem_none.mpr fun j hj heq => ?_) hitem
    exact find?_eq_none.mp hfind j (mem_range.mpr hj) (decide_eq_true heq)
  | some j =>
    rw [hslot]
    exact ⟨_, rfl⟩

omit hfree hmanual in
theorem otherConflict_miss {i : Nat} (l : List Nat) (h : ¬ OtherHas handle adr info i) :
    otherConflict info handle adr (i :: l) = otherConflict info handle adr l := by
  rw [otherConflict]
  split
  · rfl
  next hskip =>
  rw [not_or, not_or] at hskip
  have hnone : lastItem (info.ins i).regBuf adr (info.ins i).rdmaItemCount = none :=
    Classical.byContradiction fun hsome => h ⟨hskip.2.2, hskip.1, hsome⟩
  have hfind : (List.range (info.ins i).rdmaItemCount).find? (fun j => (info.ins i).regBuf (j * 2) = adr) = none := by
    rw [find?_eq_none]
    intro j hj heq
    exact lastItem_none.mp hnone j (mem_range.mp hj) (of_decide_eq_true heq)
  rw [hfind]

theorem otherConflict_cases (l : List Nat) :
    ((∃ i ∈ l, OtherHas handle adr info i) ∧ ∃ word, otherConflict info handle adr l = some (word, firstSlot adr word info)) ∨
    ((∀ i ∈ l, ¬ OtherHas handle adr info i) ∧ otherConflict info handle adr l = none) := by
  induction l with
  | nil => exact .inr ⟨fun i hi => absurd hi not_mem_nil, rfl⟩
  | cons i l ih =>
    by_cases hi : OtherHas handle adr info i
    · exact .inl ⟨⟨i, .head _, hi⟩, otherConflict_hit hfree hmanual l hi⟩
    rw [otherConflict_miss l hi]
    refine ih.imp (.imp_left fun ⟨j, hj, hhas⟩ => ⟨j, .tail _ hj, hhas⟩) (.imp_left fun hnone j hj => ?_)
    rcases mem_cons.mp hj with rfl | hj
    · exact hi
    · exact hnone j hj

theorem checkConflict_cases (hadr : adr ≠ 0) :
    (info.adr 0 = adr ∧ rdmaCheckConflict handle adr info = (some (info.val 0), info)) ∨
    (info.adr 0 ≠ adr ∧ (∃ i, i < rdmaNum ∧ OtherHas handle adr info i) ∧
      ∃ word, rdmaCheckConflict handle adr info = (some word, firstSlot adr word info)) ∨
    (¬ Conflict handle adr info ∧ rdmaCheckConflict handle adr info = (none, info)) := by
  have hslot := conflictSlot_eq hfree hadr
  rw [rdmaCheckConflict]
  by_cases hzero : info.adr 0 = adr
  · rw [hslot, if_pos hzero]
    exact .inl ⟨hzero, rfl⟩
  rw [if_neg hzero] at hslot
  rw [hslot]
  obtain ⟨⟨i, hi, hhas⟩, word, hother⟩ | ⟨hnone, hother⟩ := @otherConflict_cases info handle adr hfree hmanual (List.range rdmaNum)
  · rw [hother]
    exact .inr (.inl ⟨hzero, ⟨i, mem_range.mp hi, hhas⟩, word, rfl⟩)
  rw [hother]
  refine .inr (.inr ⟨?_, rfl⟩)
  rintro (hsome | ⟨i, hi, hhas⟩)
  · exact hsome hslot
  · exact hnone i (mem_range.mpr hi) hhas

end Other

/-- A written value is in the cache if the register is in conflict. -/
structure Noted (handle : Nat) (adr val : UInt32) (info info' : RdmaInfo) : Prop where
  ins : info'.ins = info.ins
  readHandle : info'.readHandle = info.readHandle
  free : ∀ k, k ≠ 0 → info'.adr k = 0
  conflict : Conflict handle adr info → info'.adr 0 = adr ∧ info'.val 0 = val
  apart : ¬ Conflict handle adr info → info'.adr = info.adr ∧ info'.val = info.val

/-- The check of a conflict and the update after it. -/
def noteConflict (handle : Nat) (adr val : UInt32) (info : RdmaInfo) : RdmaInfo :=
  if (rdmaCheckConflict handle adr info).1.isSome then rdmaUpdateConflict adr val (rdmaCheckConflict handle adr info).2
  else (rdmaCheckConflict handle adr info).2

theorem updateConflict_first (hfree : ∀ k, k ≠ 0 → info.adr k = 0) (hadr : adr ≠ 0) (hzero : info.adr 0 = adr) :
    rdmaUpdateConflict adr val info = { info with val := setWord info.val 0 val } := by
  rw [rdmaUpdateConflict, conflictSlot_eq hfree hadr, if_pos hzero]

theorem noteConflict_noted (hfree : ∀ k, k ≠ 0 → info.adr k = 0) (hmanual : (info.ins 0).rdmaTableSize = 0) (hadr : adr ≠ 0) :
    Noted handle adr val info (noteConflict handle adr val info) := by
  rw [noteConflict]
  obtain ⟨hzero, hcheck⟩ | ⟨hzero, hother, word, hcheck⟩ | ⟨hnone, hcheck⟩ :=
    @checkConflict_cases info handle adr hfree hmanual hadr
  · rw [hcheck]
    dsimp only [isSome_some]
    rw [if_pos rfl, updateConflict_first hfree hadr hzero]
    exact ⟨rfl, rfl, hfree, fun _ => ⟨hzero, rfl⟩, fun hnot => absurd (.inl (conflictSlot_first hfree hadr hzero)) hnot⟩
  · have hslots : ∀ k, k ≠ 0 → (firstSlot adr word info).adr k = 0 := fun k hk => (if_neg hk).trans (hfree k hk)
    rw [hcheck]
    dsimp only [isSome_some]
    rw [if_pos rfl, updateConflict_first hslots hadr rfl]
    exact ⟨rfl, rfl, hslots, fun _ => ⟨rfl, rfl⟩, fun hnot => absurd (.inr hother) hnot⟩
  · rw [hcheck]
    exact ⟨rfl, rfl, hfree, fun h => absurd h hnone, fun _ => ⟨rfl, rfl⟩⟩

end Conflicts

/-! ## Writes -/

/-- A write of a register, with or without the items that were in the tables. -/
structure Written (kept : Bool) (handle : Nat) (adr val : UInt32) (info info' : RdmaInfo) : Prop where
  others : ∀ g, g ≠ handle → info'.ins g = info.ins g
  size : (info'.ins handle).rdmaTableSize = (info.ins handle).rdmaTableSize
  items : ∀ a, lastItem (info'.ins handle).regBuf a (info'.ins handle).rdmaItemCount =
    if a = adr then some val else if kept then lastItem (info.ins handle).regBuf a (info.ins handle).rdmaItemCount else none
  table : ∀ a, lastItem (info'.ins handle).rdmaTableAddr a (info'.ins handle).rdmaWriteCount =
    if kept then lastItem (info.ins handle).rdmaTableAddr a (info.ins handle).rdmaWriteCount else none
  readHandle : info'.readHandle = info.readHandle
  free : ∀ k, k ≠ 0 → info'.adr k = 0
  conflict : Conflict handle adr info → info'.adr 0 = adr ∧ info'.val 0 = val
  apart : ¬ Conflict handle adr info → info'.adr = info.adr ∧ info'.val = info.val

section Writes
variable {info info' : RdmaInfo} {log : Log} {handle : Nat} {adr val : UInt32} {bits : Bool}

theorem Written.tracks {kept : Bool} (h : Written kept handle adr val info info') (ht : Tracks info log)
    (hhandle : handle < rdmaNum) : Tracks info' (logWrite handle adr val kept log) := by
  -- the older writes of the handle stay or go
  obtain ⟨f, hmono, hself, hlog⟩ : ∃ f : Status → Status, (∀ a b : Status, a.rank ≤ b.rank → (f a).rank ≤ (f b).rank) ∧
      (∀ a status, status ≠ .gone → newest (ofHandle handle a status) (age f handle log) =
        if kept then newest (ofHandle handle a status) log else none) ∧
      logWrite handle adr val kept log = ⟨handle, adr, val, .pending⟩ :: age f handle log := by
    cases kept with
    | true => exact ⟨id, fun _ _ hle => hle, fun _ _ _ => by rw [age_id]; rfl, by rw [age_id]; rfl⟩
    | false => exact ⟨.lost, lost_mono, fun _ _ hstatus => newest_lost hstatus, rfl⟩
  rw [hlog]
  refine ⟨fun g a => ?_, fun g a => ?_, ?_, ?_, h.free, fun hne => ?_, ?_⟩
  · rw [newest_cons]
    by_cases hg : g = handle
    · subst hg
      rw [h.items, hself _ _ (by decide)]
      by_cases ha : a = adr
      · rw [if_pos ha, if_pos (show ofHandle g a .pending ⟨g, adr, val, .pending⟩ = true from ofHandle_iff.mpr ⟨rfl, ha.symm, rfl⟩)]
      · rw [if_neg ha, if_neg fun hp => ha (ofHandle_iff.mp hp).2.1.symm, ht.pending]
    · rw [h.others g hg, if_neg fun hp => hg (ofHandle_iff.mp hp).1.symm, newest_age_other f hg, ht.pending]
  · rw [newest_cons, if_neg fun hp => nomatch (show Status.pending = .submitted from (ofHandle_iff.mp hp).2.2)]
    by_cases hg : g = handle
    · subst hg
      rw [h.table, hself _ _ (by decide), ht.submitted]
    · rw [h.others g hg, newest_age_other f hg, ht.submitted]
  · exact pairwise_cons.mpr ⟨fun w _ _ => Nat.zero_le _, sorted_age hmono ht.sorted⟩
  · exact forall_mem_cons.mpr ⟨hhandle, age_handles ht.handles⟩
  · rw [newest_cons, newest_age_adr]
    by_cases hconflict : Conflict handle adr info
    · obtain ⟨hzero, hval⟩ := h.conflict hconflict
      rw [if_pos (decide_eq_true hzero.symm), hval]
    obtain ⟨hsame, hval⟩ := h.apart hconflict
    rw [hsame] at hne ⊢
    rw [hval, if_neg ?_, ht.cache hne]
    intro heq
    replace heq : adr = info.adr 0 := of_decide_eq_true heq
    exact hconflict (.inl (conflictSlot_first ht.free (heq ▸ hne) heq.symm))
  · by_cases hg : handle = 0
    · rw [← hg, h.size, hg, ht.manual]
    · rw [h.others 0 (Ne.symm hg), ht.manual]

/-- A written value is read back unless an older one is in the way. -/
theorem Written.reads (h : Written (kept handle adr bits info) handle adr val info info') (hadr : adr ≠ 0) :
    ReadsBack handle adr val info' ↔ ¬ Stale handle adr val bits info := by
  have hslot := conflictSlot_eq h.free hadr
  have hitem := h.items adr
  rw [if_pos rfl] at hitem
  by_cases hconflict : Conflict handle adr info
  · obtain ⟨hzero, hval⟩ := h.conflict hconflict
    rw [if_pos hzero] at hslot
    have hread : ∀ hw, rdmaReadReg handle adr hw info' = (if kept handle adr bits info then
          lastItem (info.ins handle).rdmaTableAddr adr (info.ins handle).rdmaWriteCount else none).getD val := by
      intro hw
      rw [rdmaReadReg, hslot]
      dsimp only [isSome_some]
      rw [if_pos rfl, h.table]
      show getD _ (info'.val 0) = _
      rw [hval]
    rw [Stale, and_iff_right hconflict]
    cases hkept : kept handle adr bits info with
    | false =>
      refine ⟨fun _ hstale => absurd hstale.1 (by decide), fun _ hw => ?_⟩
      rw [hread, hkept]
      rfl
    | true =>
      rw [hkept, if_pos rfl] at hread
      cases hlast : lastItem (info.ins handle).rdmaTableAddr adr (info.ins handle).rdmaWriteCount with
      | none =>
        rw [hlast] at hread
        exact ⟨fun _ ⟨_, old, hold, _⟩ => absurd hold.symm (some_ne_none _), fun _ => hread⟩
      | some old =>
        rw [hlast] at hread
        refine ⟨fun hback ⟨_, _, heq, hne⟩ => hne ?_, fun hnot hw => (hread hw).trans ?_⟩
        · exact (Option.some.inj heq).symm.trans ((hread 0).symm.trans (hback 0))
        · exact Classical.byContradiction fun hne => hnot ⟨rfl, old, rfl, hne⟩
  · obtain ⟨hsame, _⟩ := h.apart hconflict
    have hnone : conflictSlot info' adr = none := by
      rw [conflictSlot, hsame]
      exact Classical.byContradiction fun hsome => hconflict (.inl hsome)
    refine ⟨fun _ hstale => hconflict hstale.1, fun _ hw => ?_⟩
    rw [rdmaReadReg, hnone]
    rw [if_neg (by decide), hitem]

theorem setIns_self (ins : RdmaInstance) : (info.setIns handle ins).ins handle = ins := if_pos rfl

theorem setIns_other {g : Nat} (ins : RdmaInstance) (hg : g ≠ handle) : (info.setIns handle ins).ins g = info.ins g := if_neg hg

variable {noted : RdmaInfo}

/-- A new item, in a table with room or in one that was emptied. -/
theorem Noted.written_append (h : Noted handle adr val info noted) :
    Written (hasRoom (info.ins handle)) handle adr val info (writeItem handle adr val noted) := by
  have hins : noted.ins handle = info.ins handle := congrFun h.ins handle
  rw [writeItem, hins]
  cases hroom : hasRoom (info.ins handle)
  -- both ways an item is behind those that are kept
  all_goals
    simp only [Bool.false_eq_true, reduceIte]
    refine { h with others := fun g hg => (setIns_other _ hg).trans (congrFun h.ins g), size := ?_, items := fun a => ?_, table := fun a => ?_ }
    all_goals rw [setIns_self]
    exacts [rfl, lastItem_append, rfl]

theorem Noted.written_replace {i : Nat} (h : Noted handle adr val info noted)
    (hfind : findItem (info.ins handle).regBuf adr (info.ins handle).rdmaItemCount = some i) :
    Written true handle adr val info (noted.setIns handle
      { info.ins handle with regBuf := setWord (info.ins handle).regBuf (i * 2 + 1) val }) := by
  refine { h with others := fun g hg => (setIns_other _ hg).trans (congrFun h.ins g), size := ?_, items := fun a => ?_, table := fun a => ?_ }
  · rw [setIns_self]
  · rw [setIns_self]
    exact lastItem_replace hfind
  · rw [setIns_self]
    rfl

theorem Noted.again (h : Noted handle adr val info noted) (hmanual : (info.ins 0).rdmaTableSize = 0) (hadr : adr ≠ 0) :
    Noted handle adr val info (noteConflict handle adr val noted) := by
  have hmanual' : (noted.ins 0).rdmaTableSize = 0 := by rw [h.ins]; exact hmanual
  have hagain := @noteConflict_noted noted handle adr val h.free hmanual' hadr
  have hsame : Conflict handle adr noted ↔ Conflict handle adr info := by
    by_cases hc : Conflict handle adr info
    · exact ⟨fun _ => hc, fun _ => .inl (conflictSlot_first h.free hadr (h.conflict hc).1)⟩
    · simp only [Conflict, OtherHas, conflictSlot, (h.apart hc).1, h.ins]
  refine ⟨hagain.ins.trans h.ins, hagain.readHandle.trans h.readHandle, hagain.free, fun hc => hagain.conflict (hsame.mpr hc), fun hc => ?_⟩
  obtain ⟨hadr1, hval1⟩ := hagain.apart (mt hsame.mp hc)
  obtain ⟨hadr2, hval2⟩ := h.apart hc
  exact ⟨hadr1.trans hadr2, hval1.trans hval2⟩

theorem writeReg_written (ht : Tracks info log) (hsize : (info.ins handle).rdmaTableSize ≠ 0) (hadr : adr ≠ 0) :
    Written (kept handle adr false info) handle adr val info (rdmaWriteReg handle adr val info).2 := by
  rw [rdmaWriteReg, if_neg hsize]
  exact (noteConflict_noted ht.free ht.manual hadr).written_append

theorem checkConflict_ins (ht : Tracks info log) (hadr : adr ≠ 0) : (rdmaCheckConflict handle adr info).2.ins = info.ins := by
  obtain ⟨_, hcheck⟩ | ⟨_, _, word, hcheck⟩ | ⟨_, hcheck⟩ := @checkConflict_cases info handle adr ht.free ht.manual hadr
  · rw [hcheck]
  · rw [hcheck]
    rfl
  · rw [hcheck]

/-- The value that `rdma_write_reg_bits` writes. -/
def bitsVal (handle : Nat) (adr val : UInt32) (start len : Nat) (hw : UInt32) (info : RdmaInfo) : UInt32 :=
  replaceBits (bitsReadVal (rdmaCheckConflict handle adr info).1 (info.ins handle) adr hw) val start len

section
variable (ht : Tracks info log)
include ht

theorem writeRegBits_eq (hsize : (info.ins handle).rdmaTableSize ≠ 0) (hadr : adr ≠ 0) (start len : Nat)
    (hw : UInt32) : rdmaWriteRegBits handle adr val start len hw info = ((0, bitsVal handle adr val start len hw info),
        match findItem (info.ins handle).regBuf adr (info.ins handle).rdmaItemCount with
        | some i => (noteConflict handle adr (bitsVal handle adr val start len hw info) info).setIns handle
            { info.ins handle with
              regBuf := setWord (info.ins handle).regBuf (i * 2 + 1) (bitsVal handle adr val start len hw info) }
        | none => (rdmaWriteReg handle adr (bitsVal handle adr val start len hw info)
            (noteConflict handle adr (bitsVal handle adr val start len hw info) info)).2) := by
  have hins := congrFun (@checkConflict_ins info log handle adr ht hadr) handle
  rw [rdmaWriteRegBits, if_neg hsize]
  dsimp only
  rw [hins]
  cases findItem (info.ins handle).regBuf adr (info.ins handle).rdmaItemCount with
  | none => rfl
  | some i => rfl

theorem writeRegBits_written (hsize : (info.ins handle).rdmaTableSize ≠ 0) (hadr : adr ≠ 0)
    (start len : Nat) (hw : UInt32) :
    Written (kept handle adr true info) handle adr (rdmaWriteRegBits handle adr val start len hw info).1.2 info
      (rdmaWriteRegBits handle adr val start len hw info).2 := by
  rw [writeRegBits_eq ht hsize hadr]
  have hnoted := @noteConflict_noted info handle adr (bitsVal handle adr val start len hw info) ht.free ht.manual hadr
  cases hfind : findItem (info.ins handle).regBuf adr (info.ins handle).rdmaItemCount with
  | some i =>
    have hkept : kept handle adr true info = true := by
      rw [kept, hfind]
      rfl
    rw [hkept]
    exact hnoted.written_replace hfind
  | none =>
    have hkept : kept handle adr true info = hasRoom (info.ins handle) := by
      rw [kept, hfind]
      rfl
    rw [hkept, rdmaWriteReg, if_neg (by rw [hnoted.ins]; exact hsize)]
    exact (hnoted.again ht.manual hadr).written_append

theorem gone_newest {r : WriteRec} (hfind : log.find? (fun r => r.handle = handle ∧ r.adr = adr) = some r)
    (hgone : r.status = .gone) : newest (ofHandle handle adr .submitted) log = none := by
  obtain ⟨hr, front, behind, hlog, hfront⟩ := find?_eq_some_iff_append.mp hfind
  have hhandle := (of_decide_eq_true hr).1
  refine newest_none fun w hw => decide_eq_false fun h => ?_
  rw [hlog, mem_append, mem_cons] at hw
  rcases hw with hw | rfl | hw
  · have hnot := hfront w hw
    rw [decide_eq_true (show w.handle = handle ∧ w.adr = adr from ⟨h.1, h.2.1⟩)] at hnot
    exact nomatch hnot
  · rw [hgone] at h
    exact nomatch h.2.2
  have hsorted := ht.sorted
  rw [Sorted, hlog, pairwise_append] at hsorted
  have hle := (pairwise_cons.mp hsorted.2.1).1 w hw (hhandle.trans h.1.symm)
  rw [hgone, h.2.2] at hle
  exact nomatch hle

theorem pending_own
    (hothers : ∀ i, i < rdmaNum → i ≠ handle → lastItem (info.ins i).regBuf adr (info.ins i).rdmaItemCount = none) :
    newest (fun r => r.adr = adr ∧ r.status = .pending) log = newest (ofHandle handle adr .pending) log := by
  refine newest_congr fun r hr => decide_eq_decide.mpr ⟨fun h => ⟨?_, h⟩, .right⟩
  by_contra hne
  have hnone := hothers r.handle (ht.handles r hr) hne
  rw [ht.pending, newest, map_eq_none_iff, find?_eq_none] at hnone
  exact hnone r hr (ofHandle_iff.mpr ⟨rfl, h⟩)

/-- The value whose bits are replaced is the one that was written last. -/
theorem known_readVal (hadr : adr ≠ 0) {hw : UInt32} (hknown : Known handle adr hw info log) :
    bitsReadVal (rdmaCheckConflict handle adr info).1 (info.ins handle) adr hw = lastWritten handle adr hw log := by
  rw [Known, conflictSlot_eq ht.free hadr] at hknown
  obtain ⟨hzero, hcheck⟩ | ⟨hzero, ⟨i, hi, hother⟩, _⟩ | ⟨hnone, hcheck⟩ := @checkConflict_cases info handle adr ht.free ht.manual hadr
  · -- the cache has the last write of all
    rw [if_pos hzero, if_neg nofun] at hknown
    have hcache := ht.cache (hzero.trans_ne hadr)
    rw [hzero] at hcache
    obtain ⟨r, hfind, hval⟩ := Option.map_eq_some_iff.mp hcache
    have hr := find?_some hfind
    replace hr := of_decide_eq_true hr
    rw [hcheck]
    rw [lastWritten, ← hval]
    rcases hknown r hfind with hpending | ⟨hhandle, hnone⟩
    · rw [newest, find_and hfind (decide_eq_true ⟨hr, hpending⟩) fun w hw => decide_eq_true (of_decide_eq_true hw).1]
      rfl
    have hown : log.find? (fun r => r.handle = handle ∧ r.adr = adr) = some r :=
      find_and hfind (decide_eq_true ⟨hhandle, hr⟩) fun w hw => decide_eq_true (of_decide_eq_true hw).2
    rw [newest_none fun w hw => decide_eq_false fun h => hnone w hw h.1 h.2, newest, hown]
    rfl
  · rw [if_neg hzero, if_pos rfl] at hknown
    exact absurd (hknown.1 i hi hother.1) hother.2.2
  · have hzero : info.adr 0 ≠ adr := fun heq => hnone (.inl (conflictSlot_first ht.free hadr heq))
    rw [if_neg hzero, if_pos rfl] at hknown
    rw [hcheck, lastWritten, pending_own ht hknown.1]
    show getD (Option.or _ _) hw = _
    rw [ht.pending, ht.submitted]
    cases hpending : newest (ofHandle handle adr .pending) log with
    | some word => rfl
    | none =>
      cases hfind : log.find? (fun r => r.handle = handle ∧ r.adr = adr) with
      | none =>
        have hsubmitted : newest (ofHandle handle adr .submitted) log = none := newest_none fun r hr =>
          decide_eq_false fun h => find?_eq_none.mp hfind r hr (decide_eq_true ⟨h.1, h.2.1⟩)
        have hany : newest (fun r => r.handle = handle ∧ r.adr = adr) log = none := by
          rw [newest, hfind]
          rfl
        rw [hsubmitted, hany]
      | some r =>
        have hr := find?_some hfind
        replace hr := of_decide_eq_true hr
        have hlast : newest (fun r => r.handle = handle ∧ r.adr = adr) log = some r.val := by
          rw [newest, hfind]
          rfl
        rw [hlast]
        have himp : ∀ status w, ofHandle handle adr status w = true → decide (w.handle = handle ∧ w.adr = adr) = true :=
          fun status w hw => decide_eq_true ⟨(ofHandle_iff.mp hw).1, (ofHandle_iff.mp hw).2.1⟩
        cases hstatus : r.status with
        | pending =>
          rw [newest, find_and hfind (ofHandle_iff.mpr ⟨hr.1, hr.2, hstatus⟩) (himp _)] at hpending
          cases hpending
        | submitted =>
          rw [newest, find_and hfind (ofHandle_iff.mpr ⟨hr.1, hr.2, hstatus⟩) (himp _)]
          rfl
        | gone =>
          rw [gone_newest ht hfind hstatus, hknown.2 r hfind hstatus]
          rfl

end

end Writes

/-! ## Bits -/

theorem mask_toNat {start len : Nat} (h : start + len ≤ 32) :
    ((((1 : UInt64) <<< UInt64.ofNat len) - 1) <<< UInt64.ofNat start).toNat = (2 ^ len - 1) * 2 ^ start := by
  have hlen : 2 ^ len ≤ 2 ^ 32 := Nat.pow_le_pow_right (by decide) (by omega)
  have hone : ((1 : UInt64) <<< UInt64.ofNat len).toNat = 2 ^ len := by
    rw [UInt64.toNat_shiftLeft, UInt64.toNat_ofNat_of_lt' (by rw [UInt64.size]; omega), Nat.mod_eq_of_lt (by omega : len < 64),
      Nat.shiftLeft_eq]
    show 1 * 2 ^ len % 2 ^ 64 = 2 ^ len
    rw [Nat.one_mul, Nat.mod_eq_of_lt (by omega)]
  have hpos : 0 < 2 ^ len := Nat.two_pow_pos len
  have hsub : (((1 : UInt64) <<< UInt64.ofNat len) - 1).toNat = 2 ^ len - 1 := by
    rw [UInt64.toNat_sub_of_le _ _ (UInt64.le_iff_toNat_le.mpr (by rw [hone]; exact hpos)), hone]
    rfl
  have hprod : 2 ^ len * 2 ^ start ≤ 2 ^ 32 := by
    rw [← Nat.pow_add]
    exact Nat.pow_le_pow_right (by decide) (by omega)
  rw [UInt64.toNat_shiftLeft, hsub, UInt64.toNat_ofNat_of_lt' (by rw [UInt64.size]; omega), Nat.mod_eq_of_lt (by omega : start < 64),
    Nat.shiftLeft_eq, Nat.mod_eq_of_lt]
  have : (2 ^ len - 1) * 2 ^ start ≤ 2 ^ len * 2 ^ start := Nat.mul_le_mul_right _ (Nat.sub_le _ _)
  omega

theorem mask_testBit (start len i : Nat) : ((2 ^ len - 1) * 2 ^ start).testBit i = decide (start ≤ i ∧ i < start + len) := by
  rw [Nat.testBit_mul_two_pow, Nat.testBit_two_pow_sub_one, Bool.decide_and]
  by_cases hle : start ≤ i
  · congr 1
    exact decide_eq_decide.mpr (by omega)
  · rw [decide_eq_false hle, Bool.false_and, Bool.false_and]

theorem replaceBits_replaced {old val : UInt32} {start len : Nat} (hstart : start < 32) (h : start + len ≤ 32)
    (hval : val.toNat < 2 ^ len) : BitsReplaced old val start len (replaceBits old val start len) := by
  intro i hi
  have hmask := mask_toNat h
  rw [replaceBits]
  rw [UInt32.toNat_or, Nat.testBit_or, UInt64.toNat_toUInt32, Nat.testBit_mod_two_pow, decide_eq_true hi, Bool.true_and, UInt64.toNat_and,
    Nat.testBit_and, UInt32.toNat_toUInt64, UInt64.toNat_not, UInt32.toNat_shiftLeft, Nat.testBit_mod_two_pow, decide_eq_true hi, Bool.true_and]
  have hlt : (2 ^ len - 1) * 2 ^ start < 2 ^ 64 := hmask ▸ UInt64.toNat_lt _
  have hnot : UInt64.size - 1 - (2 ^ len - 1) * 2 ^ start = 2 ^ 64 - ((2 ^ len - 1) * 2 ^ start + 1) := by
    rw [UInt64.size]
    omega
  have hshift : (ofNat start).toNat % 32 = start := by
    rw [UInt32.toNat_ofNat_of_lt' (by rw [size]; omega), Nat.mod_eq_of_lt hstart]
  rw [hmask, hnot, Nat.testBit_two_pow_sub_succ hlt, mask_testBit, hshift, Nat.testBit_shiftLeft, decide_eq_true (by omega : i < 64),
    Bool.true_and]
  by_cases hin : start ≤ i ∧ i < start + len
  · rw [if_pos hin, decide_eq_true hin, decide_eq_true hin.1, Bool.not_true, Bool.and_false, Bool.false_or, Bool.true_and]
  rw [if_neg hin, decide_eq_false hin, Bool.not_false, Bool.and_true]
  by_cases hle : start ≤ i
  · have hhigh : val.toNat.testBit (i - start) = false :=
      Nat.testBit_lt_two_pow (Nat.lt_of_lt_of_le hval (Nat.pow_le_pow_right (by decide) (by omega)))
    rw [hhigh, Bool.and_false, Bool.or_false]
  · rw [decide_eq_false hle, Bool.false_and, Bool.or_false]

/-! ## Submissions -/

section Submissions
variable {info : RdmaInfo} {log : Log} {handle : Nat} {trigger : UInt32}

theorem plain_trigger (h : trigger ≤ 0x102) : trigger &&& rdmaReadMask = 0 ∧ trigger &&& rdmaAutoStartMask = 0 ∧
    trigger &&& ~~~rdmaReadMask = trigger ∧ trigger &&& ~~~rdmaAutoStartMask = trigger := by
  have hall : ∀ n, n < 259 → ofNat n &&& rdmaReadMask = 0 ∧ ofNat n &&& rdmaAutoStartMask = 0 ∧
      ofNat n &&& ~~~rdmaReadMask = ofNat n ∧ ofNat n &&& ~~~rdmaAutoStartMask = ofNat n := by
    decide +kernel
  have hlt := hall trigger.toNat (Nat.lt_succ_of_le (UInt32.le_iff_toNat_le.mp h))
  rwa [ofNat_toNat] at hlt

theorem submit_table (h : trigger ≤ 0x102) (hpos : trigger ≠ 0) (ins : RdmaInstance) (a : UInt32) :
    lastItem (submit false trigger ins).1.rdmaTableAddr a (submit false trigger ins).1.rdmaWriteCount =
      if Submits trigger then lastItem ins.regBuf a ins.rdmaItemCount else none := by
  rw [submit]
  by_cases hsubmits : 0 < trigger ∧ trigger ≤ rdmaTriggerManual
  · rw [if_pos hsubmits, if_pos (show Submits trigger from hsubmits)]
    exact lastItem_congr fun j hj => if_pos hj
  rw [if_neg hsubmits, if_neg (show ¬ Submits trigger from hsubmits)]
  by_cases h1 : trigger = 0x101
  · rw [if_pos h1]
    rfl
  rw [if_neg h1]
  by_cases h2 : trigger = 0x102
  · rw [if_pos h2]
    rfl
  exfalso
  have hall : ∀ n, n < 259 → ofNat n ≠ 0 → ¬ (0 < ofNat n ∧ ofNat n ≤ rdmaTriggerManual) →
      ofNat n ≠ 0x101 → ofNat n = 0x102 := by
    decide +kernel
  have hlt := hall trigger.toNat (Nat.lt_succ_of_le (UInt32.le_iff_toNat_le.mp h))
  rw [ofNat_toNat] at hlt
  exact h2 (hlt hpos hsubmits h1)

theorem submit_size (rdmaRead : Bool) (ins : RdmaInstance) :
    (submit rdmaRead trigger ins).1.rdmaTableSize = ins.rdmaTableSize := by
  rw [submit]
  split
  · rfl
  · split
    · rfl
    · split <;> rfl

theorem not_submits_auto (h : trigger &&& rdmaAutoStartMask ≠ 0) : ¬ Submits trigger := by
  intro hsubmits
  have hle : trigger ≤ 0x102 := UInt32.le_trans hsubmits.2 (by decide)
  exact h (plain_trigger hle).2.1

/-- What a submission leaves of the tables of its handle. -/
theorem config_run (hhandle : ¬ (handle = 0 ∨ handle ≥ rdmaNum ∨ (info.ins handle).op = false)) (hread : handle ≠ info.readHandle)
    (hrange : trigger ≤ 0x102 ∨ trigger &&& rdmaReadMask = 0 ∧ trigger &&& rdmaAutoStartMask ≠ 0) :
    ∃ ins' vcbus, (rdmaConfig handle trigger info).2 = { info.setIns handle ins' with vcbus } ∧
      ins'.rdmaTableSize = (info.ins handle).rdmaTableSize ∧ ins'.rdmaItemCount = 0 ∧
      ∀ a, lastItem ins'.rdmaTableAddr a ins'.rdmaWriteCount =
        if Submits trigger then lastItem (info.ins handle).regBuf a (info.ins handle).rdmaItemCount else none := by
  rw [not_or, not_or] at hhandle
  rw [rdmaConfig, if_neg fun h => h.elim hhandle.1 hhandle.2.1, Bool.eq_true_of_not_eq_false hhandle.2.2, if_neg (by decide)]
  dsimp only
  rw [if_pos hread]
  rcases hrange with hplain | ⟨hnoread, hauto⟩
  · obtain ⟨hread0, hauto0, hclear, hclear'⟩ := plain_trigger hplain
    rw [hclear, hclear', hread0, hauto0, if_neg fun h => h rfl]
    by_cases hempty : (info.ins handle).rdmaItemCount = 0 ∨ trigger = 0
    · rw [if_pos hempty]
      refine ⟨_, _, rfl, rfl, rfl, fun a => ?_⟩
      rcases hempty with hzero | htrigger
      · rw [hzero, lastItem_zero]
        exact (ite_self _).symm
      · rw [if_neg (show ¬ Submits trigger from htrigger ▸ by decide)]
        rfl
    · rw [if_neg hempty]
      refine ⟨_, _, rfl, submit_size _ _, rfl, fun a => ?_⟩
      exact submit_table hplain (fun h => hempty (.inr h)) _ a
  · have hclear : trigger &&& ~~~rdmaReadMask &&& rdmaAutoStartMask ≠ 0 := by
      rw [UInt32.and_assoc, show ~~~rdmaReadMask &&& rdmaAutoStartMask = rdmaAutoStartMask from by decide]
      exact hauto
    rw [if_pos hclear]
    refine ⟨_, _, rfl, rfl, rfl, fun a => ?_⟩
    rw [if_neg (not_submits_auto hauto)]
    rfl

/-- A table of the writes that were pending, or of none. -/
theorem age_tracks {f : Status → Status} {ins' : RdmaInstance} {vcbus : List (UInt32 × UInt32)} (ht : Tracks info log)
    (hf : ∀ a b : Status, a.rank ≤ b.rank → (f a).rank ≤ (f b).rank) (hsize : ins'.rdmaTableSize = (info.ins handle).rdmaTableSize)
    (hpending : ∀ a, lastItem ins'.regBuf a ins'.rdmaItemCount = newest (ofHandle handle a .pending) (age f handle log))
    (hsubmitted : ∀ a, lastItem ins'.rdmaTableAddr a ins'.rdmaWriteCount = newest (ofHandle handle a .submitted) (age f handle log)) :
    Tracks { info.setIns handle ins' with vcbus } (age f handle log) := by
  have hself : ({ info.setIns handle ins' with vcbus } : RdmaInfo).ins handle = ins' := setIns_self _
  have hother : ∀ h ≠ handle, ({ info.setIns handle ins' with vcbus } : RdmaInfo).ins h = info.ins h := fun _ hh =>
    setIns_other _ hh
  refine ⟨fun h a => ?_, fun h a => ?_, sorted_age hf ht.sorted, age_handles ht.handles, ht.free, fun hadr => ?_, ?_⟩
  · by_cases hh : h = handle
    · rw [hh, ← hpending, hself]
    · rw [hother h hh, newest_age_other f hh]
      exact ht.pending h a
  · by_cases hh : h = handle
    · rw [hh, ← hsubmitted, hself]
    · rw [hother h hh, newest_age_other f hh]
      exact ht.submitted h a
  · rw [newest_age_adr]
    exact ht.cache hadr
  · by_cases hzero : handle = 0
    · rw [← hzero, hself, hsize, hzero]
      exact ht.manual
    · rw [hother 0 (.symm hzero)]
      exact ht.manual

theorem config_tracks (ht : Tracks info log) (hok : (Op.config handle trigger).InRange info.readHandle) :
    Tracks (rdmaConfig handle trigger info).2 ((Op.config handle trigger).log info log) ∧
      (rdmaConfig handle trigger info).2.readHandle = info.readHandle := by
  rw [Op.log]
  by_cases hhandle : handle = 0 ∨ handle ≥ rdmaNum ∨ (info.ins handle).op = false
  · rw [if_pos hhandle]
    have hsame : (rdmaConfig handle trigger info).2 = info := by
      rw [rdmaConfig]
      by_cases hbad : handle = 0 ∨ handle ≥ rdmaNum
      · rw [if_pos hbad]
      · have hop : (info.ins handle).op = false := hhandle.elim (fun h => absurd (.inl h) hbad) fun h => h.resolve_left fun h => hbad (.inr h)
        rw [if_neg hbad, hop, if_pos (by decide)]
    rw [hsame]
    exact ⟨ht, rfl⟩
  · rw [if_neg hhandle]
    obtain ⟨ins', vcbus, hrun, hsize, hitems, htable⟩ := config_run hhandle hok.1 hok.2
    rw [hrun]
    refine ⟨?_, rfl⟩
    by_cases hsubmits : Submits trigger
    · rw [if_pos hsubmits]
      refine age_tracks ht next_mono hsize (fun a => ?_) fun a => ?_
      · rw [hitems, lastItem_zero, newest_age_none next_ne_pending]
      · rw [htable, if_pos hsubmits, newest_next_submitted]
        exact ht.pending handle a
    · rw [if_neg hsubmits]
      refine age_tracks ht lost_mono hsize (fun a => ?_) fun a => ?_
      · rw [hitems, lastItem_zero, newest_lost (by decide)]
      · rw [htable, if_neg hsubmits, newest_lost (by decide)]

end Submissions

/-! ## Runs -/

/-- Before the first call: empty tables and no conflict; the handle for manual use has no table. -/
structure Boot (info : RdmaInfo) : Prop where
  items : ∀ h, (info.ins h).rdmaItemCount = 0
  table : ∀ h, (info.ins h).rdmaWriteCount = 0
  adr : ∀ k, info.adr k = 0
  manual : (info.ins 0).rdmaTableSize = 0

theorem Boot.tracks {info : RdmaInfo} (h : Boot info) : Tracks info [] := by
  refine ⟨fun g a => ?_, fun g a => ?_, List.Pairwise.nil, fun r hr => absurd hr not_mem_nil, fun k _ => h.adr k,
    fun hadr => absurd (h.adr 0) hadr, h.manual⟩
  · rw [h.items]
    rfl
  · rw [h.table]
    rfl

section Runs
variable {info : RdmaInfo} {log : Log} {op : Op} {ops : List Op} {readHandle : Nat}

theorem exec_tracks (ht : Tracks info log) (hok : op.InRange info.readHandle) :
    Tracks (op.exec info) (op.log info log) ∧ (op.exec info).readHandle = info.readHandle := by
  cases op with
  | writeReg handle adr val =>
    rw [Op.exec, Op.log]
    by_cases hsize : (info.ins handle).rdmaTableSize = 0
    · rw [if_pos hsize, rdmaWriteReg, if_pos hsize]
      exact ⟨ht, rfl⟩
    · rw [if_neg hsize]
      have hwritten := @writeReg_written info log handle adr val ht hsize hok.2.2
      exact ⟨hwritten.tracks ht hok.1, hwritten.readHandle⟩
  | writeRegBits handle adr val start len hw =>
    rw [Op.exec, Op.log]
    by_cases hsize : (info.ins handle).rdmaTableSize = 0
    · rw [if_pos hsize, rdmaWriteRegBits, if_pos hsize]
      exact ⟨ht, rfl⟩
    · rw [if_neg hsize]
      have hwritten := @writeRegBits_written info log handle adr val ht hsize hok.2.2.1 start len hw
      exact ⟨hwritten.tracks ht hok.1, hwritten.readHandle⟩
  | config handle trigger => exact config_tracks ht hok
  | readReg handle adr hw => exact ⟨ht, rfl⟩

theorem opOk_of_tracks (ht : Tracks info log) (hok : op.InRange info.readHandle) : OpOk op info log := by
  cases op with
  | writeReg handle adr val =>
    intro hsize
    exact (writeReg_written ht hsize hok.2.2).reads hok.2.2
  | writeRegBits handle adr val start len hw =>
    intro hsize
    obtain ⟨_, _, hadr, hstart, hlen, hval⟩ := hok
    refine ⟨fun hknown => ?_, (writeRegBits_written ht hsize hadr start len hw).reads hadr⟩
    rw [writeRegBits_eq ht hsize hadr]
    rw [bitsVal, known_readVal ht hadr hknown]
    exact replaceBits_replaced hstart hlen hval
  | config handle trigger | readReg handle adr hw => trivial

theorem runOk_of_tracks (ht : Tracks info log) (hok : ∀ op ∈ ops, op.InRange info.readHandle) : RunOk ops info log := by
  induction ops generalizing info log with
  | nil => trivial
  | cons op ops ih =>
    have hop := hok op mem_cons_self
    obtain ⟨hnext, hread⟩ := exec_tracks ht hop
    refine ⟨opOk_of_tracks ht hop, ih hnext fun w hw => ?_⟩
    rw [hread]
    exact hok w (.tail _ hw)

/-- In every sequence of calls, every write is read back exactly unless it is stale, and the
bits of a register are replaced in the value that was written last, where that is known. -/
theorem written_value_reads_back (hboot : Boot info) (hok : ∀ op ∈ ops, op.InRange info.readHandle) : RunOk ops info [] :=
  runOk_of_tracks hboot.tracks hok

end Runs

/-! ## A register of two handles -/

/-- Two handles with tables of 4096 bytes; the third is the one for reads. -/
def twoHandles : RdmaInfo where
  ins h := if h = 1 ∨ h = 2 then ⟨true, 4096, 0, 0, fun _ => 0, fun _ => 0⟩ else ⟨false, 0, 0, 0, fun _ => 0, fun _ => 0⟩
  adr _ := 0
  val _ := 0
  readHandle := 3
  vcbus := []

theorem twoHandles_boot : Boot twoHandles := by
  refine ⟨fun h => ?_, fun h => ?_, fun _ => rfl, rfl⟩
  · show (if h = 1 ∨ h = 2 then _ else _ : RdmaInstance).rdmaItemCount = 0
    split <;> rfl
  · show (if h = 1 ∨ h = 2 then _ else _ : RdmaInstance).rdmaWriteCount = 0
    split <;> rfl

def sharedRegister : List Op :=
  [.writeReg 1 0x1d00 1, .config 1 1, .writeReg 2 0x1d00 2, .writeRegBits 1 0x1d00 3 4 2 0]

theorem shared_register_runs : RunOk sharedRegister twoHandles [] :=
  written_value_reads_back twoHandles_boot fun op hop => by
    rcases hop with _ | ⟨_, _ | ⟨_, _ | ⟨_, _ | ⟨_, hop⟩⟩⟩⟩
    · exact ⟨by decide, by decide, by decide⟩
    · exact ⟨by decide, .inl (by decide)⟩
    · exact ⟨by decide, by decide, by decide⟩
    · exact ⟨by decide, by decide, by decide, by decide, by decide, by decide⟩
    · exact nomatch hop

/-- After a submission and a write of another handle, a write reads back as the submitted value. -/
theorem submitted_value_hides_the_write :
    rdmaReadReg 1 0x1d00 0 ([.writeReg 1 0x1d00 1, .config 1 1, .writeReg 2 0x1d00 2, .writeReg 1 0x1d00 3].foldl
      (fun info op => Op.exec op info) twoHandles) = 1 := by
  decide +kernel

end AmlogicV901d.Guarantees.RdmaViews
