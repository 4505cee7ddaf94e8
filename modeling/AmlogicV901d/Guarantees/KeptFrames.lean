import AmlogicV901d.Lib.SignedWord
import AmlogicV901d.Source.CodecMm.Keeper

/-!
# Kept frames

Runs of the keeper beside the masks that are outstanding. As long as no handle is masked
while it is listed, the keeper holds one reference to every listed handle, lists every
handle with an outstanding mask, and a monitor pass after the last delay releases the
others.
-/
namespace AmlogicV901d.Guarantees.KeptFrames
open Lib.SignedWord Source.Keeper List

variable {handle i force : Nat} {info : KeepMemInfo} {type : MemType}

/-! ## Runs -/

/-- The monitor runs with `force` 0, and with 2 when memory is short. -/
inductive KeeperOp
  | mask (shared : Nat) (memHandle : Option Nat) (type : MemType)
  | unmask (now : UInt64) (hz keepId delayms : Int)
  | monitor (now : Nat → UInt64)
  | freeIdle (now : Nat → UInt64)

/-- The masks that were not unmasked yet, by handle and returned id, and the end of the last
delay of every id. -/
structure Masks where
  outstanding : List (Nat × Int)
  due : Int → UInt64

structure World where
  mgr : KeeperMgr
  masks : Masks

def Masks.add (masks : Masks) (handle : Nat) (keepId : Int) : Masks :=
  { masks with outstanding := (handle, keepId) :: masks.outstanding }

def noteMask (memHandle : Option Nat) (ret : Int) (masks : Masks) : Masks :=
  match memHandle with
  | none => masks
  | some handle => if ret < 0 then masks else masks.add handle ret

def noteUnmask (keepId : Int) (delay : UInt64) (masks : Masks) : Masks where
  outstanding := masks.outstanding.eraseP (·.2 = keepId)
  due id := if id = keepId then delay else masks.due id

def KeeperOp.exec : KeeperOp → World → World
  | .mask shared memHandle type, w =>
    let r := codecMmKeeperMaskKeepMem shared memHandle type w.mgr
    ⟨r.2, noteMask memHandle r.1 w.masks⟩
  | .unmask now hz keepId delayms, w =>
    let r := codecMmKeeperUnmaskKeeper now hz keepId delayms w.mgr
    ⟨r.2, if r.1 < 0 then w.masks else noteUnmask keepId (delayOn now hz delayms) w.masks⟩
  | .monitor now, w => { w with mgr := codecMmKeeperFreeAllKeep 0 now w.mgr }
  | .freeIdle now, w => { w with mgr := codecMmKeeperFreeAllKeep 2 now w.mgr }

def run (ops : List KeeperOp) (w : World) : World := ops.foldl (fun w op => op.exec w) w

def initial : World := ⟨codecMmKeeperMgrInit, ⟨[], fun _ => 0⟩⟩

/-! ## What is promised -/

def Listed (mgr : KeeperMgr) (handle : Nat) : Prop := ∃ info ∈ mgr.keepList, info.handle = some handle

instance (mgr : KeeperMgr) (handle : Nat) : Decidable (Listed mgr handle) :=
  inferInstanceAs (Decidable (∃ info ∈ mgr.keepList, _))

structure KeptAlive (w : World) : Prop where
  refs : ∀ handle, w.mgr.refs handle = if Listed w.mgr handle then 1 else 0
  alive : ∀ mask ∈ w.masks.outstanding, Listed w.mgr mask.1
  monitored : ∀ info ∈ w.mgr.keepList, ∀ handle, info.handle = some handle →
    (∀ mask ∈ w.masks.outstanding, mask.1 ≠ handle) → ∀ now, (∀ i, timeAfter64 (now i) (w.masks.due info.keepId) = true) →
    ¬ Listed (codecMmKeeperFreeAllKeep 0 now w.mgr) handle
  freedIdle : ∀ info ∈ w.mgr.keepList, ∀ handle, info.handle = some handle →
    (∀ mask ∈ w.masks.outstanding, mask.1 ≠ handle) → ∀ now, ¬ Listed (codecMmKeeperFreeAllKeep 2 now w.mgr) handle

/-- A handle is masked only while it is not listed, with an id that no entry has; the users of
an entry do not run below the smallest integer. -/
def Careful (mgr : KeeperMgr) : KeeperOp → Prop
  | .mask _ memHandle _ => (∀ handle ∈ memHandle, ¬ Listed mgr handle) ∧ ∀ info ∈ mgr.keepList, info.keepId ≠ mgr.nextId
  | .unmask _ _ keepId _ => ∀ info ∈ mgr.keepList, info.keepId = keepId → info.user ≠ Int32.minValue
  | .monitor _ => True
  | .freeIdle _ => True

instance (mgr : KeeperMgr) : (op : KeeperOp) → Decidable (Careful mgr op)
  | .mask _ memHandle _ => inferInstanceAs (Decidable ((∀ handle ∈ memHandle, ¬ Listed mgr handle) ∧ ∀ _ ∈ _, _))
  | .unmask _ _ _ _ => inferInstanceAs (Decidable (∀ _ ∈ _, _ → _))
  | .monitor _ => instDecidableTrue
  | .freeIdle _ => instDecidableTrue

def CarefulRun : List KeeperOp → World → Prop
  | [], _ => True
  | op :: ops, w => Careful w.mgr op ∧ CarefulRun ops (op.exec w)

/-! ## The invariant -/

/-- The masks of a handle. -/
def Masks.of (masks : Masks) (handle : Nat) : List (Nat × Int) := masks.outstanding.filter (·.1 = handle)

theorem of_add_self (masks : Masks) (handle : Nat) (keepId : Int) :
    (masks.add handle keepId).of handle = (handle, keepId) :: masks.of handle :=
  filter_cons_of_pos (p := fun mask : Nat × Int => mask.1 = handle) (decide_eq_true rfl)

theorem of_add_ne (masks : Masks) {b : Nat} (keepId : Int) (h : b ≠ handle) :
    (masks.add handle keepId).of b = masks.of b :=
  filter_cons_of_neg (p := fun mask : Nat × Int => mask.1 = b) (by simpa using h.symm)

/-- The users of a listed entry: one mask and nothing else, or none any more. -/
def UsersMatch (masks : Masks) (info : KeepMemInfo) (handle : Nat) : Prop :=
  (info.user = 1 ∧ masks.of handle = [(handle, info.keepId)]) ∨
    (info.user ≤ 0 ∧ masks.of handle = [] ∧ info.delayOnJiffies64 = masks.due info.keepId)

/-- The entry at `i` is for the handle. -/
def KeepsAt (mgr : KeeperMgr) (i : Nat) (info : KeepMemInfo) (handle : Nat) : Prop :=
  mgr.keepList[i]? = some info ∧ info.handle = some handle

structure Tracks (w : World) : Prop where
  handleOnce : ∀ i j info info' handle, KeepsAt w.mgr i info handle → KeepsAt w.mgr j info' handle → i = j
  idOnce : ∀ i j info info' handle, KeepsAt w.mgr i info handle → w.mgr.keepList[j]? = some info' →
    KeepMemInfo.keepId info' = info.keepId → i = j
  users : ∀ i info handle, KeepsAt w.mgr i info handle → UsersMatch w.masks info handle
  sane : ∀ i info handle, KeepsAt w.mgr i info handle → 0 ≤ info.keepId ∧ ∀ value, info.type ≠ .other value
  alive : ∀ mask ∈ w.masks.outstanding, ∃ i info, KeepsAt w.mgr i info mask.1
  held : ∀ i info handle, KeepsAt w.mgr i info handle → w.mgr.refs handle = 1
  unheld : ∀ handle, (∀ i info, ¬ KeepsAt w.mgr i info handle) → w.mgr.refs handle = 0
  nextId : startKeepId ≤ w.mgr.nextId
  length : w.mgr.keepList.length = maxKeepFrame

theorem listed_iff {mgr : KeeperMgr} : Listed mgr handle ↔ ∃ i info, KeepsAt mgr i info handle := by
  constructor
  · rintro ⟨info, hin, hhandle⟩
    obtain ⟨i, hi⟩ := mem_iff_getElem?.mp hin
    exact ⟨i, info, hi, hhandle⟩
  · rintro ⟨i, info, hi, hhandle⟩
    exact ⟨info, mem_of_getElem? hi, hhandle⟩

theorem initial_empty : ¬ KeepsAt initial.mgr i info handle := by
  rintro ⟨hi, hh⟩
  rw [eq_of_mem_replicate (mem_of_getElem? hi)] at hh
  cases hh

theorem initial_tracks : Tracks initial where
  handleOnce _ _ _ _ _ h := absurd h initial_empty
  idOnce _ _ _ _ _ h := absurd h initial_empty
  users _ _ _ h := absurd h initial_empty
  sane _ _ _ h := absurd h initial_empty
  alive _ h := nomatch h
  held _ _ _ h := absurd h initial_empty
  unheld _ _ := rfl
  nextId := Int.le_refl _
  length := rfl

/-- One entry of the list is another one. -/
structure Replaced (mgr mgr' : KeeperMgr) (k : Nat) (old new : KeepMemInfo) : Prop where
  before : mgr.keepList[k]? = some old
  after : mgr'.keepList[k]? = some new
  others : ∀ j, j ≠ k → mgr'.keepList[j]? = mgr.keepList[j]?
  length : mgr'.keepList.length = mgr.keepList.length

section Replaced
variable {mgr mgr' : KeeperMgr} {k : Nat} {old new : KeepMemInfo}

theorem replaced_set (hk : mgr.keepList[k]? = some old) (hlist : mgr'.keepList = mgr.keepList.set k new) :
    Replaced mgr mgr' k old new := by
  have hlt := (List.getElem?_eq_some_iff.mp hk).1
  exact ⟨hk, hlist ▸ getElem?_set_self hlt, fun j hj => hlist ▸ getElem?_set_ne (.symm hj), hlist ▸ length_set⟩

variable (h : Replaced mgr mgr' k old new)
include h

theorem keepsAt_replaced {j : Nat} (hkeep : KeepsAt mgr' j info handle) :
    (j = k ∧ info = new ∧ new.handle = some handle) ∨ (j ≠ k ∧ KeepsAt mgr j info handle) := by
  by_cases hj : j = k
  · subst hj
    obtain rfl := Option.some.inj (h.after.symm.trans hkeep.1)
    exact .inl ⟨rfl, rfl, hkeep.2⟩
  · exact .inr ⟨hj, (h.others j hj).symm.trans hkeep.1, hkeep.2⟩

theorem keepsAt_other {j : Nat} (hkeep : KeepsAt mgr j info handle) (hj : j ≠ k) :
    KeepsAt mgr' j info handle := ⟨(h.others j hj).trans hkeep.1, hkeep.2⟩

theorem keepsAt_old (hkeep : KeepsAt mgr i info handle) : (i = k ∧ old.handle = some handle) ∨ i ≠ k := by
  by_cases hi : i = k
  · subst hi
    obtain rfl := Option.some.inj (h.before.symm.trans hkeep.1)
    exact .inl ⟨rfl, hkeep.2⟩
  · exact .inr hi

end Replaced

/-! ## Masking -/

theorem findKeep_unlisted {l : List KeepMemInfo} (h : ∀ info ∈ l, info.handle ≠ some handle) (i : Nat)
    (slot : Option Nat) : ∃ r, findKeep handle l i slot = (r, none) ∧
      ∀ k, r = some k → slot = some k ∨ ∃ j info, k = i + j ∧ l[j]? = some info ∧ info.handle = none := by
  fun_induction findKeep handle l i slot with
  | case1 i slot => exact ⟨slot, rfl, fun k hk => .inl hk⟩
  | case2 info rest i slot hfree ih =>
    obtain ⟨r, hr, hslot⟩ := ih (forall_mem_cons.mp h).2
    refine ⟨r, hr, fun k hk => .inr ?_⟩
    obtain hi | ⟨j, b, hj, hb, hnone⟩ := hslot k hk
    · exact ⟨0, info, (Option.some.inj hi).symm, rfl, hfree.1⟩
    · exact ⟨j + 1, b, by omega, hb, hnone⟩
  | case3 info rest i slot _ hlisted => exact absurd hlisted (h info mem_cons_self)
  | case4 info rest i slot _ _ ih =>
    obtain ⟨r, hr, hslot⟩ := ih (forall_mem_cons.mp h).2
    refine ⟨r, hr, fun k hk => (hslot k hk).imp_right ?_⟩
    rintro ⟨j, b, hj, hb, hnone⟩
    exact ⟨j + 1, b, by omega, hb, hnone⟩

variable {w : World} {mgr' : KeeperMgr} {k : Nat} {old new : KeepMemInfo}

/-- What has to be shown where one entry is another one: of the new entry, if it is listed, and of
the listed ones beside it. -/
theorem replaced_tracks {masks : Masks} (h : Tracks w) (hr : Replaced w.mgr mgr' k old new)
    (hnew : ∀ b, new.handle = some b → UsersMatch masks new b ∧ (0 ≤ new.keepId ∧ ∀ value, new.type ≠ .other value) ∧
      mgr'.refs b = 1 ∧ (∀ i info, i ≠ k → ¬ KeepsAt w.mgr i info b) ∧
      ∀ (i : Nat) (info : KeepMemInfo), i ≠ k → w.mgr.keepList[i]? = some info → info.keepId ≠ new.keepId)
    (hothers : ∀ i info b, i ≠ k → KeepsAt w.mgr i info b →
      UsersMatch masks info b ∧ mgr'.refs b = 1 ∧ new.keepId ≠ info.keepId)
    (halive : ∀ mask ∈ masks.outstanding, new.handle = some mask.1 ∨ ∃ i info, i ≠ k ∧ KeepsAt w.mgr i info mask.1)
    (hunheld : ∀ b, new.handle ≠ some b → (∀ i info, i ≠ k → ¬ KeepsAt w.mgr i info b) → mgr'.refs b = 0)
    (hnext : startKeepId ≤ mgr'.nextId) : Tracks ⟨mgr', masks⟩ := by
  refine ⟨fun i j info info' b hi hj => ?_, fun i j info info' b hi hj hsame => ?_, fun i info b hi => ?_, fun i info b hi => ?_,
    fun mask hmask => ?_, fun i info b hi => ?_, fun b hb => ?_, hnext, hr.length.trans h.length⟩
  · obtain ⟨rfl, -, hb⟩ | ⟨hik, hold⟩ := keepsAt_replaced hr hi
    · obtain ⟨rfl, -, -⟩ | ⟨hjk, hold'⟩ := keepsAt_replaced hr hj
      · rfl
      · exact absurd hold' ((hnew b hb).2.2.2.1 j info' hjk)
    · obtain ⟨rfl, -, hb⟩ | ⟨_, hold'⟩ := keepsAt_replaced hr hj
      · exact absurd hold ((hnew b hb).2.2.2.1 i info hik)
      · exact h.handleOnce i j info info' b hold hold'
  · obtain ⟨rfl, rfl, hb⟩ | ⟨hik, hold⟩ := keepsAt_replaced hr hi
    · by_cases hjk : j = i
      · exact hjk.symm
      · exact absurd hsame ((hnew b hb).2.2.2.2 j info' hjk ((hr.others j hjk).symm.trans hj))
    by_cases hjk : j = k
    · subst hjk
      obtain rfl := Option.some.inj (hr.after.symm.trans hj)
      exact absurd hsame (hothers i info b hik hold).2.2
    · exact h.idOnce i j info info' b hold ((hr.others j hjk).symm.trans hj) hsame
  · obtain ⟨-, rfl, hb⟩ | ⟨hik, hold⟩ := keepsAt_replaced hr hi
    · exact (hnew b hb).1
    · exact (hothers i info b hik hold).1
  · obtain ⟨-, rfl, hb⟩ | ⟨hik, hold⟩ := keepsAt_replaced hr hi
    · exact (hnew b hb).2.1
    · exact h.sane i info b hold
  · obtain hhandle | ⟨i, info, hik, hkeep⟩ := halive mask hmask
    · exact ⟨k, new, hr.after, hhandle⟩
    · exact ⟨i, info, keepsAt_other hr hkeep hik⟩
  · obtain ⟨-, -, hb⟩ | ⟨hik, hold⟩ := keepsAt_replaced hr hi
    · exact (hnew b hb).2.2.1
    · exact (hothers i info b hik hold).2.1
  · exact hunheld b (fun hhandle => hb k new ⟨hr.after, hhandle⟩) fun i info hik hkeep => hb i info (keepsAt_other hr hkeep hik)

/-- A handle that was not listed takes a free entry. -/
theorem mask_tracks (h : Tracks w) (hr : Replaced w.mgr mgr' k old new) (hfree : old.handle = none)
    (hhandle : new.handle = some handle) (huser : new.user = 1)
    (hsane : 0 ≤ new.keepId ∧ ∀ value, new.type ≠ .other value) (hnew : ∀ i info, ¬ KeepsAt w.mgr i info handle)
    (hid : ∀ info ∈ w.mgr.keepList, info.keepId ≠ new.keepId)
    (hrefs : ∀ b, mgr'.refs b = if b = handle then w.mgr.refs b + 1 else w.mgr.refs b)
    (hnext : startKeepId ≤ mgr'.nextId) : Tracks ⟨mgr', w.masks.add handle new.keepId⟩ := by
  have hnone : ∀ {i info b}, KeepsAt w.mgr i info b → b ≠ handle := fun hkeep heq => hnew _ _ (heq ▸ hkeep)
  have hof : w.masks.of handle = [] := by
    rw [Masks.of, filter_eq_nil_iff]
    intro mask hmask heq
    obtain ⟨i, info, hkeep⟩ := h.alive mask hmask
    exact hnone hkeep (of_decide_eq_true heq)
  have haside : ∀ {i info b}, KeepsAt w.mgr i info b → i ≠ k := fun hkeep =>
    (keepsAt_old hr hkeep).resolve_left fun hold => Option.some_ne_none _ (hold.2.symm.trans hfree)
  refine replaced_tracks h hr (fun b hb => ?_) (fun i info b _ hkeep => ?_) (fun mask hmask => ?_) (fun b hb hunlisted => ?_) hnext
  · obtain rfl := Option.some.inj (hb.symm.trans hhandle)
    refine ⟨.inl ⟨huser, (of_add_self _ _ _).trans (congrArg _ hof)⟩, hsane, ?_, fun i info _ => hnew i info,
      fun i info _ hi => hid info (mem_of_getElem? hi)⟩
    rw [hrefs, if_pos rfl, h.unheld b hnew]
    rfl
  · rw [UsersMatch, of_add_ne w.masks new.keepId (hnone hkeep), hrefs, if_neg (hnone hkeep)]
    exact ⟨h.users i info b hkeep, h.held i info b hkeep, (hid info (mem_of_getElem? hkeep.1)).symm⟩
  · rcases mem_cons.mp hmask with rfl | hmask
    · exact .inl hhandle
    · obtain ⟨i, info, hkeep⟩ := h.alive mask hmask
      exact .inr ⟨i, info, haside hkeep, hkeep⟩
  · rw [hrefs, if_neg fun heq : b = handle => hb (heq ▸ hhandle)]
    exact h.unheld b fun i info hkeep => hunlisted i info (haside hkeep) hkeep

theorem tracks_congr {masks : Masks} (h : Tracks w) (hlist : mgr'.keepList = w.mgr.keepList)
    (hrefs : ∀ b, mgr'.refs b = w.mgr.refs b) (hnext : startKeepId ≤ mgr'.nextId)
    (hmasks : masks.outstanding = w.masks.outstanding)
    (hdue : ∀ info ∈ w.mgr.keepList, masks.due info.keepId = w.masks.due info.keepId) : Tracks ⟨mgr', masks⟩ := by
  obtain ⟨num, keepList, nextId, refs⟩ := mgr'
  obtain rfl : keepList = w.mgr.keepList := hlist
  refine ⟨h.handleOnce, h.idOnce, fun i info b hi => ?_, h.sane, hmasks ▸ h.alive,
    fun i info b hi => (hrefs b).trans (h.held i info b hi), fun b hb => (hrefs b).trans (h.unheld b hb), hnext, h.length⟩
  rw [UsersMatch, Masks.of, hmasks, hdue info (mem_of_getElem? hi.1)]
  exact h.users i info b hi

theorem placeKeep_full {keepId : Int} {mgr : KeeperMgr}
    (h : findKeep handle mgr.keepList 0 none = (none, none)) : placeKeep handle type keepId mgr = (-1, release handle mgr) := by
  rw [placeKeep, h]

theorem placeKeep_free {keepId : Int} {mgr : KeeperMgr} {slot : Nat}
    (h : findKeep handle mgr.keepList 0 none = (some slot, none)) :
    placeKeep handle type keepId mgr = (keepId, { mgr with
      num := mgr.num + 1
      keepList := mgr.keepList.modify slot fun info => { info with handle := some handle, keepId, type, user := 1 } }) := by
  rw [placeKeep, h]

theorem maskExec_tracks (h : Tracks w) {shared : Nat} {memHandle : Option Nat}
    (hnew : ∀ handle ∈ memHandle, ¬ Listed w.mgr handle) (hid : ∀ info ∈ w.mgr.keepList, info.keepId ≠ w.mgr.nextId) :
    Tracks (KeeperOp.exec (.mask shared memHandle type) w) := by
  cases memHandle with
  | none => exact h
  | some handle =>
    have hnot := mt listed_iff.mpr (hnew handle rfl)
    have hnotin : ∀ info ∈ w.mgr.keepList, info.handle ≠ some handle := fun info hin hh => hnew handle rfl ⟨info, hin, hh⟩
    obtain ⟨slot, hfind, hslot⟩ := findKeep_unlisted hnotin 0 none
    by_cases htype : ∃ value, type = .other value
    · obtain ⟨value, rfl⟩ := htype
      exact h
    have hnext : startKeepId ≤ if w.mgr.nextId + 1 ≥ maxKeepId then startKeepId else w.mgr.nextId + 1 := by
      have := h.nextId
      split
      · exact Int.le_refl _
      · omega
    generalize hnid : (if w.mgr.nextId + 1 ≥ maxKeepId then startKeepId else w.mgr.nextId + 1) = nextId at hnext
    have hrun : codecMmKeeperMaskKeepMem shared (some handle) type w.mgr =
        placeKeep handle type w.mgr.nextId { share handle w.mgr with nextId } := by
      rw [← hnid]
      cases type with
      | other value => exact absurd ⟨value, rfl⟩ htype
      | codecMm | codecMmScatter => exact if_neg (t := (-4, w.mgr)) (Int.not_lt.mpr (Int.natCast_nonneg shared))
    show Tracks ⟨(codecMmKeeperMaskKeepMem shared (some handle) type w.mgr).2,
      noteMask (some handle) (codecMmKeeperMaskKeepMem shared (some handle) type w.mgr).1 w.masks⟩
    rw [hrun]
    cases slot with
    | none =>
      rw [@placeKeep_full _ _ _ { share handle w.mgr with nextId } hfind]
      refine tracks_congr h rfl (fun b => ?_) hnext rfl fun _ _ => rfl
      show (if b = handle then (if b = handle then w.mgr.refs b + 1 else w.mgr.refs b) - 1
        else if b = handle then w.mgr.refs b + 1 else w.mgr.refs b) = w.mgr.refs b
      split <;> omega
    | some k =>
      rw [@placeKeep_free _ _ _ { share handle w.mgr with nextId } k hfind]
      obtain hnone | ⟨j, old, hj, hold, hfree⟩ := hslot k rfl
      · exact absurd hnone.symm (Option.some_ne_none k)
      rw [Nat.zero_add] at hj
      subst hj
      have hpos : ¬ w.mgr.nextId < 0 := by
        have := h.nextId
        rw [startKeepId] at this
        omega
      have hnote : noteMask (some handle) w.mgr.nextId w.masks = w.masks.add handle w.mgr.nextId := if_neg hpos
      rw [hnote]
      have hr : Replaced w.mgr { share handle w.mgr with
          nextId
          num := w.mgr.num + 1
          keepList := w.mgr.keepList.modify k fun info =>
            { info with handle := some handle, keepId := w.mgr.nextId, type, user := 1 } } k old
          { old with handle := some handle, keepId := w.mgr.nextId, type, user := 1 } :=
        ⟨hold, (getElem?_modify_eq _ _ _).trans (congrArg _ hold), fun j hj => getElem?_modify_ne _ _ hj.symm,
          length_modify _ _ _⟩
      exact mask_tracks h hr hfree rfl rfl ⟨Int.not_lt.mp hpos, fun value heq => htype ⟨value, heq⟩⟩
        (fun i info hkeep => hnot ⟨i, info, hkeep⟩) hid (fun b => rfl) hnext

/-! ## Unmasking -/

theorem unmaskFirst_cases (keepId : Int) (delay : UInt64) (l : List KeepMemInfo) :
    ((∀ info ∈ l, info.keepId ≠ keepId) ∧ unmaskFirst keepId delay l = l) ∨
      ∃ k old, l[k]? = some old ∧ old.keepId = keepId ∧
        unmaskFirst keepId delay l = l.set k { old with user := old.user - 1, delayOnJiffies64 := delay } := by
  fun_induction unmaskFirst keepId delay l with
  | case1 => exact .inl ⟨nofun, rfl⟩
  | case2 info rest hid => exact .inr ⟨0, info, rfl, hid.symm, rfl⟩
  | case3 info rest hid ih =>
    obtain ⟨hnone, hsame⟩ | ⟨k, old, hk, hold, hset⟩ := ih
    · exact .inl ⟨forall_mem_cons.mpr ⟨.symm hid, hnone⟩, by rw [hsame]⟩
    · exact .inr ⟨k + 1, old, hk, hold, by rw [hset]; rfl⟩

theorem filter_eraseP_of_disjoint {α : Type} {p q : α → Bool} {l : List α} (h : ∀ a ∈ l, p a = true → q a = false) :
    (l.eraseP p).filter q = l.filter q := by
  induction l with
  | nil => rfl
  | cons a l ih =>
    have hrest := ih fun b hb => h b (.tail _ hb)
    by_cases hp : p a = true
    · rw [eraseP_cons_of_pos hp, filter_cons_of_neg]
      rw [h a mem_cons_self hp]
      exact Bool.false_ne_true
    · rw [eraseP_cons_of_neg hp, filter_cons, filter_cons, hrest]

theorem filter_eraseP_of_subset {α : Type} {p q : α → Bool} {l : List α} (h : ∀ a ∈ l, p a = true → q a = true) :
    (l.eraseP p).filter q = (l.filter q).eraseP p := by
  induction l with
  | nil => rfl
  | cons a l ih =>
    have hrest := ih fun b hb => h b (.tail _ hb)
    by_cases hp : p a = true
    · rw [eraseP_cons_of_pos hp, filter_cons_of_pos (h a mem_cons_self hp), eraseP_cons_of_pos hp]
    rw [eraseP_cons_of_neg hp, filter_cons, filter_cons, hrest]
    split
    · rw [eraseP_cons_of_neg hp]
    · rfl

theorem pred_nonpos {user : Int32} (h : user ≤ 0) (hmin : user ≠ Int32.minValue) : user - 1 ≤ 0 := by
  have hne : user.toInt ≠ Int32.minValue.toInt := fun heq => hmin (Int32.toInt_inj.mp heq)
  have hle := Int32.le_iff_toInt_le.mp h
  have hlow := user.le_toInt
  have hmin' : Int32.minValue.toInt = -2147483648 := rfl
  have hzero : Int32.toInt 0 = 0 := rfl
  have hsub : (user - 1).toInt = user.toInt - 1 := toInt_sub_of_bounds (b := 1) (by rw [toInt_one]; omega) (by rw [toInt_one]; omega)
  rw [Int32.le_iff_toInt_le, hsub]
  omega

section Unmask
variable {w : World} (h : Tracks w) {keepId : Int}
include h

theorem mask_id {mask : Nat × Int} (hmask : mask ∈ w.masks.outstanding)
    (hkeep : KeepsAt w.mgr i info mask.1) : mask.2 = info.keepId ∧ info.user = 1 := by
  have hin : mask ∈ w.masks.of mask.1 := mem_filter.mpr ⟨hmask, decide_eq_true rfl⟩
  obtain ⟨huser, hof⟩ | ⟨_, hof, _⟩ := h.users i info mask.1 hkeep
  · rw [hof, mem_singleton] at hin
    exact ⟨congrArg Prod.snd hin, huser⟩
  · rw [hof] at hin
    exact nomatch hin

/-- The masks of an id are masks of the entry with it. -/
theorem mask_handle {mask : Nat × Int} (hmask : mask ∈ w.masks.outstanding) (heq : mask.2 = keepId)
    (hk : w.mgr.keepList[k]? = some old) (hid : old.keepId = keepId) : old.handle = some mask.1 := by
  obtain ⟨i, info, hkeep⟩ := h.alive mask hmask
  obtain rfl := h.idOnce i k info old mask.1 hkeep hk (hid.trans (heq.symm.trans (mask_id h hmask hkeep).1))
  obtain rfl := Option.some.inj (hk.symm.trans hkeep.1)
  exact hkeep.2

theorem unmask_none (hnone : ∀ info ∈ w.mgr.keepList, info.keepId ≠ keepId) :
    w.masks.outstanding.eraseP (·.2 = keepId) = w.masks.outstanding := by
  refine eraseP_of_forall_not fun mask hmask heq => ?_
  obtain ⟨i, info, hkeep⟩ := h.alive mask hmask
  exact hnone info (mem_of_getElem? hkeep.1) ((mask_id h hmask hkeep).1.symm.trans (of_decide_eq_true heq))

theorem unmask_users {delay : UInt64} (hkeep : KeepsAt w.mgr k old handle) (hid : old.keepId = keepId)
    (hnew : new = { old with user := old.user - 1, delayOnJiffies64 := delay }) (hmin : old.user ≠ Int32.minValue)
    (hmine : ∀ mask ∈ w.masks.outstanding, mask.2 = keepId → mask.1 = handle) :
    new.user ≤ 0 ∧ (noteUnmask keepId delay w.masks).of handle = [] ∧
      new.delayOnJiffies64 = (noteUnmask keepId delay w.masks).due new.keepId := by
  have hof : (noteUnmask keepId delay w.masks).of handle = (w.masks.of handle).eraseP (·.2 = keepId) :=
    filter_eraseP_of_subset fun mask hmask heq => decide_eq_true (hmine mask hmask (of_decide_eq_true heq))
  have huser : new.user = old.user - 1 := by rw [hnew]
  have hdue : new.delayOnJiffies64 = (noteUnmask keepId delay w.masks).due new.keepId := by
    have hnewId : new.keepId = keepId := by rw [hnew, hid]
    rw [hnewId, hnew]
    exact (if_pos rfl).symm
  rw [hof, huser]
  obtain ⟨hone, hmasks⟩ | ⟨hle, hmasks, _⟩ := h.users k old handle hkeep
  · refine ⟨by rw [hone]; decide, ?_, hdue⟩
    rw [hmasks]
    exact eraseP_cons_of_pos (decide_eq_true hid)
  · refine ⟨pred_nonpos hle hmin, ?_, hdue⟩
    rw [hmasks]
    rfl

/-- The first entry with the id. -/
theorem unmask_tracks (delay : UInt64) (hr : Replaced w.mgr mgr' k old new) (hid : old.keepId = keepId)
    (hnew : new = { old with user := old.user - 1, delayOnJiffies64 := delay }) (hmin : old.user ≠ Int32.minValue)
    (hrefs : mgr'.refs = w.mgr.refs) (hnext : mgr'.nextId = w.mgr.nextId) :
    Tracks ⟨mgr', noteUnmask keepId delay w.masks⟩ := by
  have hhandle : new.handle = old.handle := by rw [hnew]
  have hnewId : new.keepId = old.keepId := by rw [hnew]
  have hother : ∀ {i info b}, i ≠ k → KeepsAt w.mgr i info b → old.keepId ≠ info.keepId := fun hik hb heq =>
    hik (h.idOnce _ _ _ _ _ hb hr.before heq)
  refine replaced_tracks h hr (fun b hb => ?_) (fun i info b hik hin => ?_) (fun mask hmask => ?_)
    (fun b hb hunlisted => ?_) (hnext ▸ h.nextId)
  · have hkeep : KeepsAt w.mgr k old b := ⟨hr.before, hhandle.symm.trans hb⟩
    have hmine : ∀ mask ∈ w.masks.outstanding, mask.2 = keepId → mask.1 = b := fun mask hmask heq =>
      Option.some.inj ((mask_handle h hmask heq hr.before hid).symm.trans hkeep.2)
    refine ⟨.inr (unmask_users h hkeep hid hnew hmin hmine), ?_, (congrFun hrefs b).trans (h.held k old b hkeep),
      fun i info hik hin => hik (h.handleOnce i k info old b hin hkeep), fun i info hik hi heq => ?_⟩
    · rw [hnew]
      exact h.sane k old b hkeep
    · exact hik (h.idOnce k i old info b hkeep hi (heq.trans hnewId)).symm
  · have hof : (noteUnmask keepId delay w.masks).of b = w.masks.of b :=
      filter_eraseP_of_disjoint fun mask hmask heq => decide_eq_false fun hb => hik (h.handleOnce i k info old b hin
        ⟨hr.before, hb ▸ mask_handle h hmask (of_decide_eq_true heq) hr.before hid⟩)
    have hdue : (noteUnmask keepId delay w.masks).due info.keepId = w.masks.due info.keepId :=
      if_neg fun heq => hother hik hin (hid.trans heq.symm)
    rw [UsersMatch, hof, hdue, hrefs, hnewId]
    exact ⟨h.users i info b hin, h.held i info b hin, hother hik hin⟩
  · obtain ⟨i, info, hin⟩ := h.alive mask (mem_of_mem_eraseP hmask)
    exact (keepsAt_old hr hin).imp (fun hold => hhandle.trans hold.2) fun hik => ⟨i, info, hik, hin⟩
  · rw [hrefs]
    exact h.unheld b fun i info hin => (keepsAt_old hr hin).elim (fun hold => hb (hhandle.trans hold.2)) fun hik =>
      hunlisted i info hik hin

theorem unmaskExec_tracks {now : UInt64} {hz delayms : Int}
    (hmin : ∀ info ∈ w.mgr.keepList, info.keepId = keepId → info.user ≠ Int32.minValue) :
    Tracks (KeeperOp.exec (.unmask now hz keepId delayms) w) := by
  by_cases hrange : keepId < startKeepId ∨ keepId ≥ maxKeepId
  · have hrun : KeeperOp.exec (.unmask now hz keepId delayms) w = w := by
      rw [KeeperOp.exec, codecMmKeeperUnmaskKeeper, if_pos hrange]
      rfl
    rw [hrun]
    exact h
  · have hrun : KeeperOp.exec (.unmask now hz keepId delayms) w =
        ⟨{ w.mgr with keepList := unmaskFirst keepId (delayOn now hz delayms) w.mgr.keepList },
          noteUnmask keepId (delayOn now hz delayms) w.masks⟩ := by
      rw [KeeperOp.exec, codecMmKeeperUnmaskKeeper, if_neg hrange]
      rfl
    rw [hrun]
    obtain ⟨hnone, hsame⟩ | ⟨k, old, hk, hid, hset⟩ := unmaskFirst_cases keepId (delayOn now hz delayms) w.mgr.keepList
    · rw [hsame]
      exact tracks_congr h rfl (fun _ => rfl) h.nextId (unmask_none h hnone) fun info hin => if_neg (hnone info hin)
    rw [hset]
    exact unmask_tracks h _ (replaced_set hk rfl) hid rfl (hmin old (mem_of_getElem? hk) hid) rfl rfl

end Unmask

/-! ## Monitor passes -/

/-- One entry of a monitor pass. -/
def freeOne (force : Nat) (now : Nat → UInt64) (mgr : KeeperMgr) (i : Nat) : KeeperMgr :=
  match mgr.keepList[i]? with
  | none => mgr
  | some info => if wantFree force (now i) info then codecMmKeeperFreeKeep i mgr else mgr

theorem freeOne_free {now : Nat → UInt64} {mgr : KeeperMgr} (hi : mgr.keepList[i]? = some info)
    (hwant : wantFree force (now i) info = true) : freeOne force now mgr i = codecMmKeeperFreeKeep i mgr := by
  rw [freeOne, hi]
  exact if_pos hwant

theorem freeOne_keep {now : Nat → UInt64} {mgr : KeeperMgr}
    (h : ∀ info, mgr.keepList[i]? = some info → wantFree force (now i) info = false) : freeOne force now mgr i = mgr := by
  rw [freeOne]
  cases hi : mgr.keepList[i]? with
  | none => rfl
  | some info => exact if_neg (Bool.eq_false_iff.mp (h info hi))

theorem freeKeep_eq {mgr : KeeperMgr} {old : KeepMemInfo} (hk : mgr.keepList[k]? = some old)
    (hhandle : old.handle = some handle) (htype : ∀ value, old.type ≠ .other value) :
    codecMmKeeperFreeKeep k mgr = release handle { mgr with
      num := mgr.num - 1
      keepList := mgr.keepList.set k { old with handle := none, delayOnJiffies64 := 0 } } := by
  rw [codecMmKeeperFreeKeep, hk]
  obtain ⟨_, keepId, type, user, delay⟩ := old
  obtain rfl := hhandle
  cases type with
  | other value => exact absurd rfl (htype value)
  | codecMm => rfl
  | codecMmScatter => rfl

theorem wantFree_idle (hforce : force ≠ 1) {now : UInt64}
    (h : wantFree force now info = true) : info.handle.isSome = true ∧ info.user ≤ 0 := by
  rw [wantFree] at h
  simp only [Bool.and_eq_true, Bool.or_eq_true, decide_eq_true_eq, beq_iff_eq] at h
  obtain ⟨⟨hsome, _⟩, (hone | htwo) | hlate⟩ := h
  · exact absurd hone hforce
  · exact ⟨hsome, htwo.2⟩
  · exact ⟨hsome, hlate.1⟩

section
variable (h : Tracks w)
include h

/-- What one entry of a pass does: nothing, or a handle without masks is released. -/
theorem freeOne_cases (hforce : force ≠ 1) (now : Nat → UInt64) (i : Nat) :
    (freeOne force now w.mgr i = w.mgr ∧ ∀ info, w.mgr.keepList[i]? = some info → wantFree force (now i) info = false) ∨
      ∃ old handle, KeepsAt w.mgr i old handle ∧ w.masks.of handle = [] ∧
        Replaced w.mgr (freeOne force now w.mgr i) i old { old with handle := none, delayOnJiffies64 := 0 } ∧
        (freeOne force now w.mgr i).nextId = w.mgr.nextId ∧
        ∀ b, (freeOne force now w.mgr i).refs b = if b = handle then w.mgr.refs b - 1 else w.mgr.refs b := by
  by_cases hwant : ∃ info, w.mgr.keepList[i]? = some info ∧ wantFree force (now i) info = true
  · obtain ⟨old, hi, hwant⟩ := hwant
    obtain ⟨hsome, huser⟩ := wantFree_idle hforce hwant
    obtain ⟨handle, hhandle⟩ := Option.isSome_iff_exists.mp hsome
    have hkeep : KeepsAt w.mgr i old handle := ⟨hi, hhandle⟩
    have hof : w.masks.of handle = [] := by
      obtain ⟨hone, _⟩ | ⟨_, hof, _⟩ := h.users i old handle hkeep
      · rw [hone] at huser
        exact nomatch huser
      · exact hof
    refine .inr ⟨old, handle, hkeep, hof, ?_⟩
    rw [freeOne_free hi hwant, freeKeep_eq hi hhandle (h.sane i old handle hkeep).2]
    exact ⟨replaced_set hi rfl, rfl, fun b => rfl⟩
  · have hkeep : ∀ info, w.mgr.keepList[i]? = some info → wantFree force (now i) info = false := fun info hinfo =>
      Bool.eq_false_iff.mpr fun hw => hwant ⟨info, hinfo, hw⟩
    exact .inl ⟨freeOne_keep hkeep, hkeep⟩

/-- A handle without masks is released. -/
theorem free_tracks (hr : Replaced w.mgr mgr' k old new) (hhandle : old.handle = some handle)
    (hof : w.masks.of handle = []) (hgone : new.handle = none) (hid : new.keepId = old.keepId)
    (hrefs : ∀ b, mgr'.refs b = if b = handle then w.mgr.refs b - 1 else w.mgr.refs b)
    (hnext : mgr'.nextId = w.mgr.nextId) : Tracks ⟨mgr', w.masks⟩ := by
  have hkeep : KeepsAt w.mgr k old handle := ⟨hr.before, hhandle⟩
  refine replaced_tracks h hr (fun b hb => ?_) (fun i info b hik hin => ?_) (fun mask hmask => ?_)
    (fun b _ hunlisted => ?_) (hnext ▸ h.nextId)
  · exact nomatch hb.symm.trans hgone
  · have hne : b ≠ handle := fun heq => hik (h.handleOnce i k info old handle (heq ▸ hin) hkeep)
    rw [hrefs, if_neg hne]
    exact ⟨h.users i info b hin, h.held i info b hin, fun heq => hik (h.idOnce i k info old b hin hr.before (hid.symm.trans heq))⟩
  · obtain ⟨i, info, hin⟩ := h.alive mask hmask
    refine .inr ⟨i, info, (keepsAt_old hr hin).resolve_left fun hold => ?_, hin⟩
    have hmem : mask ∈ w.masks.of handle :=
      mem_filter.mpr ⟨hmask, decide_eq_true (Option.some.inj (hold.2.symm.trans hhandle))⟩
    rw [hof] at hmem
    exact nomatch hmem
  · rw [hrefs]
    by_cases hbh : b = handle
    · subst hbh
      rw [if_pos rfl, h.held k old b hkeep]
      rfl
    · rw [if_neg hbh]
      exact h.unheld b fun i info hin => (keepsAt_old hr hin).elim
        (fun hold => hbh (Option.some.inj (hold.2.symm.trans hhandle))) fun hik => hunlisted i info hik hin

theorem freeOne_tracks (hforce : force ≠ 1) (now : Nat → UInt64) (i : Nat) :
    Tracks ⟨freeOne force now w.mgr i, w.masks⟩ := by
  obtain ⟨hsame, _⟩ | ⟨old, handle, hkeep, hof, hr, hnext, hrefs⟩ := freeOne_cases h hforce now i
  · rw [hsame]
    exact h
  · exact free_tracks h hr hkeep.2 hof rfl rfl hrefs hnext

/-- An entry that is left after a pass over some indices was there before it, and was not to be
freed at its own index. -/
theorem sweep_tracks (hforce : force ≠ 1) (now : Nat → UInt64) (is : List Nat) :
    Tracks ⟨is.foldl (freeOne force now) w.mgr, w.masks⟩ ∧
      ∀ i info handle, KeepsAt (is.foldl (freeOne force now) w.mgr) i info handle →
        KeepsAt w.mgr i info handle ∧ (i ∈ is → wantFree force (now i) info = false) := by
  induction is generalizing w with
  | nil => exact ⟨h, fun i info handle hin => ⟨hin, nofun⟩⟩
  | cons k is ih =>
    obtain ⟨htracks, hleft⟩ := ih (freeOne_tracks h hforce now k)
    refine ⟨htracks, fun i info handle hin => ?_⟩
    obtain ⟨hstep, hlater⟩ := hleft i info handle hin
    have hone : KeepsAt w.mgr i info handle ∧ (i = k → wantFree force (now i) info = false) := by
      obtain ⟨hsame, hnot⟩ | ⟨old, freed, _, _, hr, _⟩ := freeOne_cases h hforce now k
      · have hkeep : KeepsAt w.mgr i info handle := by
          rw [← hsame]
          exact hstep
        exact ⟨hkeep, fun hik => hik ▸ hnot info (hik ▸ hkeep.1)⟩
      · obtain ⟨_, _, hb⟩ | ⟨hik, hkeep⟩ := keepsAt_replaced hr hstep
        · cases hb
        · exact ⟨hkeep, fun heq => absurd heq hik⟩
    refine ⟨hone.1, fun hi => ?_⟩
    rcases mem_cons.mp hi with hik | hi
    · exact hone.2 hik
    · exact hlater hi

theorem pass_releases (hforce : force ≠ 1) (now : Nat → UInt64) (hinfo : info ∈ w.mgr.keepList)
    (hhandle : info.handle = some handle) (hidle : ∀ mask ∈ w.masks.outstanding, mask.1 ≠ handle)
    (hwant : ∀ i, info.user ≤ 0 → 0 ≤ info.keepId → info.delayOnJiffies64 = w.masks.due info.keepId →
      wantFree force (now i) info = true) : ¬ Listed (codecMmKeeperFreeAllKeep force now w.mgr) handle := by
  rw [codecMmKeeperFreeAllKeep, listed_iff]
  rintro ⟨i, info', hin⟩
  obtain ⟨hkeep', hnot⟩ := (sweep_tracks h hforce now _).2 i info' handle hin
  obtain ⟨j, hj⟩ := mem_iff_getElem?.mp hinfo
  have hkeep : KeepsAt w.mgr j info handle := ⟨hj, hhandle⟩
  obtain rfl := h.handleOnce i j info' info handle hkeep' hkeep
  obtain rfl := Option.some.inj (hkeep.1.symm.trans hkeep'.1)
  have hlt : i < maxKeepFrame := h.length ▸ (List.getElem?_eq_some_iff.mp hj).1
  have hnotwant := hnot (mem_range.mpr hlt)
  obtain ⟨_, hof⟩ | ⟨huser, _, hdue⟩ := h.users i info handle hkeep
  · have hmem : (handle, info.keepId) ∈ w.masks.of handle := by
      rw [hof]
      exact mem_singleton_self _
    exact hidle _ (mem_filter.mp hmem).1 rfl
  · rw [hwant i huser (h.sane i info handle hkeep).1 hdue] at hnotwant
    exact nomatch hnotwant.symm

theorem tracks_keptAlive : KeptAlive w where
  refs handle := by
    split
    next hlisted =>
      obtain ⟨i, info, hkeep⟩ := listed_iff.mp hlisted
      exact h.held i info handle hkeep
    next hnot => exact h.unheld handle fun i info hkeep => hnot (listed_iff.mpr ⟨i, info, hkeep⟩)
  alive mask hmask := listed_iff.mpr (h.alive mask hmask)
  monitored info hinfo handle hhandle hidle now hlate := by
    refine pass_releases h (by decide) now hinfo hhandle hidle fun i huser hid hdue => ?_
    rw [wantFree, hhandle, hdue, hlate i, decide_eq_true huser, decide_eq_false (Int.not_lt.mpr hid)]
    rfl
  freedIdle info hinfo handle hhandle hidle now := by
    refine pass_releases h (by decide) now hinfo hhandle hidle fun i huser hid hdue => ?_
    rw [wantFree, hhandle, decide_eq_true huser, decide_eq_false (Int.not_lt.mpr hid)]
    rfl

/-! ## Runs -/

theorem exec_tracks {op : KeeperOp} (hop : Careful w.mgr op) : Tracks (op.exec w) := by
  cases op with
  | mask shared memHandle type => exact maskExec_tracks h hop.1 hop.2
  | unmask now hz keepId delayms => exact unmaskExec_tracks h hop
  | monitor now | freeIdle now => exact (sweep_tracks h (by decide) now _).1

theorem run_tracks {ops : List KeeperOp} (hops : CarefulRun ops w) : Tracks (run ops w) := by
  induction ops generalizing w with
  | nil => exact h
  | cons op ops ih => exact ih (exec_tracks h hops.1) hops.2

end

/-- In a run in which no listed handle is masked again, the keeper releases a handle only without
outstanding masks, and in the first pass that finds it idle. -/
theorem keeper_keeps_frames_alive {ops : List KeeperOp} (h : CarefulRun ops initial) : KeptAlive (run ops initial) :=
  tracks_keptAlive (run_tracks initial_tracks h)

/-- A frame that was masked and unmasked, with a second one still masked. -/
theorem second_frame_kept : KeptAlive (run [.mask 0 (some 7) .codecMm, .mask 0 (some 8) .codecMmScatter,
    .unmask 100 250 9 40, .monitor fun _ => 1000] initial) :=
  keeper_keeps_frames_alive ⟨by decide +kernel, by decide +kernel, by decide +kernel, trivial, trivial⟩

/-- The second mask of a listed handle is not counted: one unmask lets the pass release the
frame. -/
theorem twice_masked_frame_released : ¬ KeptAlive (run [.mask 0 (some 7) .codecMm, .mask 0 (some 7) .codecMm,
    .unmask 100 250 9 0, .freeIdle fun _ => 100] initial) := fun h =>
  absurd (h.alive (7, 9) (by decide +kernel)) (by decide +kernel)

end AmlogicV901d.Guarantees.KeptFrames
