import AmlogicV901d.Guarantees.CapturePool

/-!
# Every capture buffer has one owner

Runs of the capture interrupt and of the calls of a receiver. An entry that the front end
reserves goes to the temporary list and stays the current entry of the device if the interrupt
then ends early; and in a frozen pool the entry that the interrupt recycles by force goes back
to the frozen list, so that there is no next one. Apart from these two, each entry has exactly
one owner at any time.
-/
namespace AmlogicV901d.Guarantees.CaptureBuffers
open Lib.FifoTrace List
open Source.Vdin
open Guarantees.CapturePool

variable {p : VfPool} {hands : List Nat}
variable {dev : VdinDev} {h : Hooks} {curr : Option Nat}

/-! ## Runs -/

/-- The device, the frames that the receiver holds, and those that it got while the pool was not frozen, in order. -/
structure Sys where
  dev : VdinDev
  held : List Nat
  got : List Nat

inductive Op where
  | isr (h : Hooks)
  | get
  /-- The receiver puts the `k`-th frame it holds. -/
  | put (k : Nat)
  | freeze (num : Nat)
  | unfreeze

variable {s : Sys}

def Sys.step (s : Sys) : Op → Option Sys
  | .isr h => (vdinV4l2Isr h s.dev).map fun dev => { s with dev }
  | .get =>
    match (receiverVfGet s.dev.vfp).1 with
    | some vfe =>
      some
        { dev := { s.dev with vfp := (receiverVfGet s.dev.vfp).2 }
          held := vfe :: s.held
          got := if s.dev.vfp.freeze then s.got else s.got ++ [vfe] }
    | none => some s
  | .put k =>
    match s.held[k]? with
    | some vfe => some { s with dev := { s.dev with vfp := receiverVfPut vfe s.dev.vfp }, held := s.held.eraseIdx k }
    | none => some s
  | .freeze num => some { s with dev := { s.dev with vfp := vdinVfFreeze s.dev.vfp num } }
  | .unfreeze => some { s with dev := { s.dev with vfp := vdinVfUnfreeze s.dev.vfp } }

/-- In how many places an entry is: lists, current entry, last written entry, receiver. -/
def owners (s : Sys) (e : Nat) : Nat :=
  inLists s.dev.vfp e + s.dev.currWrVfe.toList.count e + s.dev.lastWrVfe.toList.count e + s.held.count e

/-- Every entry of the pool has one owner, and the receiver got entries in the order in which they entered the read list. -/
def Ok (s : Sys) : Prop := (∀ e < s.dev.vfp.size, owners s e = 1) ∧ s.got.Sublist s.dev.vfp.entered

/-- If the interrupt goes on, there is a next entry to write. -/
def NextThere (s : Sys) : Op → Prop
  | .isr h => ∀ dev curr, isrSelect h s.dev = .advance dev curr → providerVfPeek dev.vfp ≠ none
  | _ => True

def RunOk : Sys → List Op → Prop
  | s, [] => Ok s
  | s, op :: ops => Ok s ∧ NextThere s op ∧ ∀ s', s.step op = some s' → RunOk s' ops

/-- All entries are in the write list and nothing is frozen. -/
structure Fresh (s : Sys) : Prop where
  writable : s.dev.vfp.wrList.Perm (List.range s.dev.vfp.size)
  rdList : s.dev.vfp.rdList = []
  wtList : s.dev.vfp.wtList = []
  fzList : s.dev.vfp.fzList = []
  tmpList : s.dev.vfp.tmpList = []
  normal : ∀ e < s.dev.vfp.size, s.dev.vfp.normal e = true
  freezed : ∀ e < s.dev.vfp.size, s.dev.vfp.freezed e = false
  currWrVfe : s.dev.currWrVfe = none
  lastWrVfe : s.dev.lastWrVfe = none
  held : s.held = []
  got : s.got = []

/-! ## The condition -/

/-- The interrupt comes to the front end. -/
def Reaches (h : Hooks) (dev : VdinDev) : Prop :=
  dev.vdinResetFlag = false ∧ h.decStarted = true ∧ dev.currWrVfe ≠ none ∧ ¬ (h.checksWriteDone = true ∧ h.writeDone = false)

/-- There is no entry to write; a front end that reserves the current one gives back those reserved before. -/
def NoneToWrite (h : Hooks) (dev : VdinDev) : Prop :=
  dev.vfp.wrList = [] ∧ (h.decodeIsr = some .tmp → dev.vfp.tmpList = [])

/-- There is an entry to read, or a written one that this interrupt makes readable. -/
def Readable (dev : VdinDev) : Prop := dev.vfp.rdList ≠ [] ∨ dev.lastWrVfe ≠ none

/-- The interrupt looks for a next entry. -/
def Looks (h : Hooks) : Prop :=
  h.decodeIsr ≠ some .skip ∧ h.decodeIsr ≠ some .recycleTmp ∧ h.checkFrameSkip ≠ some true

/-- If the front end reserves the entry, the frame is not skipped and there is a next entry, if need be by force; and force is
not needed in a frozen pool with frozen entries. -/
def CleanIsr (h : Hooks) (dev : VdinDev) : Prop :=
  Reaches h dev → (h.decodeIsr = some .tmp → h.checkFrameSkip ≠ some true ∧
          (NoneToWrite h dev → h.forceRecycle = true ∧ dev.vfp.freeze = false ∧ Readable dev)) ∧
      (Looks h → NoneToWrite h dev → h.forceRecycle = true → dev.vfp.freeze = true → dev.vfp.fzList = [])

instance : Decidable (Reaches h dev) := inferInstanceAs (Decidable (_ ∧ _ ∧ _ ∧ _))

instance : Decidable (NoneToWrite h dev) := inferInstanceAs (Decidable (_ ∧ _))

instance : Decidable (Readable dev) := inferInstanceAs (Decidable (_ ∨ _))

instance : Decidable (Looks h) := inferInstanceAs (Decidable (_ ∧ _ ∧ _))

instance : Decidable (CleanIsr h dev) := inferInstanceAs (Decidable (_ → _))

def Clean (s : Sys) : Op → Prop
  | .isr h => CleanIsr h s.dev
  | _ => True

instance {op : Op} : Decidable (Clean s op) :=
  match op with
  | .isr h => inferInstanceAs (Decidable (CleanIsr h s.dev))
  | .get | .put _ | .freeze _ | .unfreeze => inferInstanceAs (Decidable True)

def CleanRun : Sys → List Op → Prop
  | _, [] => True
  | s, op :: ops => Clean s op ∧ ∀ s', s.step op = some s' → CleanRun s' ops

instance decidableCleanRun : (s : Sys) → (ops : List Op) → Decidable (CleanRun s ops)
  | _, [] => inferInstanceAs (Decidable True)
  | s, op :: ops =>
    have : Decidable (∀ s', s.step op = some s' → CleanRun s' ops) :=
      match s.step op with
      | none => isTrue nofun
      | some s' =>
        have := decidableCleanRun s' ops
        decidable_of_iff (CleanRun s' ops) ⟨fun h _ heq => Option.some.inj heq ▸ h, fun h => h s' rfl⟩
    inferInstanceAs (Decidable (_ ∧ _))

/-! ## Invariant of a run -/

def inHand (dev : VdinDev) : List Nat := dev.currWrVfe.toList ++ dev.lastWrVfe.toList

structure DevInv (dev : VdinDev) (held got : List Nat) : Prop where
  pool : PoolInv dev.vfp (inHand dev) held
  ordered : Ordered dev.vfp.entered dev.vfp.rdList got

theorem DevInv.ok (hinv : DevInv s.dev s.held s.got) : Ok s := by
  refine ⟨fun e he => ?_, hinv.ordered.got_sublist⟩
  have howner := hinv.pool.owner e
  rw [if_pos he, inHand, count_append] at howner
  rw [owners]
  omega

theorem Fresh.inv (hfresh : Fresh s) : DevInv s.dev s.held s.got := by
  constructor
  · constructor
    · intro e
      rw [inLists, inHand, hfresh.rdList, hfresh.tmpList, hfresh.fzList, hfresh.currWrVfe, hfresh.lastWrVfe, hfresh.held,
        hfresh.writable.count_eq, count_range]
      simp
    · exact hfresh.normal
    · exact hfresh.wtList
    · simp [hfresh.fzList]
    · intro e he hflag
      rw [hfresh.freezed e he] at hflag
      cases hflag
  · rw [hfresh.rdList, hfresh.got]
    exact .empty _

/-! ## The interrupt -/

theorem setLast_inv {held : List Nat} (hpool : PoolInv dev.vfp curr.toList held) (hlast : dev.lastWrVfe = none) :
    PoolInv (setLast dev curr).vfp (setLast dev curr).lastWrVfe.toList held ∧
      (setLast dev curr).vfp.wrList = dev.vfp.wrList ∧ (setLast dev curr).vfp.rdList = dev.vfp.rdList ∧
      (setLast dev curr).vfp.entered = dev.vfp.entered := by
  cases curr with
  | none =>
    simp only [setLast, hlast]
    exact ⟨hpool, trivial, trivial, trivial⟩
  | some c =>
    have hlt : c < dev.vfp.size := hpool.hand_lt mem_cons_self
    have hsame : Function.update dev.vfp.normal c true = dev.vfp.normal := by rw [← hpool.normal c hlt, Function.update_eq_self]
    simp only [setLast, hsame]
    exact ⟨hpool, trivial, trivial, trivial⟩

theorem isrAdvance_inv {held got : List Nat} (hpool : PoolInv dev.vfp curr.toList held)
    (hordered : Ordered dev.vfp.entered dev.vfp.rdList got) (hlast : dev.lastWrVfe = none) (hnext : providerVfPeek dev.vfp ≠ none) :
    ∃ dev', isrAdvance h dev curr = some dev' ∧ DevInv dev' held got := by
  obtain ⟨hset, hwr, hrd, hentered⟩ := setLast_inv hpool hlast
  obtain ⟨next, hsome⟩ := Option.ne_none_iff_exists'.mp hnext
  have hget : (providerVfGet (setLast dev curr).vfp).1 = some next := by
    rw [← hsome]
    simp [providerVfGet, vfPoolGet, providerVfPeek, vfPoolPeek, hwr]
  refine ⟨_, by simp only [isrAdvance, hget]; rfl, ?_, ?_⟩
  · simpa [inHand] using providerVfGet_inv hset hget
  · simpa [providerVfGet, hrd, hentered] using hordered

theorem force_inv {x : Nat} {held got : List Nat} (hpool : PoolInv p hands held) (hordered : Ordered p.entered p.rdList got)
    (hfreeze : p.freeze = false) (hget : (receiverVfGet p).1 = some x) :
    PoolInv (receiverVfPut x (receiverVfGet p).2) hands held ∧
      Ordered (receiverVfPut x (receiverVfGet p).2).entered (receiverVfPut x (receiverVfGet p).2).rdList got ∧
      providerVfPeek (receiverVfPut x (receiverVfGet p).2) ≠ none := by
  have hheld := receiverVfGet_inv hpool hget
  have hlt := hheld.held_lt mem_cons_self
  refine ⟨receiverVfPut_inv hheld, ?_⟩
  rw [receiverVfPut_eq hlt (hheld.normal x hlt)]
  simp only [receiverVfGet, hfreeze, vfPoolGet, providerVfPeek, vfPoolPeek]
  simp [hordered.leave (dropLast_sublist p.rdList)]

theorem force_frozen {x : Nat} {held : List Nat} (hpool : PoolInv p hands held) (hfreeze : p.freeze = true)
    (hget : (receiverVfGet p).1 = some x) : providerVfPeek (receiverVfPut x (receiverVfGet p).2) = providerVfPeek p := by
  have hheld := receiverVfGet_inv hpool hget
  have hlt := hheld.held_lt mem_cons_self
  have hflag : p.freezed x = true := by
    apply hpool.frozen
    rw [receiverVfGet, hfreeze, if_pos rfl] at hget
    exact mem_of_getLast? hget
  rw [receiverVfPut_eq hlt (hheld.normal x hlt)]
  simp [receiverVfGet, hfreeze, hflag, providerVfPeek]

theorem isrNext_cases (h : Hooks) (dev : VdinDev) (curr : Option Nat) : (isrNext h dev curr = .handled dev ∧
        (h.checkFrameSkip = some true ∨
          (providerVfPeek dev.vfp = none ∧ (h.forceRecycle = false ∨ (receiverVfGet dev.vfp).1 = none)))) ∨
      (isrNext h dev curr = .advance dev curr ∧ h.checkFrameSkip ≠ some true ∧ providerVfPeek dev.vfp ≠ none) ∨
      ∃ x, isrNext h dev curr = .advance { dev with vfp := receiverVfPut x (receiverVfGet dev.vfp).2 } curr ∧
        h.checkFrameSkip ≠ some true ∧ providerVfPeek dev.vfp = none ∧ h.forceRecycle = true ∧
        (receiverVfGet dev.vfp).1 = some x := by
  unfold isrNext
  by_cases hskip : h.checkFrameSkip = some true
  · left
    simp [hskip]
  cases hpeek : providerVfPeek dev.vfp with
  | some n =>
    right
    left
    simp [hskip]
  | none =>
    cases hforce : h.forceRecycle with
    | false =>
      left
      simp [hskip]
    | true =>
      cases hget : (receiverVfGet dev.vfp).1 with
      | none =>
        left
        simp [hskip]
      | some x =>
        right
        right
        exact ⟨x, by simp [hskip], hskip, rfl, rfl, rfl⟩

/-- An interrupt that does not come to the front end. -/
theorem isrSelect_unreached (hinv : DevInv dev s.held s.got) (hnot : ¬ Reaches h dev) :
    ∃ dev', isrSelect h dev = .handled dev' ∧ DevInv dev' s.held s.got := by
  unfold isrSelect
  cases hreset : dev.vdinResetFlag with
  | true => exact ⟨{ dev with vdinResetFlag := false }, by simp, hinv.pool, hinv.ordered⟩
  | false =>
    cases hstarted : h.decStarted with
    | false => exact ⟨dev, by simp, hinv⟩
    | true =>
      cases hcurr : dev.currWrVfe with
      | none =>
        refine ⟨_, by simp; rfl, ?_⟩
        cases hget : (providerVfGet dev.vfp).1 with
        | none =>
          rw [providerVfGet_none hget]
          refine ⟨?_, hinv.ordered⟩
          simpa [inHand, hcurr] using hinv.pool
        | some x =>
          refine ⟨?_, hinv.ordered⟩
          have hpool := hinv.pool
          simp only [inHand, hcurr, Option.toList_none, nil_append] at hpool
          simpa [inHand] using providerVfGet_inv hpool hget
      | some c =>
        have hwrite : h.checksWriteDone = true ∧ h.writeDone = false := by
          by_contra hwrite
          exact hnot ⟨hreset, hstarted, by simp [hcurr], hwrite⟩
        refine ⟨{ dev with vdinResetFlag := h.vsyncResetMif }, by simp [hwrite, hcurr], ?_, hinv.ordered⟩
        simpa [inHand, hcurr] using hinv.pool

theorem isrSelect_reached {c : Nat} (hreaches : Reaches h dev) (hcurr : dev.currWrVfe = some c) :
    isrSelect h dev = isrDecode h (putLast { dev with vdinResetFlag := h.vsyncResetMif }) c := by
  obtain ⟨hreset, hstarted, -, hwrite⟩ := hreaches
  have hdone : ¬ (h.checksWriteDone = true ∧ ¬ h.writeDone = true) := by simpa using hwrite
  unfold isrSelect
  simp only [hreset, hstarted, hcurr]
  rw [if_neg (by simp), if_neg (by simp), if_neg hdone]

/-- The device after the last written entry went to the read list. -/
structure Written (dev dev' : VdinDev) (c : Nat) (held got : List Nat) : Prop where
  pool : PoolInv dev'.vfp [c] held
  ordered : Ordered dev'.vfp.entered dev'.vfp.rdList got
  currWrVfe : dev'.currWrVfe = some c
  lastWrVfe : dev'.lastWrVfe = none
  wrList : dev'.vfp.wrList = dev.vfp.wrList
  tmpList : dev'.vfp.tmpList = dev.vfp.tmpList
  fzList : dev'.vfp.fzList = dev.vfp.fzList
  freeze : dev'.vfp.freeze = dev.vfp.freeze
  rdList : dev'.vfp.rdList ≠ [] ↔ Readable dev

theorem putLast_written {c : Nat} {held got : List Nat} (hinv : DevInv dev held got) (hcurr : dev.currWrVfe = some c) (reset : Bool) :
    Written dev (putLast { dev with vdinResetFlag := reset }) c held got := by
  have hpool := hinv.pool
  cases hlast : dev.lastWrVfe with
  | none =>
    simp only [inHand, hcurr, hlast, Option.toList_some, Option.toList_none, append_nil] at hpool
    simp only [putLast]
    exact ⟨hpool, hinv.ordered, hcurr, rfl, rfl, rfl, rfl, rfl, by simp [Readable, hlast]⟩
  | some last =>
    simp only [inHand, hcurr, hlast, Option.toList_some, singleton_append] at hpool
    simp only [putLast]
    have hput := providerVfPut_inv (hpool.hands_perm (List.Perm.swap c last []))
    exact ⟨hput, hinv.ordered.enter last, hcurr, rfl, rfl, rfl, rfl, rfl, by simp [Readable, hlast, providerVfPut, vfPoolPut]⟩

/-- The device after the front end reserved its current entry. -/
def reserved (dev : VdinDev) (c : Nat) : VdinDev := { dev with vfp := tmpVfPut c (recycleTmpVfs dev.vfp) }

variable {dev' : VdinDev} {c : Nat} {held got : List Nat}

theorem isrSelect_written (hinv : DevInv dev held got) (hreaches : Reaches h dev) :
    ∃ dev' c, isrSelect h dev = isrDecode h dev' c ∧ Written dev dev' c held got := by
  obtain ⟨c, hcurr⟩ := Option.ne_none_iff_exists'.mp hreaches.2.2.1
  exact ⟨_, c, isrSelect_reached hreaches hcurr, putLast_written hinv hcurr h.vsyncResetMif⟩

theorem isrDecode_tmp (hdecode : h.decodeIsr = some .tmp) : isrDecode h dev c = isrNext h (reserved dev c) none := by
  simp only [isrDecode, hdecode, reserved]

theorem isrDecode_kept (hskip : h.decodeIsr ≠ some .skip) (hrecycle : h.decodeIsr ≠ some .recycleTmp)
    (htmp : h.decodeIsr ≠ some .tmp) : isrDecode h dev c = isrNext h dev (some c) := by
  rw [isrDecode]
  split
  next hdecode => exact absurd hdecode hskip
  next hdecode => exact absurd hdecode htmp
  next hdecode => exact absurd hdecode hrecycle
  next => rfl

theorem receiverVfGet_eq_none : (receiverVfGet p).1 = none ↔ if p.freeze then p.fzList = [] else p.rdList = [] := by
  unfold receiverVfGet
  split <;> exact getLast?_eq_none_iff

theorem providerVfPeek_eq_none : providerVfPeek p = none ↔ p.wrList = [] := getLast?_eq_none_iff

/-- The interrupt goes well from here: it is done in order, or goes on to a next entry. -/
def StageOk (h : Hooks) (held got : List Nat) : Stage → Prop
  | .handled dev => DevInv dev held got
  | .advance dev curr => providerVfPeek dev.vfp ≠ none ∧ ∃ dev', isrAdvance h dev curr = some dev' ∧ DevInv dev' held got

theorem isrNext_ok (hpool : PoolInv dev.vfp curr.toList held) (hordered : Ordered dev.vfp.entered dev.vfp.rdList got)
    (hlast : dev.lastWrVfe = none) (hstay : isrNext h dev curr = .handled dev → DevInv dev held got)
    (hfrozen : h.checkFrameSkip ≠ some true → providerVfPeek dev.vfp = none → h.forceRecycle = true → dev.vfp.freeze = true →
      dev.vfp.fzList = []) : StageOk h held got (isrNext h dev curr) := by
  rcases isrNext_cases h dev curr with ⟨heq, -⟩ | ⟨heq, -, hnext⟩ | ⟨x, heq, hskip, hpeek, hforce, hget⟩
  · rw [heq]
    exact hstay heq
  · rw [heq]
    exact ⟨hnext, isrAdvance_inv hpool hordered hlast hnext⟩
  have hfreeze : dev.vfp.freeze = false := by
    cases hfreeze : dev.vfp.freeze with
    | false => rfl
    | true =>
      have hnone : (receiverVfGet dev.vfp).1 = none := by
        rw [receiverVfGet_eq_none, hfreeze, if_pos rfl]
        exact hfrozen hskip hpeek hforce hfreeze
      rw [hget] at hnone
      cases hnone
  obtain ⟨hpool', hordered', hnext⟩ := force_inv hpool hordered hfreeze hget
  rw [heq]
  exact ⟨hnext, isrAdvance_inv hpool' hordered' hlast hnext⟩

section Written
variable (hwritten : Written dev dev' c held got)
include hwritten

theorem Written.reserved_inv : PoolInv (reserved dev' c).vfp [] held :=
  tmpVfPut_inv (recycleTmpVfs_inv hwritten.pool)

theorem Written.reserved_vfp : (reserved dev' c).vfp =
      { dev'.vfp with wrList := dev.vfp.tmpList.reverse ++ dev.vfp.wrList, tmpList := [c] } := by
  rw [reserved, recycleTmpVfs_eq hwritten.pool, hwritten.tmpList, hwritten.wrList]
  rfl

theorem Written.reserved_freeze : (reserved dev' c).vfp.freeze = dev.vfp.freeze := by
  rw [hwritten.reserved_vfp]
  exact hwritten.freeze

theorem Written.reserved_peek (hdecode : h.decodeIsr = some .tmp) :
    providerVfPeek (reserved dev' c).vfp = none ↔ NoneToWrite h dev := by
  rw [providerVfPeek, vfPoolPeek, getLast?_eq_none_iff, hwritten.reserved_vfp, append_eq_nil_iff,
    reverse_eq_nil_iff, NoneToWrite]
  simp [hdecode, and_comm]

theorem Written.devInv : DevInv dev' held got := by
  refine ⟨?_, hwritten.ordered⟩
  rw [inHand, hwritten.currWrVfe, hwritten.lastWrVfe]
  exact hwritten.pool

theorem Written.kept_ok
    (hforce : h.checkFrameSkip ≠ some true → dev.vfp.wrList = [] → h.forceRecycle = true → dev.vfp.freeze = true →
      dev.vfp.fzList = []) : StageOk h held got (isrNext h dev' (some c)) := by
  apply isrNext_ok hwritten.pool hwritten.ordered hwritten.lastWrVfe (fun _ => hwritten.devInv)
  intro hskip hpeek hf hfreeze
  rw [providerVfPeek_eq_none, hwritten.wrList] at hpeek
  rw [hwritten.freeze] at hfreeze
  rw [hwritten.fzList]
  exact hforce hskip hpeek hf hfreeze

theorem Written.reserved_ok (hdecode : h.decodeIsr = some .tmp)
    (hskip : h.checkFrameSkip ≠ some true)
    (hnext : NoneToWrite h dev → h.forceRecycle = true ∧ dev.vfp.freeze = false ∧ Readable dev) :
    StageOk h held got (isrNext h (reserved dev' c) none) := by
  have hvfp := hwritten.reserved_vfp
  have hnone := (hwritten.reserved_peek hdecode).mp
  have hfreeze := hwritten.reserved_freeze
  have hrd : (reserved dev' c).vfp.rdList = dev'.vfp.rdList := by rw [hvfp]
  apply isrNext_ok hwritten.reserved_inv
  · rw [hvfp]
    exact hwritten.ordered
  · exact hwritten.lastWrVfe
  · intro hhandled
    -- without force, or with nothing to recycle, the entry would be reserved and current
    rcases isrNext_cases h (reserved dev' c) none with ⟨-, hcase⟩ | ⟨heq, -⟩ | ⟨x, heq, -⟩
    · rcases hcase with hcase | ⟨hpeek, hcase⟩
      · exact absurd hcase hskip
      obtain ⟨hforce, hunfrozen, hreadable⟩ := hnext (hnone hpeek)
      rcases hcase with hcase | hcase
      · rw [hforce] at hcase
        cases hcase
      · rw [receiverVfGet_eq_none, hfreeze, hunfrozen, hrd] at hcase
        exact absurd (by simpa using hcase) (hwritten.rdList.mpr hreadable)
    · rw [heq] at hhandled
      cases hhandled
    · rw [heq] at hhandled
      cases hhandled
  · intro _ hpeek _ hfrozen
    rw [hfreeze, (hnext (hnone hpeek)).2.1] at hfrozen
    cases hfrozen

theorem Written.reserved_twice {s' : Sys} (hdev : s'.dev = reserved dev' c) : ¬ Ok s' := by
  intro hok
  have hlt : c < dev'.vfp.size := hwritten.pool.hand_lt mem_cons_self
  have hvfp := hwritten.reserved_vfp
  have howner := hok.1 c (by rw [hdev, hvfp]; exact hlt)
  have hcurr : (reserved dev' c).currWrVfe = some c := hwritten.currWrVfe
  have htmp : (reserved dev' c).vfp.tmpList = [c] := by rw [hvfp]
  rw [owners, inLists, hdev, hcurr, htmp, Option.toList_some, count_singleton_self] at howner
  omega

end Written

theorem isrNext_missing (hpool : PoolInv dev.vfp hands held) (hskip : h.checkFrameSkip ≠ some true)
    (hpeek : providerVfPeek dev.vfp = none) (hforce : h.forceRecycle = true) (hfreeze : dev.vfp.freeze = true)
    (hfz : dev.vfp.fzList ≠ []) : ∃ dev', isrNext h dev curr = .advance dev' curr ∧ providerVfPeek dev'.vfp = none := by
  rcases isrNext_cases h dev curr with ⟨-, hcase⟩ | ⟨-, -, hnext⟩ | ⟨x, heq, -, -, -, hget⟩
  · rcases hcase with hcase | ⟨-, hcase | hcase⟩
    · exact absurd hcase hskip
    · rw [hforce] at hcase
      cases hcase
    · rw [receiverVfGet_eq_none, hfreeze, if_pos rfl] at hcase
      exact absurd hcase hfz
  · exact absurd hpeek hnext
  · exact ⟨_, heq, (force_frozen hpool hfreeze hget).trans hpeek⟩

theorem not_nextThere {dev' : VdinDev} (hselect : isrSelect h s.dev = .advance dev' curr) (hpeek : providerVfPeek dev'.vfp = none) :
    ¬ NextThere s (.isr h) := fun hnext => hnext dev' curr hselect hpeek

theorem RunOk.ok {ops : List Op} (h : RunOk s ops) : Ok s := by
  cases ops with
  | nil => exact h
  | cons op ops => exact h.1

section Inv
variable (hinv : DevInv s.dev s.held s.got)
include hinv

theorem isrSelect_clean (hclean : CleanIsr h s.dev) : StageOk h s.held s.got (isrSelect h s.dev) := by
  by_cases hreaches : Reaches h s.dev
  · obtain ⟨htmp, hforce⟩ := hclean hreaches
    obtain ⟨dev', c, hselect, hwritten⟩ := isrSelect_written hinv hreaches
    rw [hselect]
    by_cases hdecode : h.decodeIsr = some .tmp
    · rw [isrDecode_tmp hdecode]
      exact hwritten.reserved_ok hdecode (htmp hdecode).1 (htmp hdecode).2
    by_cases hskip : h.decodeIsr = some .skip
    · rw [isrDecode, hskip]
      exact hwritten.devInv
    by_cases hrecycle : h.decodeIsr = some .recycleTmp
    · have hloop := tmpToRd_loop hwritten.pool hwritten.ordered rfl
      rw [isrDecode, hrecycle]
      refine ⟨?_, hloop.2⟩
      rw [inHand, hwritten.currWrVfe, hwritten.lastWrVfe]
      exact hloop.1
    rw [isrDecode_kept hskip hrecycle hdecode]
    exact hwritten.kept_ok fun hgo hnil => hforce ⟨hskip, hrecycle, hgo⟩ ⟨hnil, fun hd => absurd hd hdecode⟩
  · obtain ⟨dev', heq, hinv'⟩ := isrSelect_unreached hinv hreaches
    rw [heq]
    exact hinv'

/-! ## What goes wrong otherwise -/

theorem isr_frozen_missing (hreaches : Reaches h s.dev) (hlooks : Looks h)
    (hnone : NoneToWrite h s.dev) (hforce : h.forceRecycle = true) (hfreeze : s.dev.vfp.freeze = true)
    (hfz : s.dev.vfp.fzList ≠ []) : ¬ NextThere s (.isr h) := by
  obtain ⟨dev', c, hselect, hwritten⟩ := isrSelect_written hinv hreaches
  by_cases hdecode : h.decodeIsr = some .tmp
  · have hfz' : (reserved dev' c).vfp.fzList ≠ [] := by
      rw [hwritten.reserved_vfp]
      exact hwritten.fzList ▸ hfz
    obtain ⟨dev'', heq, hpeek⟩ : ∃ d, isrNext h _ none = .advance d none ∧ _ := isrNext_missing hwritten.reserved_inv hlooks.2.2
      ((hwritten.reserved_peek hdecode).mpr hnone) hforce (hwritten.reserved_freeze.trans hfreeze) hfz'
    rw [isrDecode_tmp hdecode] at hselect
    exact not_nextThere (hselect.trans heq) hpeek
  · have hpeek : providerVfPeek dev'.vfp = none := by
      rw [providerVfPeek_eq_none, hwritten.wrList]
      exact hnone.1
    obtain ⟨dev'', heq, hpeek'⟩ : ∃ d, isrNext h _ (some c) = .advance d _ ∧ _ := isrNext_missing hwritten.pool hlooks.2.2 hpeek
      hforce (hwritten.freeze.trans hfreeze) (hwritten.fzList ▸ hfz)
    rw [isrDecode_kept hlooks.1 hlooks.2.1 hdecode] at hselect
    exact not_nextThere (hselect.trans heq) hpeek'

/-- An entry is reserved without a next one to take its place. -/
theorem isr_reserved_twice (hreaches : Reaches h s.dev) (hdecode : h.decodeIsr = some .tmp)
    (hnot : ¬ (h.checkFrameSkip ≠ some true ∧
      (NoneToWrite h s.dev → h.forceRecycle = true ∧ s.dev.vfp.freeze = false ∧ Readable s.dev))) :
    ¬ (NextThere s (.isr h) ∧ ∀ s', s.step (.isr h) = some s' → Ok s') := by
  obtain ⟨dev', c, hselect, hwritten⟩ := isrSelect_written hinv hreaches
  rw [isrDecode_tmp hdecode] at hselect
  rintro ⟨hnext, hok⟩
  rcases isrNext_cases h (reserved dev' c) none with ⟨heq, -⟩ | ⟨-, hskip, hpeek⟩ | ⟨x, heq, hskip, hpeek, hforce, hget⟩
  · have hstep : s.step (.isr h) = some { s with dev := reserved dev' c } := by
      simp only [Sys.step, vdinV4l2Isr, hselect, heq, Option.map_some]
    exact hwritten.reserved_twice rfl (hok _ hstep)
  · refine hnot ⟨hskip, fun hnone => ?_⟩
    exact absurd ((hwritten.reserved_peek hdecode).mpr hnone) hpeek
  cases hfreeze : s.dev.vfp.freeze with
  | true =>
    have hmissing := force_frozen hwritten.reserved_inv (hwritten.reserved_freeze.trans hfreeze) hget
    exact not_nextThere (hselect.trans heq) (hmissing.trans hpeek) hnext
  | false =>
    refine hnot ⟨hskip, fun _ => ⟨hforce, hfreeze, hwritten.rdList.mp fun hnil => ?_⟩⟩
    have hnone : (receiverVfGet (reserved dev' c).vfp).1 = none := by
      rw [receiverVfGet_eq_none, hwritten.reserved_freeze, hfreeze, hwritten.reserved_vfp]
      simpa using hnil
    rw [hget] at hnone
    cases hnone

/-! ## Steps -/

theorem isr_step (hclean : CleanIsr h s.dev) :
    NextThere s (.isr h) ∧ ∃ s', s.step (.isr h) = some s' ∧ DevInv s'.dev s'.held s'.got := by
  have hok := isrSelect_clean hinv hclean
  simp only [NextThere, Sys.step, vdinV4l2Isr]
  cases hselect : isrSelect h s.dev with
  | handled dev' =>
    rw [hselect] at hok
    constructor
    · rintro d c ⟨⟩
    · exact ⟨_, rfl, hok⟩
  | advance dev' curr =>
    rw [hselect] at hok
    obtain ⟨hpeek, dev'', hadvance, hinv'⟩ := hok
    constructor
    · rintro d c ⟨⟩
      exact hpeek
    · exact ⟨{ s with dev := dev'' }, by simp [hadvance], hinv'⟩

/-- A clean operation keeps the invariant and has a next entry. -/
theorem step_clean {op : Op} (hclean : Clean s op) :
    NextThere s op ∧ ∃ s', s.step op = some s' ∧ DevInv s'.dev s'.held s'.got := by
  cases op with
  | isr h => exact isr_step hinv hclean
  | get =>
    refine ⟨trivial, ?_⟩
    simp only [Sys.step]
    cases hget : (receiverVfGet s.dev.vfp).1 with
    | none => exact ⟨s, rfl, hinv⟩
    | some x =>
      refine ⟨_, rfl, receiverVfGet_inv hinv.pool hget, ?_⟩
      simp only [receiverVfGet] at hget ⊢
      cases hfreeze : s.dev.vfp.freeze with
      | true => exact hinv.ordered
      | false =>
        rw [hfreeze] at hget
        obtain ⟨init, hinit⟩ := getLast?_eq_some_iff.mp hget
        have hordered := hinv.ordered
        rw [hinit] at hordered
        simpa [vfPoolGet, hinit] using hordered.get
  | put k =>
    refine ⟨trivial, ?_⟩
    simp only [Sys.step]
    cases hk : s.held[k]? with
    | none => exact ⟨s, rfl, hinv⟩
    | some x =>
      obtain ⟨hlt, hx⟩ := List.getElem?_eq_some_iff.mp hk
      have hperm := getElem_cons_eraseIdx_perm hlt
      rw [hx] at hperm
      have hheld := hinv.pool.held_perm hperm
      have hxlt := hheld.held_lt mem_cons_self
      refine ⟨_, rfl, receiverVfPut_inv hheld, ?_⟩
      rw [receiverVfPut_eq hxlt (hheld.normal x hxlt)]
      split <;> exact hinv.ordered
  | freeze num =>
    obtain ⟨hpool, hordered⟩ := vdinVfFreeze_inv hinv.pool hinv.ordered
    exact ⟨trivial, _, rfl, hpool, hordered⟩
  | unfreeze =>
    obtain ⟨hpool, hentered, hrd⟩ := vdinVfUnfreeze_inv hinv.pool
    refine ⟨trivial, _, rfl, hpool, ?_⟩
    rw [hentered, hrd]
    exact hinv.ordered

theorem clean_of_step {op : Op}
    (hok : NextThere s op ∧ ∀ s', s.step op = some s' → Ok s') : Clean s op := by
  cases op with
  | isr h =>
    intro hreaches
    constructor
    · intro hdecode
      by_contra hnot
      exact isr_reserved_twice hinv hreaches hdecode hnot hok
    · intro hlooks hnone hforce hfreeze
      by_contra hfz
      exact isr_frozen_missing hinv hreaches hlooks hnone hforce hfreeze hfz hok.1
  | get | put k => trivial
  | freeze num | unfreeze => trivial

theorem runOk_iff {ops : List Op} : RunOk s ops ↔ CleanRun s ops := by
  induction ops generalizing s with
  | nil => exact ⟨fun _ => trivial, fun _ => hinv.ok⟩
  | cons op ops ih =>
    have hrun (hclean : Clean s op) (s') (hs : s.step op = some s') : RunOk s' ops ↔ CleanRun s' ops := by
      obtain ⟨-, s'', hstep, hinv'⟩ := step_clean hinv hclean
      obtain rfl := Option.some.inj (hstep.symm.trans hs)
      exact ih hinv'
    constructor
    · rintro ⟨-, hnext, hrest⟩
      have hclean := clean_of_step hinv ⟨hnext, fun s' hs => (hrest s' hs).ok⟩
      exact ⟨hclean, fun s' hs => (hrun hclean s' hs).mp (hrest s' hs)⟩
    · rintro ⟨hclean, hrest⟩
      exact ⟨hinv.ok, (step_clean hinv hclean).1, fun s' hs => (hrun hclean s' hs).mpr (hrest s' hs)⟩

end Inv

/-- From a pool whose entries are all in the write list, a run keeps one owner for each entry, the order of the read list and
a next entry for every interrupt that goes on, exactly if every interrupt in it is clean. -/
theorem one_owner_iff (hfresh : Fresh s) (ops : List Op) : RunOk s ops ↔ CleanRun s ops := runOk_iff hfresh.inv

/-! ## Pools of `vf_pool_init` -/

/-- A device that starts with a pool. -/
def started (p : VfPool) (size : Nat) : Sys := ⟨⟨(vfPoolInit p size).2, none, none, false⟩, [], []⟩

theorem foldl_put (n : Nat) : (List.range n).foldl (fun l i => vfPoolPut i l) [] = (List.range n).reverse := by
  simp [vfPoolPut]

theorem started_fresh {size : Nat} (hsize : size ≤ p.maxSize) : Fresh (started p size) := by
  have hinit : ¬ size > p.maxSize := Nat.not_lt.mpr hsize
  have hvfp : (started p size).dev.vfp = (vfPoolInit p size).2 := rfl
  constructor
  case writable =>
    simp only [hvfp, vfPoolInit, if_neg hinit, foldl_put]
    exact reverse_perm _
  case normal =>
    intro e he
    simp only [hvfp, vfPoolInit, if_neg hinit] at he ⊢
    rw [if_pos he]
  case freezed =>
    intro e he
    simp only [hvfp, vfPoolInit, if_neg hinit] at he ⊢
    rw [if_pos he]
  all_goals simp [started, vfPoolInit, hinit]

/-- A pool as `vf_pool_alloc` leaves it. -/
def allocated (maxSize : Nat) : VfPool := ⟨maxSize, 0, false, [], [], [], [], [], 0, fun _ => false, fun _ => false, []⟩

/-- An interrupt of a camera that has written its frame. -/
def plainHooks : Hooks := ⟨true, false, true, true, none, none, false, 0⟩

/-- Three frames are captured, one of them while the pool is frozen, and the receiver gets and puts. -/
def plainRun : List Op :=
  [.isr plainHooks, .isr plainHooks, .isr plainHooks, .get, .freeze 1, .isr { plainHooks with decodeIsr := some .tmp }, .get, .put 1,
    .unfreeze, .isr plainHooks, .get]

theorem plain_run_ok : Fresh (started (allocated 6) 6) ∧ CleanRun (started (allocated 6) 6) plainRun ∧ RunOk (started (allocated 6) 6) plainRun := by
  have hfresh : Fresh (started (allocated 6) 6) := started_fresh (Nat.le_refl 6)
  have hclean : CleanRun (started (allocated 6) 6) plainRun := by decide +kernel
  exact ⟨hfresh, hclean, (one_owner_iff hfresh plainRun).mpr hclean⟩

/-- With two entries, one current and one frozen, a forced interrupt reads through a missing entry. With one entry, a front
end that reserves it leaves it reserved and current. -/
theorem missing_and_twice : Fresh (started (allocated 2) 2) ∧
      ((started (allocated 2) 2).step (.isr plainHooks) >>= fun s => s.step (.freeze 1) >>= fun s =>
          s.step (.isr { plainHooks with forceRecycle := true })).isNone = true ∧
      ¬ RunOk (started (allocated 2) 2) [.isr plainHooks, .freeze 1, .isr { plainHooks with forceRecycle := true }] ∧
      Fresh (started (allocated 1) 1) ∧
      ((started (allocated 1) 1).step (.isr plainHooks) >>= fun s =>
          s.step (.isr { plainHooks with decodeIsr := some .tmp })).map (owners · 0) = some 2 ∧
      ¬ RunOk (started (allocated 1) 1) [.isr plainHooks, .isr { plainHooks with decodeIsr := some .tmp }] := by
  have htwo : Fresh (started (allocated 2) 2) := started_fresh (Nat.le_refl 2)
  have hone : Fresh (started (allocated 1) 1) := started_fresh (Nat.le_refl 1)
  refine ⟨htwo, by decide +kernel, ?_, hone, by decide +kernel, ?_⟩
  · rw [runOk_iff htwo.inv]
    decide +kernel
  · rw [runOk_iff hone.inv]
    decide +kernel

end AmlogicV901d.Guarantees.CaptureBuffers
