import Mathlib.Logic.Function.Basic

/-!
# Capture buffers

`media/vin/tvin/vdin/vdin_vf.c` and the interrupt `vdin_v4l2_isr` of `vdin_drv.c`. An entry
of the pool is its number in the array of masters, which is also the `index` of its frame. A
list is written from its head on; entries are put at the head and got from the tail. Adding
an entry to a list that is still in another one is not guarded against, and would tangle the
lists.

`entered` is no field of the pool: it is the history of `provider_vf_put`.
-/
namespace AmlogicV901d.Source.Vdin

structure VfPool where
  maxSize : Nat
  size : Nat
  freeze : Bool
  wrList : List Nat
  rdList : List Nat
  wtList : List Nat
  fzList : List Nat
  tmpList : List Nat
  fzListSize : Nat
  normal : Nat → Bool
  freezed : Nat → Bool
  entered : List Nat

/-! ## Lists -/

def vfPoolPeek (head : List Nat) : Option Nat := head.getLast?

def vfPoolGet (head : List Nat) : Option Nat × List Nat := (head.getLast?, head.dropLast)

def vfPoolPut (vfe : Nat) (head : List Nat) : List Nat := vfe :: head

/-- `vf_pool_init`: -1 for a pool that is too small. -/
def vfPoolInit (p : VfPool) (size : Nat) : Int × VfPool :=
  if size > p.maxSize then (-1, p)
  else
    (0, { p with
        size
        freeze := false
        wrList := (List.range size).foldl (fun l i => vfPoolPut i l) []
        rdList := []
        wtList := []
        fzList := []
        tmpList := []
        fzListSize := 0
        normal := fun e => if e < size then true else p.normal e
        freezed := fun e => if e < size then false else p.freezed e })

/-! ## The provider and the receiver -/

def providerVfPeek (p : VfPool) : Option Nat := vfPoolPeek p.wrList

def providerVfGet (p : VfPool) : Option Nat × VfPool := ((vfPoolGet p.wrList).1, { p with wrList := (vfPoolGet p.wrList).2 })

def providerVfPut (vfe : Nat) (p : VfPool) : VfPool :=
  { p with rdList := vfPoolPut vfe p.rdList, entered := p.entered ++ [vfe] }

def receiverVfGet (p : VfPool) : Option Nat × VfPool :=
  if p.freeze then ((vfPoolGet p.fzList).1, { p with fzList := (vfPoolGet p.fzList).2 })
  else ((vfPoolGet p.rdList).1, { p with rdList := (vfPoolGet p.rdList).2 })

/-- The part of `receiver_vf_put` for a frame that does not go back to the frozen list. -/
def recycle (vfe : Nat) (p : VfPool) : VfPool :=
  if p.normal vfe then { p with wrList := vfPoolPut vfe p.wrList }
  else if vfe ∈ p.wtList then { p with wtList := p.wtList.erase vfe, wrList := vfPoolPut vfe p.wrList }
  else { p with wtList := vfe :: p.wtList }

def receiverVfPut (vfe : Nat) (p : VfPool) : VfPool :=
  -- `check_vf_put`
  if ¬ vfe < p.size then p
  else if p.freezed vfe then
    if p.freeze then { p with fzList := vfPoolPut vfe p.fzList }
    else recycle vfe { p with freezed := Function.update p.freezed vfe false }
  else recycle vfe p

/-! ## The temporary list -/

def recycleTmpVfs (p : VfPool) : VfPool :=
  p.tmpList.foldl (fun p pos => receiverVfPut pos { p with tmpList := p.tmpList.erase pos }) p

def tmpVfPut (vfe : Nat) (p : VfPool) : VfPool := { p with tmpList := vfPoolPut vfe p.tmpList }

def tmpToRd (p : VfPool) : VfPool :=
  p.tmpList.foldl (fun p pos => providerVfPut pos { p with tmpList := p.tmpList.erase pos }) p

/-! ## Freezing -/

/-- The loop over the read list, from its head. -/
def freezeRd (num : Nat) : List Nat → VfPool → VfPool
  | [], p => p
  | vfe :: rest, p =>
    let p :=
      { p with
        rdList := p.rdList.erase vfe
        fzList := p.fzList ++ [vfe]
        freezed := Function.update p.freezed vfe true
        fzListSize := p.fzListSize + 1 }
    if p.fzListSize ≥ num then p else freezeRd num rest p

/-- The loop over the write list; the list to go over is its reverse. -/
def freezeWr (num : Nat) : List Nat → VfPool → VfPool
  | [], p => p
  | vfe :: rest, p =>
    let p :=
      { p with
        wrList := p.wrList.erase vfe
        fzList := vfe :: p.fzList
        freezed := Function.update p.freezed vfe true
        fzListSize := p.fzListSize + 1 }
    if p.fzListSize ≥ num then p else freezeWr num rest p

def vdinVfFreeze (p : VfPool) (num : Nat) : VfPool :=
  let p := { p with freeze := true }
  if p.fzListSize < num then
    let p := freezeRd num p.rdList p
    if p.fzListSize < num then freezeWr num p.wrList.reverse p else p
  else p

/-- The loop of `vdin_vf_unfreeze`. -/
def unfreezeAll : List Nat → VfPool → VfPool
  | [], p => p
  | vfe :: rest, p =>
    unfreezeAll rest
      { p with
        fzList := p.fzList.erase vfe
        wrList := p.wrList ++ [vfe]
        freezed := Function.update p.freezed vfe false }

def vdinVfUnfreeze (p : VfPool) : VfPool :=
  if p.fzListSize > 0 then unfreezeAll p.fzList { p with freeze := false, fzListSize := 0 } else p

/-! ## The interrupt -/

structure VdinDev where
  vfp : VfPool
  currWrVfe : Option Nat
  lastWrVfe : Option Nat
  vdinResetFlag : Bool

/-- The results of `decode_isr` that the interrupt tells apart. -/
inductive BufResult where
  | skip | tmp | recycleTmp | other
  deriving DecidableEq

/-- What one interrupt finds: the flags of the device and the results of its hooks. A hook that the front end does not have
is `none`. -/
structure Hooks where
  decStarted : Bool
  vsyncResetMif : Bool
  /-- The port is `TVIN_PORT_VIU1` or `TVIN_PORT_CAMERA`. -/
  checksWriteDone : Bool
  writeDone : Bool
  decodeIsr : Option BufResult
  checkFrameSkip : Option Bool
  forceRecycle : Bool
  afbceMode : Nat

/-- The interrupt up to the next entry: it is done, or goes on with the entry it has written, if that is still its own. -/
inductive Stage where
  | handled (devp : VdinDev)
  | advance (devp : VdinDev) (currWrVfe : Option Nat)

def isrNext (h : Hooks) (devp : VdinDev) (currWrVfe : Option Nat) : Stage :=
  if h.checkFrameSkip = some true then .handled devp
  else
    match providerVfPeek devp.vfp with
    | some _ => .advance devp currWrVfe
    | none =>
      if h.forceRecycle then
        match (receiverVfGet devp.vfp).1 with
        | some vfe => .advance { devp with vfp := receiverVfPut vfe (receiverVfGet devp.vfp).2 } currWrVfe
        | none => .handled devp
      else .handled devp

/-- The last written entry goes to the read list. -/
def putLast (devp : VdinDev) : VdinDev :=
  match devp.lastWrVfe with
  | some vfe => { devp with vfp := providerVfPut vfe devp.vfp, lastWrVfe := none }
  | none => devp

/-- What the front end wants to happen to the current entry. -/
def isrDecode (h : Hooks) (devp : VdinDev) (curr : Nat) : Stage :=
  match h.decodeIsr with
  | some .skip => .handled devp
  | some .tmp => isrNext h { devp with vfp := tmpVfPut curr (recycleTmpVfs devp.vfp) } none
  | some .recycleTmp => .handled { devp with vfp := tmpToRd devp.vfp }
  | _ => isrNext h devp (some curr)

def isrSelect (h : Hooks) (devp : VdinDev) : Stage :=
  if devp.vdinResetFlag then .handled { devp with vdinResetFlag := false }
  else if ¬ h.decStarted then .handled devp
  else
    let devp := { devp with vdinResetFlag := h.vsyncResetMif }
    match devp.currWrVfe with
    | none => .handled { devp with vfp := (providerVfGet devp.vfp).2, currWrVfe := (providerVfGet devp.vfp).1 }
    | some curr =>
      if h.checksWriteDone ∧ ¬ h.writeDone then .handled devp
      else isrDecode h (putLast devp) curr

/-- `last_wr_vfe` and the flag of the entry just written. -/
def setLast (devp : VdinDev) : Option Nat → VdinDev
  | some curr => { devp with vfp := { devp.vfp with normal := Function.update devp.vfp.normal curr true }, lastWrVfe := some curr }
  | none => devp

/-- The interrupt from the next entry on. `none` if it reads through a missing entry. -/
def isrAdvance (h : Hooks) (devp : VdinDev) (currWrVfe : Option Nat) : Option VdinDev :=
  let devp := setLast devp currWrVfe
  let next := (providerVfGet devp.vfp).1
  if next.isNone ∧ h.afbceMode ≤ 1 then none
  else some { devp with vfp := (providerVfGet devp.vfp).2, currWrVfe := next }

def vdinV4l2Isr (h : Hooks) (devp : VdinDev) : Option VdinDev :=
  match isrSelect h devp with
  | .handled devp => some devp
  | .advance devp currWrVfe => isrAdvance h devp currWrVfe

end AmlogicV901d.Source.Vdin
