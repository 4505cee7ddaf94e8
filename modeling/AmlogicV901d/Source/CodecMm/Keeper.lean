/-!
# The keeper of decoded frames

Source: media/common/codec_mm/codec_mm_keeper.c:30-232.

A memory handle is a number, and the references that the keeper has to it are counted
beside the list. The result of the share request and the clock are parameters. The list
has `MAX_KEEP_FRAME` entries; a freed entry keeps its id.
-/
namespace AmlogicV901d.Source.Keeper

def maxKeepFrame : Nat := 16

def startKeepId : Int := 0x9

/-- INT_MAX - 1 -/
def maxKeepId : Int := 0x7ffffffe

/-- MEM_TYPE_CODEC_MM, MEM_TYPE_CODEC_MM_SCATTER and everything else. -/
inductive MemType
  | codecMm
  | codecMmScatter
  | other (value : Int)
  deriving DecidableEq, Repr

structure KeepMemInfo where
  handle : Option Nat
  keepId : Int
  type : MemType
  user : Int32
  delayOnJiffies64 : UInt64
  deriving DecidableEq, Repr

/-- `struct codec_mm_keeper_mgr`, and how often the keeper holds every handle. -/
structure KeeperMgr where
  num : Int
  keepList : List KeepMemInfo
  nextId : Int
  refs : Nat → Int

/-- `codec_mm_keeper_mgr_init` -/
def codecMmKeeperMgrInit : KeeperMgr where
  num := 0
  keepList := List.replicate maxKeepFrame ⟨none, 0, .other 0, 0, 0⟩
  nextId := startKeepId
  refs _ := 0

/-- `codec_mm_request_shared_mem` or `codec_mm_scatter_inc_for_keeper` -/
def share (handle : Nat) (mgr : KeeperMgr) : KeeperMgr :=
  { mgr with refs := fun h => if h = handle then mgr.refs h + 1 else mgr.refs h }

/-- `codec_mm_release_with_check` or `codec_mm_scatter_dec_keeper_user` -/
def release (handle : Nat) (mgr : KeeperMgr) : KeeperMgr :=
  { mgr with refs := fun h => if h = handle then mgr.refs h - 1 else mgr.refs h }

/-! ## Masking -/

/-- The loop over the list: the first free entry so far, and the id of the entry that has the
handle already. -/
def findKeep (memHandle : Nat) : List KeepMemInfo → Nat → Option Nat → Option Nat × Option Int
  | [], _, slot => (slot, none)
  | info :: rest, i, slot =>
    if info.handle = none ∧ slot = none then findKeep memHandle rest (i + 1) (some i)
    else if info.handle = some memHandle then (slot, some info.keepId)
    else findKeep memHandle rest (i + 1) slot

/-- The id that is returned, and whether the reference just taken is given back. -/
def placeKeep (memHandle : Nat) (type : MemType) (keepId : Int) (mgr : KeeperMgr) : Int × KeeperMgr :=
  match findKeep memHandle mgr.keepList 0 none with
  | (_, some same) => (same, release memHandle mgr)
  | (none, none) => (-1, release memHandle mgr)
  | (some slot, none) => (keepId, { mgr with
      num := mgr.num + 1
      keepList := mgr.keepList.modify slot fun info =>
        { info with handle := some memHandle, keepId, type, user := 1 } })

/-- `shared` is the result of the share request. -/
def codecMmKeeperMaskKeepMem (shared : Int) (memHandle : Option Nat) (type : MemType) (mgr : KeeperMgr) :
    Int × KeeperMgr :=
  match memHandle, type with
  | none, _ => (-2, mgr)
  | some _, .other _ => (-3, mgr)
  | some handle, type =>
    if shared < 0 then (-4, mgr)
    else
      let nextId := if mgr.nextId + 1 ≥ maxKeepId then startKeepId else mgr.nextId + 1
      placeKeep handle type mgr.nextId { share handle mgr with nextId }

/-! ## Unmasking -/

/-- `get_jiffies_64() + delayms * HZ / 1000` -/
def delayOn (now : UInt64) (hz delayms : Int) : UInt64 :=
  now + UInt64.ofInt ((Int.bmod (delayms * hz) 0x100000000).tdiv 1000)

/-- The first entry with the id loses a user. -/
def unmaskFirst (keepId : Int) (delay : UInt64) : List KeepMemInfo → List KeepMemInfo
  | [] => []
  | info :: rest =>
    if keepId = info.keepId then { info with user := info.user - 1, delayOnJiffies64 := delay } :: rest
    else info :: unmaskFirst keepId delay rest

def codecMmKeeperUnmaskKeeper (now : UInt64) (hz : Int) (keepId delayms : Int) (mgr : KeeperMgr) : Int × KeeperMgr :=
  if keepId < startKeepId ∨ keepId ≥ maxKeepId then (-1, mgr)
  else (0, { mgr with keepList := unmaskFirst keepId (delayOn now hz delayms) mgr.keepList })

/-! ## The monitor -/

/-- `time_after64` -/
def timeAfter64 (a b : UInt64) : Bool := (b - a).toInt64 < 0

def wantFree (force : Nat) (now : UInt64) (info : KeepMemInfo) : Bool :=
  info.handle.isSome && !decide (info.keepId < 0) &&
    (force == 1 || (force == 2 && decide (info.user ≤ 0)) ||
      (decide (info.user ≤ 0) && timeAfter64 now info.delayOnJiffies64))

/-- `codec_mm_keeper_free_keep` of the entry at `index`. -/
def codecMmKeeperFreeKeep (index : Nat) (mgr : KeeperMgr) : KeeperMgr :=
  match mgr.keepList[index]? with
  | none => mgr
  | some info =>
    let mgr := { mgr with
      num := mgr.num - 1
      keepList := mgr.keepList.set index { info with handle := none, delayOnJiffies64 := 0 } }
    match info.handle, info.type with
    | none, _ => mgr
    | some _, .other _ => mgr
    | some handle, _ => release handle mgr

/-- The clock is read for every entry. -/
def codecMmKeeperFreeAllKeep (force : Nat) (now : Nat → UInt64) (mgr : KeeperMgr) : KeeperMgr :=
  (List.range maxKeepFrame).foldl (fun mgr i =>
    match mgr.keepList[i]? with
    | none => mgr
    | some info => if wantFree force (now i) info then codecMmKeeperFreeKeep i mgr else mgr) mgr

end AmlogicV901d.Source.Keeper
