import AmlogicV901d.Lib.StateTriple

/-!
# The codec memory manager

`codec_mm/codec_mm.c` and `codec_mm.h`, on a 32-bit kernel: `unsigned long` has 32 bits.

What the page, CMA and pool allocators answer comes from `MmEnv.outcome`, one answer a call, 0
for NULL. `granted` is what the allocators have handed out and not got back. `kmalloc` of a
block gives a number that is not in use; numbers are not used again. The arrays of a pool are
the list of its slots in use. Locks, messages, caches and virtual addresses are left out.
-/
namespace AmlogicV901d.Source.CodecMm
open Lib.StateTriple

def flagsDma : UInt32 := 1
def flagsCpu : UInt32 := 2
def flagsTvp : UInt32 := 4
def flagsReserved : UInt32 := 0x100
def flagsCma : UInt32 := 0x200
def flagsCmaFirst : UInt32 := 0x400
def flagsForLocalMgr : UInt32 := 0x8000000
def flagsForScatter : UInt32 := 0x10000000
def flagsForPhysVmaped : UInt32 := 0x20000000
def flagsFromMask : UInt32 := 7
def flagsDmaCpu : UInt32 := 3

def pageShift : Int32 := 12

/-- PAGE_ALIGN -/
def pageAlign (size : Int32) : Int32 := (size + 4095) &&& ~~~4095

def reserveMmAligned2n : Int32 := 17

/-- `ALIGN(size, 1 << RESERVE_MM_ALIGNED_2N)` -/
def reserveAlign (size : Int32) : Int32 := (size + 0x1ffff) &&& ~~~0x1ffff

/-- A size divided by PAGE_SIZE, which is unsigned. -/
def pagesOf (size : Int32) : UInt32 := size.toUInt32 / 4096

/-- RES_MEM_FLAGS_HAVE_MAPED -/
def resMemFlagsHaveMaped : UInt32 := 4

def tvpPoolSegmentMaxUsed : Nat := 4

def tvpPoolName : String := "TVP_POOL"

/-- `from_flags`; `unset` is the 0 of a new block. -/
inductive FromFlags
  | unset
  | pages
  | reversed
  | cma
  | tvp
  | cmaRes
  deriving DecidableEq, Repr

/-- The fields of `struct codec_mm_s` that allocating, sharing and freeing use. -/
structure CodecMm where
  /-- the address of the struct -/
  id : Nat
  owner : Vector (Option String) 8
  memHandle : Nat
  fromExt : Nat
  bufferSize : Int32
  pageCount : Int32
  align2n : Int32
  flags : UInt32
  fromFlags : FromFlags
  useCnt : Nat
  memId : Nat
  deriving DecidableEq, Repr

/-- Where memory comes from; a pool is named by its `gen_pool`. -/
inductive Allocator
  | pages
  | contiguous
  | resPool
  | genPool (pool : Nat)
  deriving DecidableEq, Repr

/-- Memory handed out: an order of pages, a number of pages or a number of bytes from
`handle` on. -/
structure Range where
  allocator : Allocator
  handle : Nat
  extent : Int
  deriving DecidableEq, Repr

structure PoolSlot where
  genPool : Nat
  mm : Nat
  size : Int32
  deriving DecidableEq, Repr

/-- `extpool_mgt_s` -/
structure ExtPool where
  slots : List PoolSlot
  allocedSize : Int32
  totalSize : Int32
  deriving DecidableEq, Repr

/-- `codec_mm_mgt_s`, with what the kernel around it keeps. -/
structure Mgt where
  memList : List CodecMm
  /-- `res_pool` is not NULL -/
  resPool : Bool
  tvpPool : ExtPool
  cmaResPool : ExtPool
  totalCodecMemSize : Int32
  totalAllocedSize : Int32
  totalCmaSize : Int32
  totalReservedSize : Int32
  maxUsedMemSize : Int32
  allocedResSize : Int32
  allocedCmaSize : Int32
  allocedSysSize : Int32
  allocedForScSize : Int32
  allocedForScCnt : Int32
  physVmapedPageCnt : Int32
  allocFromSysPagesMax : Int32
  enableKmallocOnNomem : Bool
  resMemFlags : UInt32
  globalMemid : Nat
  tvpEnable : UInt32
  tvpUserCount : Int32
  granted : List Range
  /-- blocks passed to `kfree` -/
  kfreed : List Nat
  nextBlock : Nat
  nextPool : Nat
  /-- answers used up -/
  tick : Nat

/-- Module parameters and the kernel around the manager. -/
structure MmEnv where
  outcome : Nat → Nat
  getOrder : Int32 → Nat
  debugMode : UInt32
  tvpDynamicIncreaseDisable : Bool
  /-- `tvp_mode >= 1` -/
  tvpMode : Bool
  defaultTvpPoolSegmentSize : Nat → Int32
  /-- a bound on the rounds of a loop that adds TVP slots; every round but the last adds
  one, up to `tvpPoolSegmentMaxUsed` -/
  tvpRounds : Nat

abbrev MgtM := StateM Mgt

variable (env : MmEnv)

/-- The next answer of the kernel. -/
def ask : MgtM Nat := fun s => (env.outcome s.tick, { s with tick := s.tick + 1 })

/-- A request for memory; 0 is NULL. -/
def grant (allocator : Allocator) (extent : Int) : MgtM Nat := do
  let handle ← ask env
  if handle ≠ 0 then
    modify fun s => { s with granted := ⟨allocator, handle, extent⟩ :: s.granted }
  pure handle

def giveBack (range : Range) : MgtM Unit :=
  modify fun s => { s with granted := s.granted.erase range }

/-! ## Freeing -/

/-- What `codec_mm_free_in` gives back. -/
def CodecMm.range (mem : CodecMm) : Option Range :=
  match mem.fromFlags with
  | .unset => none
  | .pages => some ⟨.pages, mem.memHandle, env.getOrder mem.bufferSize⟩
  | .reversed => some ⟨.resPool, mem.memHandle, mem.bufferSize.toInt⟩
  | .cma => some ⟨.contiguous, mem.memHandle, mem.pageCount.toInt⟩
  | .tvp => some ⟨.genPool mem.fromExt, mem.memHandle, mem.bufferSize.toInt⟩
  | .cmaRes => some ⟨.genPool mem.fromExt, mem.memHandle, mem.bufferSize.toInt⟩

/-- The counter of the allocator a block comes from. -/
def countSource (source : FromFlags) (count : Int32 → Int32) (s : Mgt) : Mgt :=
  match source with
  | .cma => { s with allocedCmaSize := count s.allocedCmaSize }
  | .reversed => { s with allocedResSize := count s.allocedResSize }
  | .tvp => { s with tvpPool := { s.tvpPool with allocedSize := count s.tvpPool.allocedSize } }
  | .pages => { s with allocedSysSize := count s.allocedSysSize }
  | .cmaRes => { s with cmaResPool := { s.cmaResPool with allocedSize := count s.cmaResPool.allocedSize } }
  | .unset => s

/-- `total_alloced_size`, without the blocks of the manager itself. -/
def countTotal (mem : CodecMm) (count : Int32 → Int32) (s : Mgt) : Mgt :=
  if mem.flags &&& flagsForLocalMgr = 0 then { s with totalAllocedSize := count s.totalAllocedSize } else s

def countScatter (mem : CodecMm) (countSize countCnt : Int32 → Int32) (s : Mgt) : Mgt :=
  if mem.flags &&& flagsForScatter ≠ 0 then
    { s with allocedForScSize := countSize s.allocedForScSize
             allocedForScCnt := countCnt s.allocedForScCnt }
  else s

def countVmaped (mem : CodecMm) (count : Int32 → Int32) (s : Mgt) : Mgt :=
  if mem.flags &&& flagsForPhysVmaped ≠ 0 then { s with physVmapedPageCnt := count s.physVmapedPageCnt }
  else s

/-- The counters of `codec_mm_free_in`. -/
def countFreed (mem : CodecMm) (s : Mgt) : Mgt :=
  countSource mem.fromFlags (· - mem.bufferSize) <| countVmaped mem (· - mem.pageCount) <|
    countScatter mem (· - mem.bufferSize) (· - 1) <| countTotal mem (· - mem.bufferSize) s

/-- `unprotectAndRelease` is `codec_mm_tvp_pool_unprotect_and_release`. -/
def codecMmFreeIn (unprotectAndRelease : MgtM Nat) (mem : CodecMm) : MgtM Unit := do
  match mem.range env with
  | some range => giveBack range
  | none => pure ()
  modify (countFreed mem)
  if mem.fromFlags = .tvp ∧ env.tvpMode then
    let s ← get
    if s.tvpUserCount = 0 then
      let ignored ← unprotectAndRelease
      if ignored = 0 then modify fun s => { s with tvpEnable := 0 }

/-- The owners after a release with `index` references left: every entry with the name
gets the last one, whose entry is cleared. -/
def releaseOwners (owners : Vector (Option String) 8) (index : Nat) (who : String) : Vector (Option String) 8 :=
  Vector.ofFn fun i =>
    if i.val < index ∧ owners[i] = some who then owners.getD index none
    else if i.val = index then none
    else owners[i]

/-- A reference of a block in the list is given up. -/
def releaseListed (unprotectAndRelease : MgtM Nat) (id : Nat) (who : String) (mem : CodecMm) :
    MgtM Unit :=
  let index := mem.useCnt - 1
  let mem := { mem with useCnt := index, owner := releaseOwners mem.owner index who }
  if index = 0 then do
    modify fun s => { s with memList := s.memList.eraseP (·.id = id) }
    codecMmFreeIn env unprotectAndRelease mem
    modify fun s => { s with kfreed := id :: s.kfreed }
  else
    modify fun s => { s with memList := s.memList.map fun m => if m.id = id then mem else m }

def codecMmReleaseWith (unprotectAndRelease : MgtM Nat) (id : Nat) (who : String) : MgtM Unit := do
  let s ← get
  match s.memList.find? (·.id = id) with
  | none => pure ()
  | some mem => releaseListed env unprotectAndRelease id who mem

section Release
variable (unprotectAndRelease : MgtM Nat) {id : Nat} (who : String) (s : Mgt)

theorem release_eq : codecMmReleaseWith env unprotectAndRelease id who s =
      match s.memList.find? (·.id = id) with
      | none => ((), s)
      | some mem =>
        let rest := { mem with useCnt := mem.useCnt - 1, owner := releaseOwners mem.owner (mem.useCnt - 1) who }
        if mem.useCnt - 1 = 0 then
          (codecMmFreeIn env unprotectAndRelease rest >>= fun _ => modify fun s => { s with kfreed := id :: s.kfreed })
            { s with memList := s.memList.eraseP (·.id = id) }
        else ((), { s with memList := s.memList.map fun m => if m.id = id then rest else m }) := by
  rw [codecMmReleaseWith, get_bind]
  cases s.memList.find? (·.id = id) with
  | none => rfl
  | some mem =>
    dsimp only [releaseListed]
    split <;> rfl

end Release

/-- Memory of a pool is not TVP memory itself, so its release does not come back to the
pool. -/
def releasePoolMm (slot : PoolSlot) : MgtM Unit := codecMmReleaseWith env (pure 1) slot.mm tvpPoolName

/-- Slots without a block in use are given up; the others stay. The result is their
number. -/
def releaseIdleSlots : List PoolSlot → MgtM (List PoolSlot)
  | [] => pure []
  | slot :: rest => do
    -- gen_pool_avail(gpool) != gen_pool_size(gpool)
    let inUse ← ask env
    if inUse ≠ 0 then
      let kept ← releaseIdleSlots rest
      pure (slot :: kept)
    else
      releasePoolMm env slot
      modify fun s => { s with tvpPool := { s.tvpPool with totalSize := s.tvpPool.totalSize - slot.size } }
      releaseIdleSlots rest

def codecMmTvpPoolUnprotectAndRelease : MgtM Nat := do
  let s ← get
  let kept ← releaseIdleSlots env s.tvpPool.slots
  modify fun s => { s with tvpPool := { s.tvpPool with slots := kept } }
  pure kept.length

def codecMmRelease (id : Nat) (who : String) : MgtM Unit :=
  codecMmReleaseWith env (codecMmTvpPoolUnprotectAndRelease env) id who

/-! ## Sharing -/

def codecMmHasOwner (s : Mgt) (id : Nat) (who : String) : Int :=
  match s.memList.find? (·.id = id) with
  | none => 0
  | some mem => if (mem.owner.toList.take mem.useCnt).contains (some who) then 1 else 0

/-- One more reference, if the array has room. -/
def requestListed (id : Nat) (who : String) (mem : CodecMm) : MgtM Int :=
  if mem.useCnt > 7 then pure 0
  else do
    let mem := { mem with useCnt := mem.useCnt + 1, owner := mem.owner.setIfInBounds mem.useCnt (some who) }
    modify fun s => { s with memList := s.memList.map fun m => if m.id = id then mem else m }
    pure 0

/-- The status -2 of a block that is not in the list and the -3 of a ninth owner are
computed, but the function returns 0. -/
def codecMmRequestSharedMem (id : Nat) (who : String) : MgtM Int := do
  let s ← get
  match s.memList.find? (·.id = id) with
  | none => pure 0
  | some mem => requestListed id who mem

section Request
variable {id : Nat} (who : String) (s : Mgt)

theorem request_eq : codecMmRequestSharedMem id who s = (0,
      match s.memList.find? (·.id = id) with
      | none => s
      | some mem =>
        if mem.useCnt > 7 then s
        else { s with memList := s.memList.map fun m =>
          if m.id = id then
            { mem with useCnt := mem.useCnt + 1, owner := mem.owner.setIfInBounds mem.useCnt (some who) }
          else m }) := by
  rw [codecMmRequestSharedMem, get_bind]
  cases s.memList.find? (·.id = id) with
  | none => rfl
  | some mem =>
    dsimp only [requestListed]
    split <;> rfl

end Request

/-! ## Allocating -/

/-- `codec_mm_map_phyaddr`: high memory is mapped, and the block marked. -/
def codecMmMapPhyaddr (mem : CodecMm) : MgtM CodecMm := do
  let highMem ← ask env
  if highMem = 0 then pure mem
  else
    let vaddr ← ask env
    if vaddr = 0 then pure mem
    else pure { mem with flags := mem.flags ||| flagsForPhysVmaped }

/-- The `gen_pool` and the handle; without memory in any slot the handle is 0. -/
def codecMmExtpoolAlloc : List PoolSlot → Int32 → MgtM (Nat × Nat)
  | [], _ => pure (0, 0)
  | slot :: rest, size => do
    let handle ← grant env (.genPool slot.genPool) size.toInt
    if handle ≠ 0 then pure (slot.genPool, handle) else codecMmExtpoolAlloc rest size

/-- `__get_free_pages` -/
def allocFromPages (mem : CodecMm) : MgtM CodecMm := do
  let handle ← grant env .pages (env.getOrder mem.bufferSize)
  pure { mem with memHandle := handle, fromFlags := .pages }

/-- `dma_alloc_from_contiguous`; only the second of its two uses maps the memory. -/
def allocFromCma (mapped : Bool) (mem : CodecMm) : MgtM CodecMm := do
  let handle ← grant env .contiguous mem.pageCount.toInt
  let mem := { mem with memHandle := handle, fromFlags := .cma }
  if handle ≠ 0 ∧ mapped ∧ mem.flags &&& flagsCpu ≠ 0 then codecMmMapPhyaddr env mem else pure mem

def allocFromReserved (mem : CodecMm) : MgtM CodecMm := do
  let alignedBufferSize := reserveAlign mem.bufferSize
  let handle ← grant env .resPool alignedBufferSize.toInt
  let mem := { mem with memHandle := handle, fromFlags := .reversed }
  if handle ≠ 0 then pure { mem with bufferSize := alignedBufferSize } else pure mem

def allocFromCmaRes (mem : CodecMm) : MgtM CodecMm := do
  let s ← get
  let alignedBufferSize := reserveAlign mem.bufferSize
  let (pool, handle) ← codecMmExtpoolAlloc env s.cmaResPool.slots alignedBufferSize
  let mem := { mem with memHandle := handle, fromFlags := .cmaRes }
  if handle ≠ 0 then
    let mem := { mem with fromExt := pool, bufferSize := alignedBufferSize }
    if mem.flags &&& flagsCpu ≠ 0 then codecMmMapPhyaddr env mem else pure mem
  else pure mem

/-- With `tvp_dynamic_increase_disable` the tag is set before the handle is looked at. -/
def allocFromTvp (mem : CodecMm) : MgtM CodecMm := do
  let s ← get
  let alignedBufferSize := reserveAlign mem.bufferSize
  let (pool, handle) ← codecMmExtpoolAlloc env s.tvpPool.slots alignedBufferSize
  let mem := { mem with memHandle := handle }
  if handle ≠ 0 then
    pure { mem with fromFlags := .tvp, fromExt := pool, bufferSize := alignedBufferSize }
  else if env.tvpDynamicIncreaseDisable then pure { mem with fromFlags := .tvp }
  else pure mem

/-- The loop that adds TVP slots until one has room; `bySlot` is
`codec_mm_tvp_pool_alloc_by_slot`. -/
def allocFromTvpDynamic (bySlot : MgtM Int32) : Nat → CodecMm → MgtM CodecMm
  | 0, mem => pure mem
  | rounds + 1, mem => do
    let mem ← allocFromTvp env mem
    if mem.memHandle ≠ 0 then pure mem
    else
      let added ← bySlot
      if added = 0 then pure mem
      else
        let s ← get
        if s.tvpPool.slots.length ≤ tvpPoolSegmentMaxUsed then allocFromTvpDynamic bySlot rounds mem
        else pure mem

/-- `codec_mm_alloc_tvp_pre_check_in` -/
def codecMmAllocTvpPreCheckIn (needSize : Int32) : List PoolSlot → MgtM Bool
  | [] => pure false
  | _ :: rest => do
    let avail ← ask env
    if avail ≥ needSize.toUInt32.toNat then pure true else codecMmAllocTvpPreCheckIn needSize rest

def growTvpForSpace (bySlot : MgtM Int32) (alignedSize : Int32) : Nat → MgtM UInt32
  | 0 => pure 0
  | rounds + 1 => do
    let added ← bySlot
    if added = 0 then pure 0
    else
      let s ← get
      let fits ← codecMmAllocTvpPreCheckIn env alignedSize s.tvpPool.slots
      if fits then pure 8
      else if s.tvpPool.slots.length ≤ tvpPoolSegmentMaxUsed then growTvpForSpace bySlot alignedSize rounds
      else pure 0

/-- Whether the TVP pool has room, adding slots where that is allowed. -/
def tvpSpace (bySlot : MgtM Int32) (alignedSize : Int32) (flags : UInt32) : MgtM UInt32 := do
  let s ← get
  if env.tvpDynamicIncreaseDisable then
    pure (if alignedSize ≤ s.tvpPool.totalSize - s.tvpPool.allocedSize then 8 else 0)
  else if flags &&& flagsTvp ≠ 0 then
    let fits ← codecMmAllocTvpPreCheckIn env alignedSize s.tvpPool.slots
    if fits then pure 8 else growTvpForSpace env bySlot alignedSize env.tvpRounds
  else pure 0

/-- `have_space`: 1 reserved, 2 CMA, 4 system, 8 TVP -/
def codecMmAllocPreCheckIn (bySlot : MgtM Int32) (needSize : Int32) (flags : UInt32) : MgtM UInt32 := do
  let s ← get
  let alignedSize := pageAlign needSize
  let res : UInt32 :=
    if alignedSize ≤ s.totalReservedSize - s.allocedResSize ∨
        alignedSize ≤ s.cmaResPool.totalSize - s.cmaResPool.allocedSize then 1 else 0
  let cma : UInt32 := if alignedSize ≤ s.totalCmaSize - s.allocedCmaSize then 2 else 0
  let sys : UInt32 := if pagesOf alignedSize ≤ s.allocFromSysPagesMax.toUInt32 then 4 else 0
  let tvp ← tvpSpace env bySlot alignedSize flags
  let haveSpace := (res ||| cma ||| sys ||| tvp) &&& ~~~(env.debugMode &&& 7)
  let s ← get
  if env.debugMode &&& 8 ≠ 0 ∧ s.totalAllocedSize > s.totalCodecMemSize / 2 then pure 0
  else pure haveSpace

structure CanFrom where
  res : Bool
  cma : Bool
  sys : Bool
  tvp : Bool
  deriving DecidableEq, Repr

/-- Where a block may come from by its flags. -/
def canFrom (s : Mgt) (mem : CodecMm) : CanFrom :=
  if mem.flags &&& flagsTvp ≠ 0 then ⟨false, false, false, true⟩
  else
    { res := ((s.resPool || s.cmaResPool.totalSize > 0) && mem.flags &&& flagsCma == 0) ||
        mem.flags &&& flagsReserved != 0 || mem.flags &&& flagsFromMask == flagsDma ||
        (mem.flags &&& flagsCpu != 0 && s.resMemFlags &&& resMemFlagsHaveMaped != 0)
      cma := (s.totalCmaSize > 0 && mem.flags &&& flagsReserved == 0) || mem.flags &&& flagsCma != 0
      sys := mem.flags &&& flagsDmaCpu != 0 && mem.pageCount ≤ s.allocFromSysPagesMax
      tvp := false }

/-- Those of them that have space. -/
def CanFrom.within (c : CanFrom) (haveSpace : UInt32) : CanFrom :=
  ⟨c.res && haveSpace &&& 1 != 0, c.cma && haveSpace &&& 2 != 0, c.sys && haveSpace &&& 4 != 0,
    c.tvp && haveSpace &&& 8 != 0⟩

/-- `align_2n` -/
def CodecMm.align (mem : CodecMm) : Int32 := if mem.align2n < pageShift then pageShift else mem.align2n

/-- The first source: system pages for a small block. -/
def sysFirst (s : Mgt) (mem : CodecMm) : Bool :=
  mem.flags &&& flagsDmaCpu != 0 && mem.pageCount ≤ s.allocFromSysPagesMax && mem.align ≤ pageShift

/-- One source of the loop body: with memory the loop is left, else the next is tried. -/
def attempt (cond : Mgt → CodecMm → Bool) (source : CodecMm → MgtM CodecMm)
    (next : CodecMm → MgtM CodecMm) (mem : CodecMm) : MgtM CodecMm := do
  let s ← get
  if cond s mem then
    let mem ← source mem
    if mem.memHandle ≠ 0 then pure mem else next mem
  else next mem

/-- The last source, system pages where nothing else has memory. It also follows the
loop that adds TVP slots, whose `break` on success only leaves that loop. -/
def kmallocOnNomem (mem : CodecMm) : MgtM CodecMm := do
  let s ← get
  if mem.flags &&& flagsDmaCpu ≠ 0 ∧ s.enableKmallocOnNomem ∧ ¬ sysFirst s mem then allocFromPages env mem
  else pure mem

def tvpThenKmalloc (bySlot : MgtM Int32) (can : CanFrom) (mem : CodecMm) : MgtM CodecMm :=
  if can.tvp ∧ mem.align ≤ reserveMmAligned2n then
    if env.tvpDynamicIncreaseDisable then
      attempt (fun _ _ => true) (allocFromTvp env) (kmallocOnNomem env) mem
    else do
      let mem ← allocFromTvpDynamic env bySlot env.tvpRounds mem
      kmallocOnNomem env mem
  else kmallocOnNomem env mem

/-- The body of the loop in `codec_mm_alloc_in`, which ALLOC_MAX_RETRY runs once. -/
def tryAlloc (bySlot : MgtM Int32) (can : CanFrom) : CodecMm → MgtM CodecMm :=
  attempt sysFirst (allocFromPages env) <|
  attempt (fun _ mem => mem.flags &&& flagsCmaFirst != 0 && can.cma) (allocFromCma env false) <|
  attempt (fun s mem => can.res && s.resPool && mem.align ≤ reserveMmAligned2n) (allocFromReserved env) <|
  attempt (fun s mem => can.res && s.cmaResPool.totalSize > 0 &&
      s.cmaResPool.allocedSize + mem.bufferSize < s.cmaResPool.totalSize) (allocFromCmaRes env) <|
  attempt (fun _ _ => can.cma) (allocFromCma env true) <|
  tvpThenKmalloc env bySlot can

def codecMmAllocIn (bySlot : MgtM Int32) (mem : CodecMm) : MgtM (Int × CodecMm) := do
  let s ← get
  let haveSpace ← codecMmAllocPreCheckIn env bySlot mem.bufferSize mem.flags
  if haveSpace = 0 then pure (-10001, mem)
  else
    let can := (canFrom s mem).within haveSpace
    if can = ⟨false, false, false, false⟩ then pure (-10002, mem)
    else
      let mem ← tryAlloc env bySlot can mem
      pure (if mem.memHandle ≠ 0 then 0 else -10003, mem)

def countMaxUsed (s : Mgt) : Mgt :=
  if s.totalAllocedSize > s.maxUsedMemSize then { s with maxUsedMemSize := s.totalAllocedSize } else s

/-- The counters of `codec_mm_alloc`. -/
def countAlloced (mem : CodecMm) (s : Mgt) : Mgt :=
  countVmaped mem (· + mem.pageCount) <| countScatter mem (· + mem.bufferSize) (· + 1) <|
    (fun s => if mem.flags &&& flagsForLocalMgr = 0 then countMaxUsed s else s) <|
    countTotal mem (· + mem.bufferSize) <| countSource mem.fromFlags (· + mem.bufferSize) s

/-- The owner the scatter manager gives for its blocks (SCATTER_MEM). -/
def scatterMem : String := "SCATTER_MEM"

/-- `codec_mm_scatter_free_all_ignorecache` as the manager sees it: releases of blocks. -/
def scatterFree : Nat → MgtM Unit
  | 0 => pure ()
  | n + 1 => do
    let id ← ask env
    codecMmRelease env id scatterMem
    scatterFree n

def codecMmScatterFreeAllIgnorecache : MgtM Unit := do
  let n ← ask env
  scatterFree env n

/-- `memflags` as `codec_mm_alloc` completes them. -/
def completeFlags (tvpEnable memflags : UInt32) : UInt32 :=
  let memflags := if tvpEnable &&& 3 ≠ 0 ∧ memflags &&& flagsTvp ≠ 0 then
      (memflags &&& ~~~flagsFromMask) ||| flagsTvp else memflags
  if memflags &&& flagsFromMask = 0 then memflags ||| flagsDma else memflags

/-- A block before memory is looked for. -/
def newBlock (id : Nat) (size align2n : Int32) (memflags : UInt32) : CodecMm where
  id := id
  owner := Vector.replicate 8 none
  memHandle := 0
  fromExt := 0
  bufferSize := pageAlign size
  pageCount := (pagesOf (pageAlign size)).toInt32
  align2n := align2n
  flags := memflags
  fromFlags := .unset
  useCnt := 0
  memId := 0

/-- A block with its first reference. -/
def CodecMm.owned (mem : CodecMm) (owner : String) (memId : Nat) : CodecMm :=
  { mem with useCnt := 1, owner := mem.owner.set 0 (some owner), memId := memId }

/-- A block that has its memory enters the list. -/
def addBlock (mem : CodecMm) (owner : String) (s : Mgt) : Mgt :=
  let mem := mem.owned owner s.globalMemid
  countAlloced mem { s with memList := s.memList ++ [mem], globalMemid := s.globalMemid + 1 }

/-- A failed allocation is tried again without the scatter caches, if there are any. -/
def retryWithoutScatter (bySlot : MgtM Int32) (got : Int × CodecMm) : MgtM (Int × CodecMm) := do
  let s ← get
  if got.1 < 0 ∧ s.allocedForScCnt > 0 ∧ got.2.flags &&& flagsForScatter = 0 then
    codecMmScatterFreeAllIgnorecache env
    codecMmAllocIn env bySlot got.2
  else pure got

/-- Memory for a new block, which then enters the list. -/
def allocBlock (bySlot : MgtM Int32) (owner : String) (mem : CodecMm) : MgtM (Option Nat) := do
  let got ← codecMmAllocIn env bySlot mem
  let got ← retryWithoutScatter env bySlot got
  if got.1 < 0 then pure none
  else
    modify (addBlock got.2 owner)
    pure (some got.2.id)

def codecMmAllocWith (bySlot : MgtM Int32) (owner : String) (size align2n : Int32) (memflags : UInt32) :
    MgtM (Option Nat) := do
  let kmalloc ← ask env
  if kmalloc = 0 then pure none
  else
    let s ← get
    modify fun s => { s with nextBlock := s.nextBlock + 1 }
    allocBlock env bySlot owner (newBlock s.nextBlock size align2n (completeFlags s.tvpEnable memflags))

/-! ## The TVP pool -/

/-- The size a pool is made with. -/
def Mgt.bufferSizeOf (s : Mgt) (id : Nat) : Int32 :=
  ((s.memList.find? (·.id = id)).map (·.bufferSize)).getD 0

/-- `codec_mm_extpool_pool_release_inner` for the slots from `start` on. -/
def releaseSlots : List PoolSlot → MgtM Unit
  | [] => pure ()
  | slot :: rest => do
    releasePoolMm env slot
    modify fun s => { s with tvpPool := { s.tvpPool with totalSize := s.tvpPool.totalSize - slot.size } }
    releaseSlots rest

def codecMmExtpoolPoolReleaseInner (start : Nat) : MgtM Unit := do
  let s ← get
  releaseSlots env (s.tvpPool.slots.drop start)
  modify fun s => { s with tvpPool := { s.tvpPool with slots := s.tvpPool.slots.take start } }

/-- A slot does not ask for TVP memory, so its allocation does not add slots in turn. 0 is
success. -/
def codecMmTvpPoolAllocByType (size : Int32) (type : UInt32) : MgtM Nat := do
  let mem ← codecMmAllocWith env (pure 0) tvpPoolName size reserveMmAligned2n (flagsForLocalMgr ||| type)
  match mem with
  | none => pure 1
  | some id =>
    -- codec_mm_init_tvp_pool
    let pool ← ask env
    if pool = 0 then
      codecMmRelease env id tvpPoolName
      pure 1
    else
      modify fun s => { s with
        nextPool := s.nextPool + 1
        tvpPool := { s.tvpPool with
          slots := s.tvpPool.slots ++ [⟨s.nextPool, id, s.bufferSizeOf id⟩]
          totalSize := s.tvpPool.totalSize + size } }
      let s ← get
      if env.tvpMode then
        -- codec_mm_tvp_pool_protect
        let protect ← ask env
        if protect ≠ 0 then
          codecMmExtpoolPoolReleaseInner env (s.tvpPool.slots.length - 1)
          pure 1
        else pure 0
      else pure 0

/-- MM_ALIGN_DOWN_2N(size, RESERVE_MM_ALIGNED_2N) -/
def alignDown (size : Int32) : Int32 := size &&& ~~~0x1ffff

def fourMega : Int32 := 0x400000

/-- Smaller and smaller segments of one type; the size of the one that was added. -/
def segmentLoop (type : UInt32) : Nat → Int32 → MgtM (Option Int32)
  | 0, _ => pure none
  | retry + 1, tryAllocedSize => do
    let failed ← codecMmTvpPoolAllocByType env tryAllocedSize type
    if failed ≠ 0 then
      if tryAllocedSize - fourMega < 4 * fourMega then pure none
      else segmentLoop type retry (reserveAlign (tryAllocedSize - fourMega))
    else pure (some tryAllocedSize)

def segmentOf (type : UInt32) (size maxFreeSize : Int32) : MgtM (Option Int32) :=
  let tryAllocedSize := alignDown (if size > maxFreeSize then maxFreeSize else size)
  if tryAllocedSize > 0 then
    segmentLoop env type ((tryAllocedSize / fourMega).toInt.toNat + 1) tryAllocedSize
  else pure none

/-- The size of the slot that was added, or 0. -/
def codecMmTvpPoolAllocBySlot : MgtM Int32 := do
  let s ← get
  let maxReservedFreeSize := s.totalReservedSize - s.allocedResSize
  let maxCmaFreeSize := s.totalCmaSize - s.allocedCmaSize
  if s.tvpPool.slots.length ≥ tvpPoolSegmentMaxUsed then pure 0
  else
    let size := env.defaultTvpPoolSegmentSize s.tvpPool.slots.length
    if size ≤ 0 then pure 0
    else
      let cma := (flagsCma, maxCmaFreeSize)
      let reserved := (flagsReserved, maxReservedFreeSize)
      -- use_cma_pool_first
      let (first, second) := if maxCmaFreeSize > maxReservedFreeSize then (cma, reserved) else (reserved, cma)
      let added ← segmentOf env first.1 size first.2
      match added with
      | some added => pure added
      | none =>
        let added ← segmentOf env second.1 size second.2
        pure (added.getD 0)

def codecMmAlloc (owner : String) (size align2n : Int32) (memflags : UInt32) : MgtM (Option Nat) :=
  codecMmAllocWith env (codecMmTvpPoolAllocBySlot env) owner size align2n memflags

end AmlogicV901d.Source.CodecMm
