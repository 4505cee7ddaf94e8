import AmlogicV901d.Lib.StateTriple
import AmlogicV901d.Lib.KeyedList
import AmlogicV901d.Lib.Bitmap

/-!
# The scatter manager

Translation of codec_mm_scatter.c. Pages come from slots (blocks of codec memory or of
system memory, with a bit for each page) or one by one from the system. A scatter holds
a list of page ids; two more scatters cache pages. A page id is the address of the page
with the hash id of its slot in the low bits.

A scatter, a slot and a block of pages are known by number. The page allocators are a
parameter: an answer to every call, where a range of pages is handed out only if none
of its pages is in use. The locks are free whenever one operation at a time is running.
-/
namespace AmlogicV901d.Source.CodecMmScatter
open Lib.StateTriple Lib.KeyedList

/-! ## Page ids -/

def pageSize : Nat := 0x1000

def sidMask : Nat := 0xfff

/-- MAX_SID -/
def maxSid : Nat := sidMask - 1

/-- ONE_PAGE_SID, the id of pages that belong to no slot. -/
def onePageSid : Nat := sidMask

/-- ADDR_SEED -/
def addrSeed (paddr : Nat) : Nat := paddr / 0x1000000 + paddr / 0x1000 + paddr

/-- HASH_PAGE_ADDR -/
def hashPageAddr (paddr : Nat) : Nat := addrSeed paddr % maxSid

/-- SLOT_TO_SID -/
def slotToSid (phyAddr : Nat) : Nat := hashPageAddr (phyAddr / pageSize)

/-- PAGE_SID -/
def pageSid (page : Nat) : Nat := page % 0x1000

/-- PAGE_ADDR -/
def pageAddr (page : Nat) : Nat := page / 0x1000 * 0x1000

/-- ADDR2PAGE; a page id has 32 bits. -/
def addr2page (addr sid : Nat) : Nat := (addr / 0x1000 * 0x1000 + sid) % 0x100000000

/-- VALID_SID -/
def validSid (sid : Nat) : Bool := sid < maxSid || sid == onePageSid

/-- An `int` compared with a `u32`. -/
def u32 (x : Int) : Nat := (x % 0x100000000).toNat

/-- A value stored in an `int`. -/
def int32 (x : Int) : Int := Int.bmod x 0x100000000

/-- CODEC_MM_S_ERR -/
def codecMmSErr (x : Int) : Int := -1000 - x

/-! ## State -/

/-- SLOT_FROM_CODEC_MM and SLOT_FROM_GET_FREE_PAGES -/
inductive SlotFrom
  | codecMm
  | getFreePages
  deriving DecidableEq, Repr

structure Slot where
  num : Nat
  fromType : SlotFrom
  pagemap : Nat → Bool
  phyAddr : Nat
  pagemapSize : Nat
  pageNum : Nat
  allocedPageNum : Int
  nextBit : Nat
  sid : Nat
  onAllocFree : Int

structure Scatter where
  num : Nat
  pagesList : List Nat
  pageMaxCnt : Int
  pageCnt : Int
  pageTail : Int
  pageUsed : Int
  userCnt : Int32
  tofreeJiffies : Nat

/-- `struct codec_mm_scatter_mgt`. `slots` holds the slots of all lists of `slot_list_map`
in the order they were made; a list of the map is those with its hash id. `scatters` are
the structures that have not been freed. -/
structure Smgt where
  tvpMode : Bool
  slots : List Slot
  freeList : List Nat
  scatters : List Scatter
  scatterList : List Nat
  scmap : List (Option Nat)
  cacheSc0 : Option Nat
  cacheSc1 : Option Nat
  totalPageNum : Int
  allocedPageNum : Int
  maxAlloced : Int
  onePageCnt : Int
  scattersCnt : Int
  slotCnt : Int
  cachedPages : Int
  allocFromSysScCnt : Int
  allocFromSysPageCnt : Int
  allocFromSysMaxPageCnt : Int
  tryAllocInCmaPageCnt : Nat
  tryAllocInSysPageCnt : Nat
  tryAllocInSysPageCntMax : Nat
  tryAllocInSysPageCntMin : Nat
  enableSlotFromSys : Bool
  supportFromSlotSys : Bool
  noAllocFromSys : Bool
  reservedBlockMmM : Nat
  keepSizePage : Nat
  noCacheSizeM : Nat
  delayFreeOn : Int
  forceCacheOn : Bool
  forceCachePageCnt : Int
  delayFreeTimeout : Nat
  nextSlot : Nat

/-- What the managers share: the page frames lent to drivers, the answers given so far,
and the scatter structures that were made and freed. -/
structure Ram where
  lent : List Nat
  tick : Nat
  nextScatter : Nat
  freed : List Nat

structure Sc extends Smgt, Ram

/-- `g_scatter`, from which every run of the monitor takes its settings. -/
structure ScatterConfig where
  keepSizePage : Nat
  reservedBlockMmM : Nat
  tryAllocInCmaPageCnt : Nat
  tryAllocInSysPageCntMax : Nat
  tryAllocInSysPageCntMin : Nat
  enableSlotFromSys : Bool
  supportFromSlotSys : Bool
  noCacheSizeM : Nat
  noAllocFromSys : Bool

structure ScEnv where
  outcome : Nat → Nat
  config : ScatterConfig

abbrev ScM := StateM Sc

variable (env : ScEnv)

/-- The answer to a call out of the manager: an allocation, a free size or the time. -/
def ask : ScM Nat := fun s => (env.outcome s.tick, { s with tick := s.tick + 1 })

/-! ## The page allocators -/

/-- Page frames below 4 GiB, never frame 0, and none that is lent already. -/
def suitable (lent : List Nat) (frame n : Nat) : Bool :=
  0 < frame && 0 < n && frame + n ≤ 0x100000 && (List.range n).all fun i => !lent.contains (frame + i)

/-- A range of `n` pages; 0 if there is none. -/
def lend (n : Nat) : ScM Nat := do
  let frame ← ask env
  let s ← get
  if suitable s.lent frame n then
    modify fun s => { s with lent := (List.range n).map (frame + ·) ++ s.lent }
    pure (frame * pageSize)
  else pure 0

def inRange (frame n f : Nat) : Bool := frame ≤ f && f < frame + n

def giveBack (addr n : Nat) : ScM Unit :=
  modify fun s => { s with lent := s.lent.filter fun f => !inRange (addr / pageSize) n f }

/-! ## Slots -/

/-- BIT2ADDR and ADDR2PAGE of a bit of the pagemap. -/
def Slot.pageId (slot : Slot) (bit : Nat) : Nat := addr2page (slot.phyAddr + pageSize * bit) slot.sid

/-- VALID_BIT -/
def Slot.validBit (slot : Slot) (bit : Nat) : Bool := slot.pagemapSize * 8 > bit

def Slot.setBit (slot : Slot) (bit : Nat) (value : Bool) : Slot :=
  { slot with pagemap := Lib.Bitmap.setBit slot.pagemap bit value }

/-- `codec_mm_slot_init_bitmap` and `codec_mm_set_slot_in_hash`: the slot with its empty map
enters its hash list and the list of slots with free pages. -/
def codecMmSetSlotInHash (fromType : SlotFrom) (phyAddr pageNum : Nat) : ScM Nat := do
  let s ← get
  let slot : Slot :=
    { num := s.nextSlot, fromType, pagemap := fun _ => false, phyAddr, pagemapSize := pageNum / 8 + 2,
      pageNum, allocedPageNum := 0, nextBit := 0, sid := slotToSid phyAddr, onAllocFree := 0 }
  modify fun s => { s with
    slots := s.slots ++ [slot]
    freeList := s.freeList ++ [s.nextSlot]
    nextSlot := s.nextSlot + 1
    totalPageNum := s.totalPageNum + pageNum
    slotCnt := s.slotCnt + 1 }
  if fromType = .getFreePages then
    modify fun s => { s with
      allocFromSysScCnt := s.allocFromSysScCnt + 1
      allocFromSysPageCnt := s.allocFromSysPageCnt + pageNum
      allocFromSysMaxPageCnt := max s.allocFromSysMaxPageCnt (s.allocFromSysPageCnt + pageNum) }
    pure s.nextSlot
  else pure s.nextSlot

/-- `codec_mm_find_slot_in_hash`: the list of the hash id is walked from its root backwards. -/
def codecMmFindSlotInHash (slots : List Slot) (sid addr : Nat) : Option Slot :=
  if !validSid sid || sid == onePageSid then none
  else
    match slots.filter fun slot => slot.sid = sid with
    | [] => none
    | root :: rest => (root :: rest.reverse).find? fun slot =>
        slot.phyAddr ≤ addr ∧ addr < slot.phyAddr + slot.pageNum * pageSize

/-- The slot leaves the lists and gives its memory back. -/
def releaseSlot (slot : Slot) (s : Sc) : Sc :=
  let fromSys := slot.fromType = .getFreePages
  { s with
    slots := remove Slot.num slot.num s.slots
    freeList := s.freeList.filter (· ≠ slot.num)
    slotCnt := s.slotCnt - 1
    totalPageNum := s.totalPageNum - slot.pageNum
    allocFromSysScCnt := if fromSys then s.allocFromSysScCnt - 1 else s.allocFromSysScCnt
    allocFromSysPageCnt := if fromSys then s.allocFromSysPageCnt - slot.pageNum else s.allocFromSysPageCnt
    lent := s.lent.filter fun f => !inRange (slot.phyAddr / pageSize) slot.pageNum f }

def codecMmSlotFree (slot : Slot) : ScM Int :=
  if slot.allocedPageNum > 0 ∨ slot.onAllocFree ≠ 0 then pure (-1)
  else do
    modify (releaseSlot slot)
    pure 0

def codecMmSlotTryFree (slot : Slot) : ScM Int := do
  let s ← get
  if s.keepSizePage > 0 ∧ u32 (s.totalPageNum - s.allocedPageNum) < s.keepSizePage then pure (-1)
  else codecMmSlotFree slot

/-- reserved_block_mm_M * SZ_1M -/
def Smgt.reservedSize (s : Smgt) : Nat := s.reservedBlockMmM * 0x100000 % 0x100000000

/-- The pages of a size. -/
def pagesOf (size : Int) : Nat := ((size + 0xfff) / 0x1000).toNat

/-- `get_order` -/
def getOrder (size : Int) : Nat :=
  if size ≤ 0 then 52
  else
    let n := (size.toNat - 1) / pageSize
    if n = 0 then 0 else n.log2 + 1

/-- A range that has no room for its pagemap is given back. -/
def withPagemap (addr n : Nat) : ScM (Option (Nat × Nat)) := do
  let pagemap ← ask env
  if pagemap = 0 then
    giveBack addr n
    pure none
  else pure (some (addr, n))

/-- A range, if there is one. -/
def lendMapped (n : Nat) : ScM (Option (Nat × Nat)) := do
  let addr ← lend env n
  if addr = 0 then pure none else withPagemap env addr n

/-- `codec_mm_alloc` for a slot, in the free size if that is smaller. -/
def slotFromCodecMm (size : Int) (flags : Nat) : ScM (Option (Nat × Nat)) := do
  let s ← get
  if flags % 2 = 1 ∨ ¬ (size ≤ 0 ∨ size > 64 * 1024) then pure none
  else
    let freeSize ← ask env
    if s.tvpMode ∨ freeSize > s.reservedSize then
      let trySize := if size ≤ 0 then int32 (s.tryAllocInCmaPageCnt * 0x1000) else size
      let freeSize ← ask env
      lendMapped env (pagesOf (min trySize freeSize))
    else pure none

/-- Smaller and smaller blocks of system pages. With a minimum of 0 pages the source asks
forever once the size is 0; the model stops there. -/
def slotFromSysLoop : Nat → Int → ScM (Option (Nat × Nat))
  | 0, _ => pure none
  | rounds + 1, trySize => do
    let n := 1 <<< getOrder trySize
    let addr ← lend env n
    if addr = 0 then
      let s ← get
      if u32 (trySize >>> 13) ≥ s.tryAllocInSysPageCntMin then
        modify fun s => { s with tryAllocInSysPageCnt := u32 (trySize >>> 13) }
        slotFromSysLoop rounds (trySize >>> 1)
      else
        modify fun s => { s with supportFromSlotSys := false }
        pure none
    else withPagemap env addr n

def slotFromSys (size : Int) : ScM (Option (Nat × Nat)) := do
  let s ← get
  let trySize := int32 (if size ≤ 0 then s.tryAllocInSysPageCnt * 0x1000 else pagesOf size * 0x1000)
  if !s.supportFromSlotSys then pure none
  else if 0 ≤ trySize ∧ trySize ≤ 0x2000 then pure none
  else if s.tvpMode || s.noAllocFromSys then pure none
  else slotFromSysLoop env 32 trySize

/-- System memory is tried when there is no codec memory. -/
def slotFromSysIfNone (size : Int) : Option (Nat × Nat) → ScM (Option Nat)
  | some (addr, n) => do
    let num ← codecMmSetSlotInHash .codecMm addr n
    pure (some num)
  | none => do
    let got ← slotFromSys env size
    match got with
    | none => pure none
    | some (addr, n) =>
      let num ← codecMmSetSlotInHash .getFreePages addr n
      pure (some num)

def codecMmSlotAlloc (size : Int) (flags : Nat) : ScM (Option Nat) :=
  if size > 0 ∧ size ≤ 0x1000 then pure none
  else do
    let kmalloc ← ask env
    if kmalloc = 0 then pure none
    else
      let got ← slotFromCodecMm env size flags
      slotFromSysIfNone env size got

/-- `codec_mm_slot_free_page` -/
def codecMmSlotFreePage (slot : Slot) (phyAddr : Nat) : Int × Slot :=
  let bit := (phyAddr - slot.phyAddr) / pageSize
  if slot.pageNum = 0 then (codecMmSErr 4, slot)
  else if !slot.validBit bit then (codecMmSErr 5, slot)
  else if !slot.pagemap bit then (codecMmSErr 6, slot)
  else (0, { slot.setBit bit false with allocedPageNum := slot.allocedPageNum - 1 })

/-- The scan of the pagemap: at most `tryn` bits, from bit `i` on and around. -/
def slotAllocLoop : Nat → Nat → Nat → Slot → List Nat × Nat × Slot
  | 0, _, i, slot => ([], i, slot)
  | tryn + 1, need, i, slot =>
    if need = 0 ∨ slot.onAllocFree ≠ 1 ∨ !slot.validBit i then ([], i, slot)
    else
      let next := if i + 1 ≥ slot.pageNum then 0 else i + 1
      if slot.pagemap i then slotAllocLoop tryn need next slot
      else
        let marked := { slot.setBit i true with allocedPageNum := slot.allocedPageNum + 1 }
        let (pages, last, slot') := slotAllocLoop tryn (need - 1) next marked
        (slot.pageId i :: pages, last, slot')

/-- `codec_mm_slot_alloc_pages`: the pages that were found. -/
def codecMmSlotAllocPages (slot : Slot) (num : Nat) : List Nat × Slot :=
  if slot.allocedPageNum ≥ slot.pageNum then ([], slot)
  else
    let canAlloced := (slot.pageNum - slot.allocedPageNum).toNat
    let (pages, i, slot) := slotAllocLoop slot.pageNum (min num canAlloced) slot.nextBit slot
    (pages, { slot with nextBit := if i ≥ slot.pageNum then 0 else i })

/-! ## Pages from slots and single pages -/

def putSlot (slot : Slot) (s : Sc) : Sc := { s with slots := update Slot.num slot.num (fun _ => slot) s.slots }

/-- A slot that is in no list and has free pages enters the list of such slots. -/
def relistSlot (slot : Slot) (s : Sc) : Sc :=
  if slot.num ∉ s.freeList ∧ slot.allocedPageNum < slot.pageNum then
    { s with freeList := s.freeList ++ [slot.num] } else s

def codecMmPageFreeToSlot (sid addr : Nat) : ScM Int := do
  let s ← get
  match codecMmFindSlotInHash s.slots sid addr with
  | none => pure (-1)
  | some slot =>
    let slot := (codecMmSlotFreePage slot addr).2
    modify (putSlot slot)
    if slot.allocedPageNum = 0 then
      let ret ← codecMmSlotTryFree slot
      if ret = 0 then pure 0
      else
        modify (relistSlot slot)
        pure 0
    else
      modify (relistSlot slot)
      pure 0

/-- The pages one by one, until one is not to be had. -/
def onePagesLoop : Nat → ScM (List Nat)
  | 0 => pure []
  | neednum + 1 => do
    let addr ← lend env 1
    if addr = 0 then pure []
    else
      let pages ← onePagesLoop neednum
      pure (addr2page addr onePageSid :: pages)

def codecMmPageAllocFromOnePages (num : Nat) : ScM (List Nat) := do
  let pages ← onePagesLoop env num
  modify fun s => { s with
    totalPageNum := s.totalPageNum + pages.length
    onePageCnt := s.onePageCnt + pages.length
    allocedPageNum := s.allocedPageNum + pages.length }
  pure pages

/-- A slot of the default size, or one of a quarter of it. -/
def slotAllocTwice : ScM (Option Nat) := do
  let slot ← codecMmSlotAlloc env 0 0
  match slot with
  | some num => pure (some num)
  | none =>
    let s ← get
    codecMmSlotAlloc env (int32 ((s.tryAllocInCmaPageCnt / 4 : Nat) * 0x1000)) 0

/-- The slot to take pages from: the new one, or the first with free pages. -/
def chooseSlot (s : Sc) (fresh : Option Nat) : Option Slot :=
  match (fresh.bind fun num => lookup Slot.num num s.slots).filter (·.onAllocFree = 0) with
  | some slot => some slot
  | none => (s.freeList.head?.bind fun num => lookup Slot.num num s.slots).filter (·.onAllocFree = 0)

/-- Pages of one slot, which leaves the list of slots with free pages and comes back if it
has some left. -/
def takePages (slot : Slot) (neednum : Nat) : ScM (List Nat) := do
  let got := codecMmSlotAllocPages { slot with onAllocFree := slot.onAllocFree + 1 } neednum
  let slot := { got.2 with onAllocFree := got.2.onAllocFree - 1 }
  modify fun s => relistSlot slot (putSlot slot { s with freeList := s.freeList.filter (· ≠ slot.num) })
  pure got.1

/-- No pages are left, as far as the counters and the list tell. -/
def needsSlot (s : Sc) : Bool :=
  s.totalPageNum ≤ 0 || s.allocedPageNum == s.totalPageNum || s.freeList.isEmpty

/-- The pages of the slot that was chosen; `none` leaves the loop. -/
def takeFrom (neednum : Nat) (fresh : Option Nat) : ScM (Option (List Nat)) := do
  let s ← get
  match chooseSlot s fresh with
  | none => pure none
  | some slot =>
    let pages ← takePages slot neednum
    pure (some pages)

/-- One round of the loop. -/
def slotRound (neednum : Nat) : ScM (Option (List Nat)) := do
  let s ← get
  if needsSlot s then
    let slot ← slotAllocTwice env
    match slot with
    | none => pure none
    | some num => takeFrom neednum (some num)
  else takeFrom neednum none

/-- Every round that does not leave the loop takes a page, so `neednum` rounds are enough. -/
def fromSlotLoop : Nat → Nat → ScM (List Nat)
  | 0, _ => pure []
  | rounds + 1, neednum => do
    let got ← slotRound env neednum
    match got with
    | none => pure []
    | some pages =>
      if neednum - pages.length > 0 then
        let rest ← fromSlotLoop rounds (neednum - pages.length)
        pure (pages ++ rest)
      else pure pages

/-- Neither slots with free pages, nor codec memory, nor slots of system memory. -/
def noSource (s : Sc) (freeSize : Nat) : Bool :=
  !s.tvpMode && s.freeList.isEmpty && freeSize < s.reservedSize && !s.supportFromSlotSys

def codecMmPageAllocFromSlot (num : Nat) : ScM (List Nat) := do
  let freeSize ← ask env
  let s ← get
  if noSource s freeSize then pure []
  else
    let pages ← fromSlotLoop env num num
    modify fun s => { s with
      allocedPageNum := s.allocedPageNum + pages.length
      maxAlloced := max s.maxAlloced (s.allocedPageNum + pages.length) }
    pure pages

/-! ## Scatters -/

def Smgt.isCacheSc (s : Smgt) (mms : Nat) : Bool := s.cacheSc0 == some mms || s.cacheSc1 == some mms

def modifyScatter (mms : Nat) (f : Scatter → Scatter) : ScM Unit :=
  modify fun s => { s with scatters := update Scatter.num mms f s.scatters }

/-- `memcpy` into a page list. -/
def writeAt (l : List Nat) (off : Nat) (pages : List Nat) : List Nat :=
  l.take off ++ pages ++ l.drop (off + pages.length)

/-- Pages enter at the tail. -/
def Scatter.push (mms : Scatter) (pages : List Nat) : Scatter :=
  { mms with
    pagesList := writeAt mms.pagesList (mms.pageTail + 1).toNat pages
    pageCnt := mms.pageCnt + pages.length
    pageTail := mms.pageTail + pages.length }

/-- Entries of the page list. -/
def Scatter.pagesAt (mms : Scatter) (off : Int) (n : Nat) : List Nat := (mms.pagesList.drop off.toNat).take n

/-- The last `n` pages leave; they start at `off`. -/
def Scatter.pop (mms : Scatter) (off : Int) (n : Nat) : Scatter :=
  { mms with
    pagesList := writeAt mms.pagesList off.toNat (List.replicate n 0)
    pageCnt := mms.pageCnt - n
    pageTail := mms.pageTail - n }

def Scatter.cntOf (scatters : List Scatter) (mms : Nat) : Int :=
  ((lookup Scatter.num mms scatters).map (·.pageCnt)).getD 0

/-- `codec_mm_get_next_cache_scatter`; `more` is its flag 1. -/
def codecMmGetNextCacheScatter (s : Smgt) (cur : Option Nat) (more : Bool) : Option Nat :=
  match cur with
  | some mms => if s.cacheSc0 = some mms then s.cacheSc1 else s.cacheSc0
  | none =>
    match s.cacheSc0, s.cacheSc1 with
    | some mms0, some mms1 =>
      if Scatter.cntOf s.scatters mms0 ≥ Scatter.cntOf s.scatters mms1 then
        if more then some mms0 else some mms1
      else if more then some mms1 else some mms0
    | some mms0, none => some mms0
    | none, mms1 => mms1

/-- `codec_mm_page_alloc_from_free_scatter` -/
def codecMmPageAllocFromFreeScatter (src : Option Nat) (num : Nat) : ScM (List Nat) := do
  let s ← get
  match src.bind fun mms => lookup Scatter.num mms s.scatters with
  | none => pure []
  | some mms =>
    let alloced := (min mms.pageCnt num).toNat
    modifyScatter mms.num (·.pop (mms.pageTail - alloced + 1) alloced)
    modify fun s => { s with cachedPages := s.cachedPages - alloced }
    pure (mms.pagesAt (mms.pageTail - alloced + 1) alloced)

def codecMmPageAllocFromCacheScatter (num : Nat) : ScM (List Nat) := do
  let s ← get
  let src := codecMmGetNextCacheScatter s.toSmgt none true
  let pages ← codecMmPageAllocFromFreeScatter src num
  if pages.length < num then
    let s ← get
    let more ← codecMmPageAllocFromFreeScatter (codecMmGetNextCacheScatter s.toSmgt src true) (num - pages.length)
    pure (pages ++ more)
  else pure pages

/-- Where the next pages are asked for: the caches, then the slots, then single pages. -/
inductive PageSource
  | scatter
  | slot
  | onePages
  deriving DecidableEq, Repr

def PageSource.ask (num : Nat) : PageSource → ScM (List Nat)
  | .scatter => codecMmPageAllocFromCacheScatter num
  | .slot => codecMmPageAllocFromSlot env num
  | .onePages => codecMmPageAllocFromOnePages env num

/-- The source after one that had nothing; `none` leaves the loop. -/
def PageSource.next (s : Sc) : PageSource → Option PageSource
  | .scatter => some .slot
  | .slot => if !s.noAllocFromSys && !s.tvpMode then some .onePages else none
  | .onePages => none

/-- Every round takes a page, goes on to the next source or leaves the loop. -/
def allocAllLoop : Nat → PageSource → Nat → ScM (List Nat)
  | 0, _, _ => pure []
  | rounds + 1, source, num =>
    if num = 0 then pure []
    else do
      let pages ← source.ask env num
      if pages.length = 0 then
        let s ← get
        match source.next s with
        | none => pure []
        | some source => allocAllLoop rounds source num
      else
        let rest ← allocAllLoop rounds source (num - pages.length)
        pure (pages ++ rest)

def codecMmPageAllocAllLocked (num : Nat) (iscache : Bool) : ScM (List Nat) :=
  allocAllLoop env (num + 3) (if iscache then .slot else .scatter) num

/-! ## Freeing pages -/

/-- `codec_mm_pages_free_to_scatter` between two scatters. -/
def movePages (src dst : Scatter) : ScM Int := do
  let moved := (min (src.pageCnt - src.pageUsed) (dst.pageMaxCnt - dst.pageCnt)).toNat
  let left := src.pageCnt - moved
  modifyScatter dst.num (·.push (src.pagesAt left moved))
  modifyScatter src.num (·.pop left moved)
  modify fun s => { s with cachedPages := s.cachedPages + moved }
  pure moved

def codecMmPagesFreeToScatter (src : Scatter) (dst : Option Nat) : ScM Int := do
  let s ← get
  if src.pageUsed ≥ src.pageCnt then pure (-1)
  else if dst = some src.num then pure 0
  else
    match dst.bind fun mms => lookup Scatter.num mms s.scatters with
    | none => pure 0
    | some dst => movePages src dst

def codecMmPageFreeToCacheScatter (mms : Nat) : ScM Int := do
  let s ← get
  match lookup Scatter.num mms s.scatters with
  | none => pure 0
  | some src => codecMmPagesFreeToScatter src (codecMmGetNextCacheScatter s.toSmgt none false)

/-- A single page goes back to the system. -/
def freeOnePage (mms : Nat) (id : Int) (page : Nat) (s : Sc) : Sc :=
  { s with
    lent := s.lent.filter fun f => !inRange (pageAddr page / pageSize) 1 f
    onePageCnt := s.onePageCnt - 1
    totalPageNum := s.totalPageNum - 1
    scatters := update Scatter.num mms (fun m => { m with
      pageTail := if id = m.pageTail then m.pageTail - 1 else m.pageTail
      pageCnt := m.pageCnt - 1 }) s.scatters }

/-- A page goes back to where it came from. -/
def freePage (mms : Nat) (id : Int) (page : Nat) : ScM Int :=
  if !validSid (pageSid page) then pure (codecMmSErr 2)
  else if pageSid page = onePageSid then do
    modify (freeOnePage mms id page)
    pure 0
  else do
    let ret ← codecMmPageFreeToSlot (pageSid page) (pageAddr page)
    if ret = 0 then
      modifyScatter mms fun m => { m with pageCnt := m.pageCnt - 1, pageTail := m.pageTail - 1 }
      pure ret
    else pure ret

def codecMmScatterFreePageIdLocked (mms : Nat) (id : Int) : ScM Int := do
  let s ← get
  match lookup Scatter.num mms s.scatters with
  | none => pure (codecMmSErr 1)
  | some m =>
    if m.pageCnt ≤ id ∨ id < 0 then pure (codecMmSErr 1)
    else freePage mms id (m.pagesList.getD id.toNat 0)

/-- The loop of `codec_mm_scatter_free_pages_in_locked`, from the tail down. -/
def freePagesLoop (mms : Nat) : Nat → Int → ScM Unit
  | 0, _ => pure ()
  | left + 1, i => do
    let _ ← codecMmScatterFreePageIdLocked mms i
    modifyScatter mms fun m => { m with pagesList := m.pagesList.set i.toNat 0 }
    freePagesLoop mms left (i - 1)

def codecMmScatterFreePagesInLocked (mms : Nat) (startId : Int) : ScM Unit := do
  let s ← get
  match lookup Scatter.num mms s.scatters with
  | none => pure ()
  | some m =>
    let freeNum := (m.pageTail - startId + 1).toNat
    freePagesLoop mms freeNum m.pageTail
    modify fun s => { s with
      allocedPageNum := s.allocedPageNum - freeNum
      cachedPages := if s.isCacheSc mms then s.cachedPages - freeNum else s.cachedPages }

/-- The first page to free: from `id` on, the unused ones (mode 1) or the last `id` (mode 2). -/
def startFreeId (m : Scatter) (id : Int) (freeMode : Nat) : Int :=
  if freeMode = 1 then m.pageUsed
  else if freeMode = 2 then
    if id > 0 then if id ≥ m.pageCnt then 0 else m.pageCnt - id else -1
  else id

/-- The pages behind the used ones: left alone (mode 1), moved to a cache (mode 2), moved and
the rest freed (mode 3), or freed. -/
def freeUnused (mms : Nat) (start : Int) (fastMode : Nat) : ScM Int :=
  if fastMode = 1 then pure 0
  else if fastMode = 2 then do
    let _ ← codecMmPageFreeToCacheScatter mms
    pure 0
  else if fastMode = 3 then do
    let _ ← codecMmPageFreeToCacheScatter mms
    let s ← get
    match lookup Scatter.num mms s.scatters with
    | none => pure 0
    | some m =>
      if m.pageUsed = m.pageCnt then pure 0
      else do
        codecMmScatterFreePagesInLocked mms start
        pure 0
  else do
    codecMmScatterFreePagesInLocked mms start
    pure 0

def codecMmScatterFreeTailPagesIn (mms : Nat) (id : Int) (fastMode freeMode : Nat) : ScM Int := do
  let s ← get
  match lookup Scatter.num mms s.scatters with
  | none => pure (-1)
  | some m =>
    let start := startFreeId m id freeMode
    if start < 0 ∨ start ≥ m.pageCnt ∨ m.pageTail < 0 then pure (-1)
    else do
      modifyScatter mms fun m => { m with pageUsed := start }
      freeUnused mms start fastMode

def codecMmScatterFreeUnusedPages (mms : Nat) : ScM Int := codecMmScatterFreeTailPagesIn mms 0 0 1

def codecMmScatterLessPages (mms : Nat) (nums : Int) : ScM Int := codecMmScatterFreeTailPagesIn mms nums 0 2

/-! ## Life of a scatter -/

/-- MAX_SC_LIST -/
def maxScList : Nat := 64

/-- The first empty entry; a full map is left as it is. -/
def codecMmScatterMapAddLocked (mms : Nat) : List (Option Nat) → List (Option Nat)
  | [] => []
  | none :: rest => some mms :: rest
  | some other :: rest => some other :: codecMmScatterMapAddLocked mms rest

def codecMmScatterMapDelLocked (mms : Nat) : List (Option Nat) → List (Option Nat)
  | [] => []
  | entry :: rest => if entry = some mms then none :: rest else entry :: codecMmScatterMapDelLocked mms rest

def codecMmScatterValidLocked (s : Smgt) (mms : Nat) : Bool := s.scmap.contains (some mms)

/-- After a large scatter is freed, larger blocks are tried again. -/
def growSysBlocks (free : Int) (s : Sc) : Sc :=
  if free ≥ 256 ∧ s.tryAllocInSysPageCnt < s.tryAllocInSysPageCntMax ∧ s.totalPageNum < 0x2000 then
    { s with
      tryAllocInSysPageCnt := s.tryAllocInSysPageCnt * 2
      supportFromSlotSys := if !s.supportFromSlotSys then s.enableSlotFromSys else s.supportFromSlotSys }
  else s

/-- The scatter leaves the lists of the manager. -/
def unlinkScatter (mms : Nat) (notInMgt : Bool) (s : Sc) : Sc :=
  { s with
    scatterList := s.scatterList.filter (· ≠ mms)
    scattersCnt := if notInMgt then s.scattersCnt else s.scattersCnt - 1
    scmap := if notInMgt then s.scmap else codecMmScatterMapDelLocked mms s.scmap }

def freePagesOf (m : Scatter) : ScM Int :=
  if m.pageCnt > 0 then codecMmScatterFreeTailPagesIn m.num 0 0 0 else pure m.userCnt.toInt

/-- The pages and the structure go. -/
def freeScatter (m : Scatter) (notInMgt : Bool) : ScM Int := do
  modify (unlinkScatter m.num notInMgt)
  let ret ← freePagesOf m
  modify (growSysBlocks m.pageCnt)
  modify fun s => { s with scatters := remove Scatter.num m.num s.scatters, freed := m.num :: s.freed }
  pure ret

def codecMmScatterFreeOnNouserExt (mms : Nat) (notInMgt : Bool) : ScM Int := do
  let s ← get
  match lookup Scatter.num mms s.scatters with
  | none => pure 0
  | some m => if m.userCnt > 0 then pure 0 else freeScatter m notInMgt

def codecMmScatterFreeOnNouser (mms : Nat) : ScM Int := codecMmScatterFreeOnNouserExt mms false

def codecMmScatterIncUserIn1 (mms : Nat) (cnt : Int32) : ScM Int := do
  let s ← get
  match lookup Scatter.num mms s.scatters with
  | none => pure (-1)
  | some m =>
    if !codecMmScatterValidLocked s.toSmgt mms then pure (-1)
    else if m.userCnt ≥ 0 then do
      let now ← ask env
      modifyScatter mms fun m => { m with
        userCnt := m.userCnt + cnt
        tofreeJiffies := if m.userCnt = 1 then now else m.tofreeJiffies }
      pure (if (m.userCnt + cnt).toInt ≤ 0 then (m.userCnt + cnt).toInt else 0)
    else pure (-1)

def codecMmScatterDecUserIn1 (mms : Nat) (delayFreeMs : Nat) (cnt : Int32) : ScM Int := do
  let s ← get
  match lookup Scatter.num mms s.scatters with
  | none => pure (-1)
  | some m =>
    if !codecMmScatterValidLocked s.toSmgt mms then pure (-1)
    else if m.userCnt ≥ 1 then do
      let now ← ask env
      modifyScatter mms fun m => { m with
        userCnt := m.userCnt - cnt
        tofreeJiffies := if m.userCnt - cnt = 0 then now + delayFreeMs else m.tofreeJiffies }
      pure 0
    else pure 0

def keeperWeight : Int32 := 100

def ownerWeight : Int32 := 1000

/-! ## Making a scatter -/

/-- The structure of a scatter without pages. -/
def newScatter (num : Nat) (maxPage : Int) : Scatter :=
  { num, pagesList := List.replicate maxPage.toNat 0, pageMaxCnt := maxPage, pageCnt := 0, pageTail := -1,
    pageUsed := 0, userCnt := 0, tofreeJiffies := 0 }

/-- The scatter enters the lists, with its owner. -/
def enlistScatter (mms : Nat) (s : Sc) : Sc :=
  { s with
    scatters := update Scatter.num mms
      (fun m => { m with userCnt := ownerWeight, pageUsed := m.pageCnt }) s.scatters
    scatterList := s.scatterList ++ [mms]
    scattersCnt := s.scattersCnt + 1
    scmap := codecMmScatterMapAddLocked mms s.scmap }

/-- The pages of a new scatter; without any it is freed again. -/
def fillNew (mms : Nat) (pages : List Nat) : ScM (Option Nat) :=
  if pages.length = 0 then do
    let _ ← codecMmScatterFreeOnNouserExt mms true
    pure none
  else do
    modifyScatter mms (·.push pages)
    modify (enlistScatter mms)
    pure (some mms)

def codecMmScatterAllocNew (maxPage pageNum : Int) : ScM (Option Nat) :=
  if maxPage < pageNum ∨ maxPage < 0 then pure none
  else do
    let vmalloc ← ask env
    let s ← get
    if vmalloc = 0 then pure none
    else
      modify fun s => { s with
        scatters := s.scatters ++ [newScatter s.nextScatter maxPage], nextScatter := s.nextScatter + 1 }
      if pageNum > 0 then
        let pages ← codecMmPageAllocAllLocked env pageNum.toNat (s.isCacheSc s.nextScatter)
        fillNew s.nextScatter pages
      else
        modify (enlistScatter s.nextScatter)
        pure (some s.nextScatter)

/-- The pages a request is missing. -/
def fillWanted (m : Scatter) (wantPages : Int) : ScM Int := do
  let s ← get
  let pages ← codecMmPageAllocAllLocked env (wantPages - m.pageCnt).toNat (s.isCacheSc m.num)
  if pages.length = 0 then pure 0
  else
    modifyScatter m.num (·.push pages)
    modify fun s => { s with
      cachedPages := if s.isCacheSc m.num then s.cachedPages + pages.length else s.cachedPages }
    pure 0

def codecMmScatterAllocWantPagesIn (mms : Nat) (wantPages : Int) : ScM Int := do
  let s ← get
  match lookup Scatter.num mms s.scatters with
  | none => pure (-1)
  | some m =>
    if wantPages > m.pageMaxCnt then pure (codecMmSErr 100)
    else do
      modifyScatter mms fun m => { m with pageUsed := wantPages }
      if wantPages > m.pageCnt then fillWanted env m wantPages
      else pure 0

/-- The last scatter of the list that is large enough and has no user. -/
def idleScatter (s : Sc) (maxPage : Int) : Option Nat :=
  s.scatterList.reverse.find? fun num =>
    (lookup Scatter.num num s.scatters).any fun m => m.pageMaxCnt ≥ maxPage && m.userCnt == 0

/-- A scatter without a user is taken again, or a new one made. -/
def scatterForAlloc (maxPage : Int) : ScM (Option Nat) := do
  let s ← get
  match idleScatter s maxPage with
  | some mms =>
    modifyScatter mms fun m => { m with userCnt := m.userCnt + ownerWeight, pageUsed := m.pageCnt }
    pure (some mms)
  | none => codecMmScatterAllocNew env maxPage 0

def codecMmScatterAlloc (maxPage pageNum : Int) : ScM (Option Nat) := do
  let mms ← scatterForAlloc env maxPage
  match mms with
  | none => pure none
  | some mms =>
    let ret ← codecMmScatterAllocWantPagesIn env mms pageNum
    if ret < 0 then
      modifyScatter mms fun m => { m with userCnt := m.userCnt - ownerWeight }
      pure none
    else pure (some mms)

/-! ## The monitor -/

/-- `codec_mm_free_all_free_slots_in`, a slot a round. -/
def freeSlotsLoop : Nat → ScM Unit
  | 0 => pure ()
  | rounds + 1 => do
    let s ← get
    match (s.freeList.reverse.filterMap fun num => lookup Slot.num num s.slots).find? (·.allocedPageNum = 0) with
    | none => pure ()
    | some slot =>
      modify fun s => { s with freeList := s.freeList.filter (· ≠ slot.num) }
      let _ ← codecMmSlotFree slot
      freeSlotsLoop rounds

def codecMmFreeAllFreeSlotsIn : ScM Unit := do
  let s ← get
  freeSlotsLoop s.freeList.length

def codecMmScatterUpdateConfig (s : Sc) : Sc :=
  { s with
    keepSizePage := env.config.keepSizePage
    reservedBlockMmM := env.config.reservedBlockMmM
    tryAllocInCmaPageCnt := env.config.tryAllocInCmaPageCnt
    tryAllocInSysPageCntMax := env.config.tryAllocInSysPageCntMax
    tryAllocInSysPageCntMin := env.config.tryAllocInSysPageCntMin
    enableSlotFromSys := env.config.enableSlotFromSys
    supportFromSlotSys := env.config.supportFromSlotSys
    noCacheSizeM := env.config.noCacheSizeM
    noAllocFromSys := env.config.noAllocFromSys }

/-- A new scatter becomes a cache: it leaves the list of scatters. -/
def makeCache (set : Option Nat → Sc → Sc) : ScM Unit := do
  let mms ← codecMmScatterAllocNew env 16384 0
  match mms with
  | none => pure ()
  | some mms => modify fun s => set (some mms) { s with scatterList := s.scatterList.filter (· ≠ mms) }

/-- A cache gives up its owner and is freed. A scatter is registered with its own manager
only. -/
def dropCache : Option Nat → ScM Unit
  | none => pure ()
  | some mms => do
    let _ ← codecMmScatterDecUserIn1 env mms 0 ownerWeight
    let _ ← codecMmScatterFreeOnNouser mms
    pure ()

def makeCaches : ScM Unit := do
  makeCache env fun mms s => { s with cacheSc0 := mms }
  makeCache env fun mms s => { s with cacheSc1 := mms }

def dropCaches : ScM Unit := do
  let s ← get
  modify fun s => { s with cacheSc0 := none, cacheSc1 := none, cachedPages := 0 }
  dropCache env s.cacheSc0
  dropCache env s.cacheSc1

/-- `codec_mm_scatter_scatter_arrange`. At its end the last scatter of the list is moved to
the tail, where it is. -/
def codecMmScatterScatterArrange : ScM Unit := do
  let s ← get
  if s.delayFreeOn > 0 ∧ s.cacheSc0 = none then makeCaches env
  else
    let now ← ask env
    if s.delayFreeOn ≤ 0 ∧ s.cacheSc0 ≠ none ∧ now > s.delayFreeTimeout then dropCaches env
    else pure ()

structure ScatterScan where
  toFree : Option Scatter
  toFreeCnt : Nat
  lessPage : Option Nat

/-- The scan of the list ends at the first scatter with unused pages. -/
def scanScatters (scatters : List Scatter) : List Nat → Option Scatter → Nat → ScatterScan
  | [], toFree, cnt => ⟨toFree, cnt, none⟩
  | num :: rest, toFree, cnt =>
    match lookup Scatter.num num scatters with
    | none => scanScatters scatters rest toFree cnt
    | some m =>
      let sooner := toFree.all fun f => m.tofreeJiffies < f.tofreeJiffies
      let toFree := if m.userCnt = 0 ∧ sooner then some m else toFree
      let cnt := if m.userCnt = 0 then cnt + 1 else cnt
      if m.pageUsed < m.pageCnt then ⟨toFree, cnt, some num⟩ else scanScatters scatters rest toFree cnt

/-- A scatter without a user is marked as gone and freed. -/
def clearScatter (mms : Nat) : ScM Unit := do
  modify fun s => { s with
    scatters := update Scatter.num mms (fun m => { m with userCnt := m.userCnt - 100000 }) s.scatters
    scatterList := s.scatterList.filter (· ≠ mms) }
  let _ ← codecMmScatterFreeOnNouser mms
  pure ()

def clearLess (toFree lessPage : Option Nat) : ScM Unit :=
  match lessPage with
  | none => pure ()
  | some less =>
    if lessPage = toFree then pure ()
    else do
      let _ ← codecMmScatterFreeUnusedPages less
      pure ()

/-- The scatter that goes: without `force`, one whose time is over and not the only one kept. -/
def ScatterScan.chosen (scan : ScatterScan) (delayFreeOn : Int) (now : Nat) (force : Bool) : Option Nat :=
  (scan.toFree.filter fun m =>
    ((scan.toFreeCnt > 1 ∨ delayFreeOn = 0) ∧ now > m.tofreeJiffies) ∨ force).map (·.num)

def clearChosen (lessPage : Option Nat) : Option Nat → ScM Unit
  | none => clearLess none lessPage
  | some mms => do
    clearScatter mms
    clearLess (some mms) lessPage

def codecMmScatterScatterClear (force : Bool) : ScM Unit := do
  let now ← ask env
  let s ← get
  let scan := scanScatters s.scatters s.scatterList none 0
  clearChosen scan.lessPage (scan.chosen s.delayFreeOn now force)

/-- The caches are given up one after the other. -/
def dropCachesLoop : Nat → ScM Unit
  | 0 => pure ()
  | rounds + 1 => do
    let s ← get
    modify fun s => { s with delayFreeOn := 0, cacheSc0 := s.cacheSc1, cacheSc1 := none, cachedPages := 0 }
    dropCache env s.cacheSc0
    let s ← get
    if s.cacheSc0 ≠ none then dropCachesLoop rounds else pure ()

/-- The scatters without a user, at most one a round. -/
def clearLoop : Nat → ScM Unit
  | 0 => pure ()
  | retries + 1 => do
    codecMmScatterScatterClear env true
    let s ← get
    if s.scattersCnt > 0 then clearLoop retries else pure ()

/-- `codec_mm_scatter_free_all_ignorecache_in`; two rounds empty the caches. -/
def codecMmScatterFreeAllIgnorecacheIn : ScM Int := do
  dropCachesLoop env 2
  clearLoop env 1001
  codecMmFreeAllFreeSlotsIn
  let s ← get
  pure s.totalPageNum

/-- What a cache is filled up to. -/
def cacheNeed (s : Sc) (m : Scatter) : Int :=
  let onceAlloc := if s.forceCacheOn then max 4000 (s.totalPageNum - s.allocedPageNum) else 1000
  let need := min (m.pageCnt + onceAlloc) s.forceCachePageCnt
  if need > m.pageMaxCnt then m.pageMaxCnt - 4 else need

def stopForceCache (now : Nat) (s : Sc) : Sc :=
  if s.forceCacheOn then { s with forceCacheOn := false, delayFreeTimeout := now + 2000 } else s

def growCache (m : Scatter) : ScM Unit := do
  let s ← get
  if cacheNeed s m > m.pageCnt then
    let ret ← codecMmScatterAllocWantPagesIn env m.num (cacheNeed s m)
    let now ← ask env
    modify fun s => if ret = 0 ∧ s.cachedPages ≥ s.forceCachePageCnt then stopForceCache now s else s
  else pure ()

def onNextCache (f : Scatter → ScM Unit) : ScM Unit := do
  let s ← get
  match (codecMmGetNextCacheScatter s.toSmgt none false).bind fun mms => lookup Scatter.num mms s.scatters with
  | none => pure ()
  | some m => f m

/-- Enough pages for most movies: nothing more is cached. -/
def enoughPages (s : Sc) : Bool :=
  s.noCacheSizeM > 0 && u32 s.cachedPages ≤ s.keepSizePage && u32 s.totalPageNum ≥ s.noCacheSizeM * 256

def wantsCache (s : Sc) : Bool :=
  u32 s.cachedPages < s.keepSizePage || (s.forceCacheOn && s.totalPageNum < s.forceCachePageCnt)

def codecMmScatterCacheManage : ScM Unit := do
  let now ← ask env
  let s ← get
  if s.delayFreeOn > 0 ∧ s.keepSizePage > 0 then
    if enoughPages s then modify (stopForceCache now)
    else if wantsCache s then onNextCache (growCache env)
    else if u32 s.cachedPages > s.keepSizePage + 1000 ∧ now > s.delayFreeTimeout then
      onNextCache fun m => do
        let _ ← codecMmScatterLessPages m.num 256
        pure ()
      codecMmFreeAllFreeSlotsIn
    else pure ()
  else if s.delayFreeOn ≤ 0 ∧ now > s.delayFreeTimeout then codecMmFreeAllFreeSlotsIn
  else pure ()

def codecMmScatterMonitor : ScM Unit := do
  modify (codecMmScatterUpdateConfig env)
  codecMmScatterScatterArrange env
  codecMmScatterScatterClear env false
  codecMmScatterCacheManage env

/-- `codec_mm_scatter_mgt_delay_free_swith` -/
def codecMmScatterMgtDelayFreeSwith (on : Bool) (delayMs waitSizeM : Nat) : ScM Unit := do
  let now ← ask env
  if on then
    modify fun s => { s with
      delayFreeOn := s.delayFreeOn + 1
      forceCacheOn := if waitSizeM > 0 then true else s.forceCacheOn
      forceCachePageCnt := if waitSizeM > 0 then waitSizeM / 0x1000 else s.forceCachePageCnt
      delayFreeTimeout := if waitSizeM > 0 then now + 10000 else now + delayMs }
  else
    modify fun s => { s with
      delayFreeOn := if s.delayFreeOn - 1 ≤ 0 then 0 else s.delayFreeOn - 1
      delayFreeTimeout := if s.delayFreeOn - 1 ≤ 0 then now + delayMs else s.delayFreeTimeout }

/-! ## The two managers -/

/-- `codec_mm_scatter_mgt_alloc_in` -/
def codecMmScatterMgtAllocIn (tvpMode : Bool) (noCacheSizeM : Nat) : Smgt where
  tvpMode := tvpMode
  slots := []
  freeList := []
  scatters := []
  scatterList := []
  scmap := List.replicate maxScList none
  cacheSc0 := none
  cacheSc1 := none
  totalPageNum := 0
  allocedPageNum := 0
  maxAlloced := 0
  onePageCnt := 0
  scattersCnt := 0
  slotCnt := 0
  cachedPages := 0
  allocFromSysScCnt := 0
  allocFromSysPageCnt := 0
  allocFromSysMaxPageCnt := 0
  tryAllocInCmaPageCnt := 4096
  tryAllocInSysPageCnt := 128
  tryAllocInSysPageCntMax := 128
  tryAllocInSysPageCntMin := 8
  enableSlotFromSys := false
  supportFromSlotSys := false
  noAllocFromSys := false
  reservedBlockMmM := 300
  keepSizePage := 5120
  noCacheSizeM := noCacheSizeM
  delayFreeOn := 0
  forceCacheOn := false
  forceCachePageCnt := 0
  delayFreeTimeout := 0
  nextSlot := 1

/-- `scatter_mgt` and `scatter_tvp_mgt` -/
structure Managers where
  scatterMgt : Smgt
  scatterTvpMgt : Smgt
  ram : Ram

def Managers.mgt (w : Managers) (istvp : Bool) : Smgt := if istvp then w.scatterTvpMgt else w.scatterMgt

def Managers.sc (w : Managers) (istvp : Bool) : Sc := { toSmgt := w.mgt istvp, toRam := w.ram }

def Managers.put (w : Managers) (istvp : Bool) (s : Sc) : Managers :=
  if istvp then { w with scatterTvpMgt := s.toSmgt, ram := s.toRam }
  else { w with scatterMgt := s.toSmgt, ram := s.toRam }

/-- `codec_mm_get_scatter_mgt`: an operation of one of the managers. -/
def onMgt {α : Type} (istvp : Bool) (x : ScM α) : StateM Managers α := fun w =>
  ((x (w.sc istvp)).1, w.put istvp (x (w.sc istvp)).2)

/-- `mms->manager` -/
def Managers.manager (w : Managers) (mms : Nat) : Bool :=
  (lookup Scatter.num mms w.scatterTvpMgt.scatters).isSome

/-- An operation on a scatter, by its own manager. -/
def onScatter {α : Type} (mms : Nat) (x : ScM α) : StateM Managers α := fun w => onMgt (w.manager mms) x w

def codecMmScatterIncUserIn (mms : Nat) (cnt : Int32) : StateM Managers Int := do
  let ret ← onMgt false (codecMmScatterIncUserIn1 env mms cnt)
  if ret < 0 then onMgt true (codecMmScatterIncUserIn1 env mms cnt) else pure ret

def codecMmScatterDecUserIn (mms delayFreeMs : Nat) (cnt : Int32) : StateM Managers Int := do
  let ret ← onMgt false (codecMmScatterDecUserIn1 env mms delayFreeMs cnt)
  if ret < 0 then onMgt true (codecMmScatterDecUserIn1 env mms delayFreeMs cnt) else pure ret

def codecMmScatterIncForKeeper (mms : Nat) : StateM Managers Int := codecMmScatterIncUserIn env mms keeperWeight

def codecMmScatterDecKeeperUser (mms delayMs : Nat) : StateM Managers Int :=
  codecMmScatterDecUserIn env mms delayMs keeperWeight

def codecMmScatterDecOwnerUser (mms delayMs : Nat) : StateM Managers Int :=
  codecMmScatterDecUserIn env mms delayMs ownerWeight

end AmlogicV901d.Source.CodecMmScatter
