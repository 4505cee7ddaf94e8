import AmlogicV901d.Lib.ByteMemory
import AmlogicV901d.Lib.StateTriple

/-!
# The dtb device of the kernel

`mmc/emmc_partitions.c:34-393` and `include/linux/mmc/emmc_partitions.h`.

The card is a byte memory with blocks of 512 bytes. Buffers come from `kmalloc` with
whatever the heap holds, which is a parameter of every call. A transfer that fails
leaves its target as it was.
-/
namespace AmlogicV901d.Source.DtbDevice
open Lib.ByteMemory Lib.StateTriple

def configDtbSize : Nat := 0x40000

def dtbCellSize : Nat := 0x4000

/-- `1 << read_blkbits` -/
def blkSize : Nat := 0x200

def dtbBlkCnt : Nat := 512

def maxTransBlk : Nat := 256

def maxTransSize : Nat := maxTransBlk * blkSize

/-- MMC_DTB_PART_OFFSET -/
def mmcDtbPartOffset : Nat := 40 * 0x100000

def dtbReserveOffset : Nat := 4 * 0x100000

/-- -EFAULT -/
def efault : Int := -14

/-! ## The tail of an image -/

def magicAt : Nat := configDtbSize - 16

def versionAt : Nat := configDtbSize - 12

def timestampAt : Nat := configDtbSize - 8

def checksumAt : Nat := configDtbSize - 4

/-- `stamp_after`, on wrapped 32-bit integers. -/
def stampAfter (a b : UInt32) : Bool := b.toInt32 - a.toInt32 < 0

def calcDtbChecksum (dtb : Memory) : UInt32 :=
  (List.range ((configDtbSize - 4) / 4)).foldl (fun checksum i => checksum + loadU32 dtb (4 * i)) 0

/-- Nonzero for a wrong checksum. -/
def verifyDtbChecksum (dtb : Memory) : Bool := !(calcDtbChecksum dtb == loadU32 dtb checksumAt)

/-- `struct aml_dtb_info` -/
structure AmlDtbInfo where
  stamp0 : UInt32
  stamp1 : UInt32
  valid0 : Bool
  valid1 : Bool

/-- The card, `dtb_infos` and the number of transfers so far. -/
structure DtbDev where
  card : Memory
  infos : AmlDtbInfo
  tick : Nat

structure DevEnv where
  /-- `get_reserve_partition_off_from_tbl` -/
  reservedOff : Nat
  fails : Nat → Bool

abbrev DevM := StateM DtbDev

section Device
variable (env : DevEnv)

/-- `mmc_read_internal`; the flag is true on failure. -/
def mmcReadInternal (blk blocks : Nat) (dst : Memory) (off : Nat) : DevM (Bool × Memory) := fun s =>
  ((env.fails s.tick, if env.fails s.tick then dst else memcpy dst off s.card (blk * blkSize) (blocks * blkSize)),
    { s with tick := s.tick + 1 })

/-- `mmc_write_internal`; true on failure. -/
def mmcWriteInternal (blk blocks : Nat) (src : Memory) (off : Nat) : DevM Bool := fun s =>
  (env.fails s.tick, { s with
    card := if env.fails s.tick then s.card else memcpy s.card (blk * blkSize) src off (blocks * blkSize)
    tick := s.tick + 1 })

/-- The rounds of `_dtb_write`; every round but the first starts at MAX_TRANS_SIZE. -/
def dtbWriteLoop (buf : Memory) : Nat → Nat → Nat → DevM Int
  | 0, _, _ => pure 0
  | rounds + 1, blk, src => do
    if ← mmcWriteInternal env blk maxTransBlk buf src then pure efault
    else dtbWriteLoop buf rounds (blk + maxTransBlk) maxTransSize

/-- `_dtb_write` -/
def dtbWrite (blk : Nat) (buf : Memory) : DevM Int :=
  dtbWriteLoop env buf (configDtbSize / blkSize / maxTransBlk) blk 0

/-- The rounds of `_dtb_read`. -/
def dtbReadLoop : Nat → Nat → Nat → Memory → DevM (Int × Memory)
  | 0, _, _, buf => pure (0, buf)
  | rounds + 1, blk, dst, buf => do
    let got ← mmcReadInternal env blk maxTransBlk buf dst
    if got.1 then pure (efault, got.2) else dtbReadLoop rounds (blk + maxTransBlk) maxTransSize got.2

/-- `_dtb_read` -/
def dtbRead (blk : Nat) (buf : Memory) : DevM (Int × Memory) :=
  dtbReadLoop env (configDtbSize / blkSize / maxTransBlk) blk 0 buf

def dtbBlk (cpy : Nat) : Nat := (env.reservedOff + dtbReserveOffset) / blkSize + cpy * dtbBlkCnt

def noteCopy (cpy : Nat) (timestamp : UInt32) (s : DtbDev) : DtbDev :=
  { s with infos := if cpy = 0 then { s.infos with stamp0 := timestamp, valid0 := true }
                    else { s.infos with stamp1 := timestamp, valid1 := true } }

/-- One round of `_dtb_init`. -/
def initCopy (cpy : Nat) (dtb : Memory) : DevM Memory := do
  let got ← dtbRead env (dtbBlk env cpy) dtb
  if got.1 = 0 ∧ !verifyDtbChecksum got.2 then
    modify (noteCopy cpy (loadU32 got.2 timestampAt))
    pure got.2
  else pure got.2

/-- `_dtb_init`, DTB2 first. -/
def dtbInit (heap : Memory) : DevM Unit := do
  let dtb ← initCopy env 1 heap
  let _ ← initCopy env 0 dtb
  pure ()

def newTimestamp (info : AmlDtbInfo) : UInt32 :=
  if !info.valid0 && !info.valid1 then 0
  else if !(info.valid0 && info.valid1) then 1 + (if info.valid0 then info.stamp0 else info.stamp1)
  else if info.stamp0 ≠ info.stamp1 then
    1 + (if stampAfter info.stamp1 info.stamp0 then info.stamp1 else info.stamp0)
  else 1 + info.stamp0

/-- The tail of the buffer: time stamp, version, magic "A~D" and then the checksum. -/
def stamped (buf : Memory) (timestamp : UInt32) : Memory :=
  let buf := storeU32 (storeU32 (storeU32 buf timestampAt timestamp) versionAt 1) magicAt 0x00447e41
  storeU32 buf checksumAt (calcDtbChecksum buf)

def amlmmcDtbWrite (buf : Memory) (len : Nat) : DevM Int :=
  if len > configDtbSize then pure efault
  else do
    let s ← get
    let dtb := stamped buf (newTimestamp s.infos)
    let ret0 ← dtbWrite env (dtbBlk env 0) dtb
    let ret1 ← dtbWrite env (dtbBlk env 1) dtb
    pure (if ret0 = 0 then ret1 else efault)

/-- The cells of `amlmmc_dtb_read`, through a buffer of its own. -/
def readCells (buffer : Memory) : Nat → Nat → Nat → Memory → DevM (Int × Memory)
  | 0, _, _, buf => pure (0, buf)
  | rounds + 1, startBlk, off, buf => do
    let got ← mmcReadInternal env startBlk (dtbCellSize / blkSize) (memset buffer 0 0 dtbCellSize) 0
    if got.1 then pure (efault, buf)
    else
      let buf := memcpy buf off got.2 0 dtbCellSize
      readCells got.2 rounds (startBlk + dtbCellSize / blkSize) (off + dtbCellSize) buf

def amlmmcDtbRead (heap buf : Memory) (len : Nat) : DevM (Int × Memory) :=
  if len > configDtbSize then pure (efault, buf)
  else readCells env heap (configDtbSize / blkSize / (dtbCellSize / blkSize)) (mmcDtbPartOffset / blkSize) 0
    (memset buf 0 0 len)

/-- The bytes that reach the caller, the result and the new position. The size of a failed
read is 0. -/
def mmcDtbRead (heap buffer : Memory) (count ppos : Nat) : DevM (List UInt8 × Int × Nat) :=
  if ppos = configDtbSize then pure ([], 0, ppos)
  else if ppos ≥ configDtbSize then pure ([], efault, ppos)
  else do
    let got ← amlmmcDtbRead env buffer heap configDtbSize
    if got.1 ≠ 0 then pure ([], 0, ppos)
    else
      let readSize := if ppos + count > configDtbSize then configDtbSize - ppos else count
      pure (load got.2 ppos readSize, readSize, ppos + readSize)

/-- The result is the size also when the card was not written. -/
def mmcDtbWrite (heap : Memory) (buf : List UInt8) (ppos : Nat) : DevM (Int × Nat) :=
  if ppos = configDtbSize then pure (0, ppos)
  else if ppos ≥ configDtbSize then pure (efault, ppos)
  else do
    let writeSize := if ppos + buf.length > configDtbSize then configDtbSize - ppos else buf.length
    let ret ← amlmmcDtbWrite env (store heap ppos (buf.take writeSize)) configDtbSize
    pure (writeSize, if ret ≠ 0 then ppos else ppos + writeSize)

end Device

end AmlogicV901d.Source.DtbDevice
