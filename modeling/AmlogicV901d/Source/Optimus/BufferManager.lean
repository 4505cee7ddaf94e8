import AmlogicV901d.Lib.ByteMemory

/-!
# The download buffer manager

`v2_burning/v2_common/optimus_buffer_manager.c:30-314` and `optimus_download.h:71-149`. The
board (lagunaf.h) has no CONFIG_AML_MTD, so the transfer buffer has 64 MiB and there is no
UBIFS support; CONFIG_AML_LOCAL_BURN_BUFF_NOT_ALIGN is not set.

Addresses are shifted up by 4 GiB, so that a pointer moved down by a 32-bit size
is still a natural number. The consumer and the reader of an upload are parameters.
-/
namespace AmlogicV901d.Source.Optimus
open Lib.ByteMemory

/-- OPTIMUS_DOWNLOAD_SLOT_SZ, also `transferUnitSz` -/
def transferUnitSz : UInt32 := 0x10000

/-- OPTIMUS_DOWNLOAD_TRANSFER_BUF_TOTALSZ, also `transferBufSz` -/
def transferBufSz : UInt32 := 0x4000000

def optimusVfatImgWriteBackSz : UInt32 := transferUnitSz

def optimusSimgWriteBackSz : UInt32 := transferBufSz

/-- OPTIMUS_SPARSE_IMG_LEFT_DATA_MAX_SZ, 2 MiB -/
def leftDataMaxSz : UInt32 := 0x200000

/-- OPTIMUS_DOWNLOAD_TRANSFER_BUF_ADDR -/
def transferBuf : Nat := 0x8700000

inductive PktTransferSta
  | empty
  | working
  | ended
  deriving DecidableEq, Repr

/-- The fields of `BufManager` that change; `mediaAlignSz` only occurs in a message. -/
structure BufManager where
  writeBackUnitSz : UInt32
  tplcmdTotalSz : UInt64
  totalSlotNum : UInt32
  nextWriteBackSlot : UInt32
  leftDataSz : UInt32
  isUpload : Bool
  pktTransferSta : PktTransferSta
  /-- `destMediaType` is OPTIMUS_MEDIA_TYPE_MEM, not OPTIMUS_MEDIA_TYPE_STORE -/
  destMem : Bool
  partBaseOffset : UInt32
  itemOffsetNotAlignClusterSz : UInt32
  deriving DecidableEq, Repr

def BufManager.bufBase (m : BufManager) : Nat :=
  2 ^ 32 + if m.destMem then m.partBaseOffset.toNat else transferBuf

/-- What the command line of a download or upload gives. -/
structure TplCmd where
  mediaType : String
  partName : String
  partBaseOffset : UInt64
  imgType : String
  pktTotalSz : UInt64
  isUpload : Bool
  itemSizeNotAligned : UInt32
  deriving DecidableEq, Repr

/-- `pktSz4BufManager` -/
def TplCmd.pktSz (cmd : TplCmd) : UInt64 := cmd.pktTotalSz - cmd.itemSizeNotAligned.toUInt64

/-- A size rounded up to slots, kept in 32 bits. -/
def slotsFor (pktSz : UInt64) : UInt32 :=
  ((pktSz + transferUnitSz.toUInt64 - 1).toUInt32 >>> 16) <<< 16

/-- The partitions that are written at once. -/
def TplCmd.wholePart (cmd : TplCmd) : Bool :=
  cmd.partName == "bootloader" || cmd.partName == "_aml_dtb"

/-- `cacheAll2Mem` -/
def TplCmd.cacheAll2Mem (cmd : TplCmd) : Bool := cmd.mediaType == "mem"

def TplCmd.writeBackUnitSz (cmd : TplCmd) : UInt32 :=
  if cmd.cacheAll2Mem then slotsFor cmd.pktSz
  else if cmd.wholePart then slotsFor cmd.pktSz
  else if cmd.imgType = "sparse" ∨ cmd.itemSizeNotAligned ≠ 0 then optimusSimgWriteBackSz
  else optimusVfatImgWriteBackSz

/-- `(size + transferUnitSz - 1) / transferUnitSz` in 32 bits. -/
def slotCount (size : UInt32) : UInt32 := (size + transferUnitSz - 1) / transferUnitSz

/-- The status and the manager; a refused command has already changed where the data
goes to. -/
def optimusBufManagerTplcmdInit (cmd : TplCmd) (m : BufManager) : Int × BufManager :=
  if cmd.wholePart ∧ cmd.pktSz > transferBufSz.toUInt64 then (1, m)
  else
    let m := { m with destMem := cmd.mediaType == "mem" }
    if cmd.cacheAll2Mem ∧ cmd.partBaseOffset >>> 32 ≠ 0 then (1, m)
    else
      let m := if cmd.cacheAll2Mem then { m with partBaseOffset := cmd.partBaseOffset.toUInt32 } else m
      let writeBackUnitSz := cmd.writeBackUnitSz
      if transferBufSz < writeBackUnitSz ∧ ¬ cmd.cacheAll2Mem then (1, m)
      else if transferUnitSz > writeBackUnitSz then (1, m)
      else
        let next :=
          if cmd.isUpload then 0
          else if cmd.pktSz < writeBackUnitSz.toUInt64 then slotCount cmd.pktSz.toUInt32
          else writeBackUnitSz / transferUnitSz
        (0, { m with
          writeBackUnitSz := writeBackUnitSz
          totalSlotNum := 0
          isUpload := cmd.isUpload
          pktTransferSta := .empty
          nextWriteBackSlot := next
          itemOffsetNotAlignClusterSz := cmd.itemSizeNotAligned
          leftDataSz := cmd.itemSizeNotAligned
          tplcmdTotalSz := cmd.pktSz })

/-- One call of `optimus_download_img_data`: the bytes it got, the size that was
carried over and the whole size in the buffer, and what it disposed of. -/
structure DownloadCall where
  data : List UInt8
  leftSz : UInt32
  size : UInt32
  burnSz : UInt32
  deriving DecidableEq, Repr

structure TransferState where
  mgr : BufManager
  mem : Memory
  calls : List DownloadCall

/-- `optimus_download_img_data` at its n-th call, and `optimus_dump_storage_data`: the size
read and the memory with the data in it. -/
structure TransferEnv where
  downloadImgData : Nat → List UInt8 → UInt32
  dumpStorageData : Memory → Nat → UInt32 → UInt32 × Memory

def leftPktSz (m : BufManager) (totalTransferSz : UInt64) : UInt64 :=
  if totalTransferSz > m.tplcmdTotalSz then 0 else m.tplcmdTotalSz - totalTransferSz

/-- The status, `*pBuf` and the state. -/
def optimusBufManagerGetBufForBulkTransfer (env : TransferEnv) (wantSz : UInt32) (s : TransferState) :
    Int × Nat × TransferState :=
  let m := s.mgr
  let totalTransferSz := m.totalSlotNum.toUInt64 * transferUnitSz.toUInt64
  let left := leftPktSz m totalTransferSz
  let bufSzNotDisposed := totalTransferSz.toUInt32 % m.writeBackUnitSz
  if wantSz < transferUnitSz ∧ left ≠ wantSz.toUInt64 then (1, 0, s)
  else
    let pBuf := m.bufBase + bufSzNotDisposed.toNat
    let s := { s with mgr := { m with pktTransferSta := .working } }
    if bufSzNotDisposed = 0 ∧ m.isUpload then
      let dataSz4Up := if left > m.writeBackUnitSz.toUInt64 then m.writeBackUnitSz else left.toUInt32
      let (readSz, mem) := env.dumpStorageData s.mem m.bufBase dataSz4Up
      let s := { s with mem := mem }
      if readSz ≠ dataSz4Up then (1, pBuf, s) else (0, pBuf, s)
    else (0, pBuf, s)

/-- The write back of `thisWriteBackSz` bytes behind what was left before. -/
def writeBack (env : TransferEnv) (totalTransferSz : UInt64) (thisWriteBackSz : UInt32)
    (s : TransferState) : Int × TransferState :=
  let m := s.mgr
  let left := leftPktSz m totalTransferSz
  let leftSz := m.leftDataSz
  let size := leftSz + thisWriteBackSz
  let data := m.bufBase - leftSz.toNat
  let reserveNotAlignSz := if left ≠ 0 then m.itemOffsetNotAlignClusterSz else 0
  let handed := load s.mem data (size - reserveNotAlignSz).toNat
  let burnSz := env.downloadImgData s.calls.length handed
  let s := { s with calls := s.calls ++ [⟨handed, leftSz, size, burnSz⟩] }
  if burnSz ≤ leftSz ∨ burnSz = 0 then (1, s)
  else if size - reserveNotAlignSz < burnSz then (1, s)
  else
    let leftSz := size - burnSz
    if leftSz ≠ 0 ∧ (totalTransferSz ≥ m.tplcmdTotalSz ∨ leftSz > leftDataMaxSz ∨ leftSz &&& 3 ≠ 0) then
      (1, s)
    else
      let mem :=
        if leftSz ≠ 0 then
          memcpy s.mem (m.bufBase - leftSz.toNat) s.mem (data + burnSz.toNat) leftSz.toNat
        else s.mem
      let next :=
        if left ≥ m.writeBackUnitSz.toUInt64 then
          m.nextWriteBackSlot + m.writeBackUnitSz / transferUnitSz
        else m.nextWriteBackSlot + slotCount left.toUInt32
      (0, { s with
        mgr := { m with leftDataSz := leftSz, nextWriteBackSlot := next }
        mem := mem })

def optimusBufManagerReportTransferComplete (env : TransferEnv) (transferSz : UInt32)
    (s : TransferState) : Int × TransferState :=
  let m := s.mgr
  let totalTransferSz := m.totalSlotNum.toUInt64 * transferUnitSz.toUInt64 + transferSz.toUInt64
  let thisWriteBackSz :=
    if transferUnitSz = transferSz then m.writeBackUnitSz
    else totalTransferSz.toUInt32 % m.writeBackUnitSz
  let m := { m with totalSlotNum := m.totalSlotNum + 1 }
  let s := { s with mgr := m }
  if m.totalSlotNum = m.nextWriteBackSlot then writeBack env totalTransferSz thisWriteBackSz s
  else (0, s)

/-- One transfer: the buffer is asked for, filled and reported. -/
def bulkTransfer (env : TransferEnv) (bytes : List UInt8) (s : TransferState) : Int × TransferState :=
  match optimusBufManagerGetBufForBulkTransfer env (UInt32.ofNat bytes.length) s with
  | (0, pBuf, s) =>
    optimusBufManagerReportTransferComplete env (UInt32.ofNat bytes.length) { s with mem := store s.mem pBuf bytes }
  | (ret, _, s) => (ret, s)

/-- Transfers up to the first that fails. -/
def bulkTransfers (env : TransferEnv) : List (List UInt8) → TransferState → Int × TransferState
  | [], s => (0, s)
  | bytes :: rest, s =>
    match bulkTransfer env bytes s with
    | (0, s) => bulkTransfers env rest s
    | (ret, s) => (ret, s)

end AmlogicV901d.Source.Optimus
