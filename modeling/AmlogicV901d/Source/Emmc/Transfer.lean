/-!
# Internal transfers of the eMMC driver

`mmc/emmc_partitions.c:471-603`. What `mmc_switch` returns, before the request and behind it, and
how the request ends are parameters; `EINVAL` is 22.
-/
namespace AmlogicV901d.Source.MmcTransfer

structure MmcCard where
  partConfig : UInt8
  sd : Bool
  blockaddr : Bool
  sectors : UInt32
  capacity : UInt32
  readBlkbits : UInt32

/-- A request that is done. -/
structure MmcRequest where
  cmdError : Int
  dataError : Int
  stopError : Int
  bytesXfered : UInt32

/-- RESULT_FAIL is 1 and RESULT_UNSUP_HOST is 2. For one block there is no stop command. -/
def mmcCheckResult (blocks blksz : UInt32) (mrq : MmcRequest) : Int :=
  let ret :=
    if mrq.cmdError ≠ 0 then mrq.cmdError
    else if mrq.dataError ≠ 0 then mrq.dataError
    else if blocks ≠ 1 ∧ mrq.stopError ≠ 0 then mrq.stopError
    else if mrq.bytesXfered ≠ blocks * blksz then 1
    else 0
  if ret = -22 then 2 else ret

def mmcCapacity (card : MmcCard) : UInt32 :=
  if !card.sd && card.blockaddr then card.sectors else card.capacity <<< (card.readBlkbits - 9)

/-- EXT_CSD_PART_CONFIG_ACC_MASK -/
def accMask : UInt8 := 7

structure Transferred where
  ret : Int
  partConfig : UInt8
  refused : Bool

def mmcTransfer (card : MmcCard) (devAddr blocks : UInt32) (switched switchedBack : Int) (mrq : MmcRequest) : Transferred :=
  let switchPartition := card.partConfig &&& accMask ≠ 0
  if switchPartition ∧ switched ≠ 0 then ⟨switched, card.partConfig, false⟩
  else
    let partConfig := if switchPartition then card.partConfig &&& ~~~accMask else card.partConfig
    if devAddr + blocks ≥ mmcCapacity card then ⟨-1, partConfig, true⟩
    else if switchPartition then ⟨switchedBack, if switchedBack ≠ 0 then partConfig else card.partConfig, false⟩
    else ⟨mmcCheckResult blocks (1 <<< card.readBlkbits) mrq, partConfig, false⟩

end AmlogicV901d.Source.MmcTransfer
