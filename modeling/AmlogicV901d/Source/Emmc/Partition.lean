import AmlogicV901d.Lib.ByteMemory

/-!
# eMMC partition entries and their layout

`bl33/drivers/mmc/aml_emmc_partition.c:106-109, 333-379`, `storage.h:70-75` (40 bytes for
an entry, with its tail padding) and `emmc_partitions.h:52-62`.

A `struct _iptbl` is the list of its `count` entries. Sizes and offsets are the
64-bit fields of the source with their wrap-around.
-/
namespace AmlogicV901d.Source.Emmc
open Lib.ByteMemory

/-- PARTITION_RESERVED, 8 MiB -/
def partitionReserved : UInt64 := 0x800000

/-- MMC_BOOT_PARTITION_RESERVED, 32 MiB -/
def mmcBootPartitionReserved : UInt64 := 0x2000000

def mmcBottomRsvSize : UInt64 := 0

/-- The size -1 of an entry that takes the rest of the device. -/
def fillMarker : UInt64 := 0xffffffffffffffff

structure Partitions where
  name : Vector UInt8 16
  size : UInt64
  offset : UInt64
  maskFlags : UInt32
  pad : UInt32
  deriving DecidableEq, Repr

/-- MMC_BOOT_NAME, "bootloader" -/
def mmcBootName : List UInt8 := [0x62, 0x6f, 0x6f, 0x74, 0x6c, 0x6f, 0x61, 0x64, 0x65, 0x72]

/-- MMC_BOOT_NAME with MMC_BOOT_DEVICE_SIZE, 4 MiB -/
def inherentBoot : Partitions :=
  ⟨#v[0x62, 0x6f, 0x6f, 0x74, 0x6c, 0x6f, 0x61, 0x64, 0x65, 0x72, 0, 0, 0, 0, 0, 0], 0x400000, 0, 0, 0⟩

/-- `strcmp(name, s) == 0` for a constant shorter than the field. -/
def nameIs (name : Vector UInt8 16) (s : List UInt8) : Bool :=
  name.toList.takeWhile (· != 0) == s

/-- `sprintf(part->name, "bootloadere")`: twelve bytes, the rest of the field stays. -/
def renameBootloadere (name : Vector UInt8 16) : Vector UInt8 16 :=
  #v[0x62, 0x6f, 0x6f, 0x74, 0x6c, 0x6f, 0x61, 0x64, 0x65, 0x72, 0x65, 0x00, name[12], name[13], name[14], name[15]]

/-- "reserv space @ the bottom" -/
def reserveBottom (bottom : Bool) (p : Partitions) : Partitions :=
  if bottom ∧ p.size > mmcBottomRsvSize then { p with size := p.size - mmcBottomRsvSize } else p

/-- The loop of `_calculate_offset` from the entry after `prev`. A list is what is
left of the table, so the break is at the last index when nothing follows. -/
def layoutFrom (capacity : UInt64) (bottom : Bool) : Partitions → UInt64 → List Partitions → List Partitions × Int
  | _, _, [] => ([], 0)
  | prev, gap, p :: rest =>
    let p := { p with offset := prev.offset + prev.size + gap }
    if p.offset + p.size > capacity ∨ p.size = fillMarker then
      let p := { p with size := capacity - p.offset }
      (reserveBottom bottom p :: rest, if rest = [] then 0 else -1)
    else
      let (tail, ret) := layoutFrom capacity bottom p partitionReserved rest
      (p :: tail, ret)

/-- The gap behind the first entry. -/
def firstGap (p : Partitions) : UInt64 :=
  if nameIs p.name mmcBootName then mmcBootPartitionReserved else partitionReserved

/-- Returns the status and the table. -/
def calculateOffset (isMainstorageEmmc : Bool) (capacity : UInt64) (bottom : Bool)
    (itbl : List Partitions) : Int × List Partitions :=
  match itbl with
  | [] => (-1, [])
  | part :: rest =>
    let gap := firstGap part
    let name :=
      if nameIs part.name mmcBootName ∧ ¬ isMainstorageEmmc then renameBootloadere part.name
      else part.name
    let first := { part with offset := 0, name := name }
    let (tail, ret) := layoutFrom capacity bottom first gap rest
    (ret, first :: tail)

/-- First byte behind an entry, without wrap-around. -/
def Partitions.extent (p : Partitions) : Nat := p.offset.toNat + p.size.toNat

@[simp] theorem reserveBottom_eq (bottom : Bool) (p : Partitions) : reserveBottom bottom p = p := by
  unfold reserveBottom
  split
  · simp [mmcBottomRsvSize]
  · rfl

theorem layoutFrom_cons (capacity : UInt64) (bottom : Bool) (prev : Partitions) (gap : UInt64) (p : Partitions)
    (rest : List Partitions) : layoutFrom capacity bottom prev gap (p :: rest) =
      let offset := prev.offset + prev.size + gap
      let tail := layoutFrom capacity bottom { p with offset } partitionReserved rest
      if offset + p.size > capacity ∨ p.size = fillMarker then
        ({ p with offset, size := capacity - offset } :: rest, if rest = [] then 0 else -1)
      else ({ p with offset } :: tail.1, tail.2) := by
  simp only [layoutFrom, reserveBottom_eq]

end AmlogicV901d.Source.Emmc
