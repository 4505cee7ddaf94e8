import AmlogicV901d.Lib.ByteMemory
import AmlogicV901d.Source.BootControl.Crc32

/-!
# A/B metadata block

Source: bl33/common/cmd_bootctl_avb.c:41-263.
The block is `struct AvbABData`, 32 bytes at offset 2048 of the misc partition.
`encode` and `decodeAt` are its memory layout on the little-endian target; the
console output is left out.
-/
namespace AmlogicV901d.Source.BootControl
open Lib.LittleEndian Lib.ByteMemory

def abMetadataMiscPartitionOffset : Nat := 2048
def miscbufSize : Nat := 2080
def avbAbMajorVersion : UInt8 := 1
def avbAbMinorVersion : UInt8 := 0
def avbAbMaxPriority : UInt8 := 15
def avbAbMaxTriesRemaining : UInt8 := 7

/-- "\0AB0" -/
def avbAbMagic : Vector UInt8 4 := #v[0x00, 0x41, 0x42, 0x30]

structure AvbABSlotData where
  priority : UInt8
  triesRemaining : UInt8
  successfulBoot : UInt8
  reserved : UInt8
  deriving DecidableEq, Repr

/-- Index into `slots`. -/
inductive Slot where
  | a
  | b
  deriving DecidableEq, Repr

def Slot.other : Slot → Slot
  | .a => .b
  | .b => .a

@[ext] structure AvbABData where
  magic : Vector UInt8 4
  versionMajor : UInt8
  versionMinor : UInt8
  reserved1 : Vector UInt8 2
  slotA : AvbABSlotData
  slotB : AvbABSlotData
  reserved2 : Vector UInt8 12
  crc32 : UInt32
  deriving DecidableEq, Repr

def AvbABData.slot (info : AvbABData) : Slot → AvbABSlotData
  | .a => info.slotA
  | .b => info.slotB

def AvbABData.setSlot (info : AvbABData) : Slot → AvbABSlotData → AvbABData
  | .a, d => { info with slotA := d }
  | .b, d => { info with slotB := d }

variable (info : AvbABData)

theorem slot_setSlot (s t : Slot) (d : AvbABSlotData) :
    (info.setSlot s d).slot t = if t = s then d else info.slot t := by
  cases s <;> cases t <;> rfl

theorem Slot.other_ne (s : Slot) : s.other ≠ s := by
  cases s <;> decide

theorem Slot.other_other (s : Slot) : s.other.other = s := by
  cases s <;> rfl

theorem slot_setSlot_self (s : Slot) (d : AvbABSlotData) : (info.setSlot s d).slot s = d := by
  rw [slot_setSlot, if_pos rfl]

theorem slot_setSlot_other (s : Slot) (d : AvbABSlotData) : (info.setSlot s d).slot s.other = info.slot s.other := by
  rw [slot_setSlot, if_neg s.other_ne]

def AvbABSlotData.bytes (d : AvbABSlotData) : List UInt8 :=
  [d.priority, d.triesRemaining, d.successfulBoot, d.reserved]

/-- The 28 bytes before the checksum field. -/
def AvbABData.covered (info : AvbABData) : List UInt8 :=
  info.magic.toList ++ ([info.versionMajor, info.versionMinor] ++ (info.reserved1.toList ++
    (info.slotA.bytes ++ (info.slotB.bytes ++ info.reserved2.toList))))

def AvbABData.encode (info : AvbABData) : List UInt8 := info.covered ++ leBytes 4 info.crc32.toNat

def decodeSlotAt (m : Memory) (p : Nat) : AvbABSlotData := ⟨m p, m (p + 1), m (p + 2), m (p + 3)⟩

def decodeAt (m : Memory) (p : Nat) : AvbABData where
  magic := loadVec m p 4
  versionMajor := m (p + 4)
  versionMinor := m (p + 5)
  reserved1 := loadVec m (p + 6) 2
  slotA := decodeSlotAt m (p + 8)
  slotB := decodeSlotAt m (p + 12)
  reserved2 := loadVec m (p + 16) 12
  crc32 := loadU32 m (p + 28)

def abValidateCrc32 (info : AvbABData) : UInt32 := avbHtobe32 (avbCrc32 info.covered)

def bootInfoValidate (info : AvbABData) : Bool :=
  if info.crc32 ≠ abValidateCrc32 info then false
  else if info.magic ≠ avbAbMagic then false
  else if info.versionMajor > avbAbMajorVersion then false
  else true

/-- The block is cleared, the checksum included. -/
def bootInfoReset : AvbABData where
  magic := avbAbMagic
  versionMajor := avbAbMajorVersion
  versionMinor := avbAbMinorVersion
  reserved1 := Vector.replicate 2 0
  slotA := ⟨avbAbMaxPriority, avbAbMaxTriesRemaining, 0, 0⟩
  slotB := ⟨avbAbMaxPriority - 1, avbAbMaxTriesRemaining, 0, 0⟩
  reserved2 := Vector.replicate 12 0
  crc32 := 0

def slotIsBootable (d : AvbABSlotData) : Bool :=
  d.priority > 0 && (d.successfulBoot ≠ 0 || d.triesRemaining > 0)

def bootInfoSetActiveSlot (info : AvbABData) (slot : Slot) : AvbABData :=
  let info := info.setSlot slot { info.slot slot with
    priority := avbAbMaxPriority
    triesRemaining := avbAbMaxTriesRemaining
    successfulBoot := 0 }
  let other := info.slot slot.other
  if other.priority = avbAbMaxPriority then
    info.setSlot slot.other { other with priority := avbAbMaxPriority - 1 }
  else info

def bootInfoMarkSlotSuccessful (info : AvbABData) (slot : Slot) : AvbABData :=
  info.setSlot slot { info.slot slot with triesRemaining := 0, successfulBoot := 1 }

/-- Returns whether the slot had to be normalised, and the block. -/
def bootInfoNormalize (info : AvbABData) (slot : Slot) : Bool × AvbABData :=
  let d := info.slot slot
  if d.priority = avbAbMaxPriority ∧ d.triesRemaining = avbAbMaxTriesRemaining ∧ d.successfulBoot = 1 then
    (true, info.setSlot slot { d with triesRemaining := 0 })
  else (false, info)

def getActiveSlot (info : AvbABData) : Slot :=
  if info.slotA.priority > info.slotB.priority then .a else .b

/-- The slot update of `do_DecrementRetryCount`. -/
def decrementRetry (info : AvbABData) : AvbABData :=
  let active := getActiveSlot info
  let d := info.slot active
  if d.successfulBoot ≠ 1 then
    if d.triesRemaining > 0 then
      info.setSlot active { d with triesRemaining := d.triesRemaining - 1 }
    else
      let info := info.setSlot active { d with priority := 0, successfulBoot := 0 }
      info.setSlot active.other
        { info.slot active.other with priority := avbAbMaxPriority }
  else info

/-- The checksum that `boot_info_save` puts into the block. -/
def AvbABData.seal (info : AvbABData) : AvbABData := { info with crc32 := abValidateCrc32 info }

@[simp] theorem seal_slot (t : Slot) : info.seal.slot t = info.slot t := by
  cases t <;> rfl

theorem decodeSlotAt_of_load {m : Memory} {p : Nat} {d : AvbABSlotData} (h : load m p 4 = d.bytes) : decodeSlotAt m p = d := by
  simp only [load, AvbABSlotData.bytes, List.cons.injEq] at h
  rw [decodeSlotAt, h.1, h.2.1, h.2.2.1, h.2.2.2.1]

theorem decodeSlotAt_congr {m m' : Memory} {p : Nat} (h : ∀ i, i < 4 → m' (p + i) = m (p + i)) :
    decodeSlotAt m' p = decodeSlotAt m p := by
  have h0 := h 0 (by omega)
  simp only [Nat.add_zero] at h0
  simp only [decodeSlotAt, h0, h 1 (by omega), h 2 (by omega), h 3 (by omega)]

/-- The block reads back from the place it was copied to. -/
theorem decodeAt_store (m : Memory) (p : Nat) (info : AvbABData) : decodeAt (store m p info.encode) p = info := by
  have hmagic := load_store m p info.encode
  generalize store m p info.encode = m' at hmagic ⊢
  simp only [AvbABData.encode, AvbABData.covered, List.append_assoc] at hmagic
  -- the block is the fields one behind the other
  have hversion := load_behind hmagic
  have hreserved1 := load_behind hversion
  have hslotA := load_behind hreserved1
  have hslotB := load_behind hslotA
  have hreserved2 := load_behind hslotB
  have hcrc32 := load_behind hreserved2
  replace hmagic := load_front hmagic
  replace hversion := load_front hversion
  replace hreserved1 := load_front hreserved1
  replace hslotA := load_front hslotA
  replace hslotB := load_front hslotB
  replace hreserved2 := load_front hreserved2
  simp only [Vector.length_toList, leBytes_length, List.length_cons, List.length_nil, Nat.add_assoc, Nat.reduceAdd,
    show ∀ d : AvbABSlotData, d.bytes.length = 4 from fun _ => rfl] at *
  simp only [load, Nat.add_assoc, Nat.reduceAdd, List.cons.injEq] at hversion
  rw [decodeAt, loadVec_of_load hmagic, hversion.1, hversion.2.1, loadVec_of_load hreserved1, decodeSlotAt_of_load hslotA,
    decodeSlotAt_of_load hslotB, loadVec_of_load hreserved2, loadU32, hcrc32, leValue_leBytes_u32]

theorem bootInfoValidate_iff : bootInfoValidate info = true ↔ info.crc32 = abValidateCrc32 info ∧
      info.magic = avbAbMagic ∧ info.versionMajor ≤ avbAbMajorVersion := by
  simp [bootInfoValidate]

theorem bootInfoValidate_seal (hmagic : info.magic = avbAbMagic) (hversion : info.versionMajor ≤ avbAbMajorVersion) :
    bootInfoValidate info.seal = true :=
  (bootInfoValidate_iff info.seal).mpr ⟨rfl, hmagic, hversion⟩

end AmlogicV901d.Source.BootControl
