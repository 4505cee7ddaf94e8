import AmlogicV901d.Lib.ByteMemory

/-!
# The eMMC user area as a block device

Source: bl33/drivers/mmc/mmc.c:308-346
(`mmc_bread`), mmc.c:1609 (`block_dev.lba`), mmc_write.c:203-302 (`mmc_bwrite`).

Blocks have 512 bytes. A transfer inside the device succeeds, one that leaves it
moves nothing and returns 0. During `mmc_device_init` the guard of the key area is
off (mmc.c:1892).
-/
namespace AmlogicV901d.Source.Emmc
open Lib.ByteMemory

variable {d : BlockDevice} {start blkcnt : UInt64}

structure BlockDevice where
  user : Memory
  capacity : UInt64

/-- `block_dev.lba` -/
def BlockDevice.lba (d : BlockDevice) : UInt64 := d.capacity / 512

/-- Returns the number of blocks and the buffer. -/
def mmcBread (d : BlockDevice) (start blkcnt : UInt64) (dst : Memory) : UInt64 × Memory :=
  if blkcnt = 0 then (0, dst)
  else if start + blkcnt > d.lba then (0, dst)
  else (blkcnt, memcpy dst 0 d.user (512 * start.toNat) (512 * blkcnt.toNat))

/-- Returns the number of blocks and the device. -/
def mmcBwrite (d : BlockDevice) (start blkcnt : UInt64) (src : Memory) : UInt64 × BlockDevice :=
  if start + blkcnt > d.lba then (0, d)
  else (blkcnt, { d with user := memcpy d.user (512 * start.toNat) src 0 (512 * blkcnt.toNat) })

/-- The blocks from `start` hold the bytes of a buffer. -/
def BlockDevice.Holds (d : BlockDevice) (start n : Nat) (buffer : Memory) : Prop :=
  ∀ a, a < 512 * n → d.user (512 * start + a) = buffer a

theorem BlockDevice.Holds.congr {d' : BlockDevice} {start n : Nat} {buffer : Memory} (h : d.Holds start n buffer)
    (hsame : ∀ a, 512 * start ≤ a → a < 512 * start + 512 * n → d'.user a = d.user a) : d'.Holds start n buffer := by
  intro a ha
  rw [hsame _ (by omega) (by omega), h a ha]

theorem mmcBread_of_le (dst : Memory) (hcnt : blkcnt ≠ 0) (h : start + blkcnt ≤ d.lba) : mmcBread d start blkcnt dst =
      (blkcnt, memcpy dst 0 d.user (512 * start.toNat) (512 * blkcnt.toNat)) := by
  rw [mmcBread, if_neg hcnt, if_neg (UInt64.not_lt.mpr h)]

@[simp] theorem mmcBwrite_capacity (d : BlockDevice) (start blkcnt : UInt64) (src : Memory) :
    (mmcBwrite d start blkcnt src).2.capacity = d.capacity := by
  unfold mmcBwrite
  split <;> rfl

theorem mmcBwrite_outside {src : Memory} {a : Nat}
    (h : a < 512 * start.toNat ∨ 512 * start.toNat + 512 * blkcnt.toNat ≤ a) :
    (mmcBwrite d start blkcnt src).2.user a = d.user a := by
  unfold mmcBwrite
  split
  · rfl
  · exact memcpy_outside h

theorem mmcBwrite_holds (src : Memory) (h : start + blkcnt ≤ d.lba) : ∃ d', mmcBwrite d start blkcnt src = (blkcnt, d') ∧
      d'.capacity = d.capacity ∧ d'.Holds start.toNat blkcnt.toNat src := by
  refine ⟨_, if_neg (UInt64.not_lt.mpr h), rfl, fun a ha => ?_⟩
  dsimp only
  rw [memcpy_inside (by omega) (by omega)]
  congr 1
  omega

theorem mmcBread_holds {img : Memory} (dst : Memory) (hcnt : blkcnt ≠ 0) (h : start + blkcnt ≤ d.lba)
    (himg : d.Holds start.toNat blkcnt.toNat img) : ∃ buffer, mmcBread d start blkcnt dst = (blkcnt, buffer) ∧
      ∀ a, a < 512 * blkcnt.toNat → buffer a = img a := by
  refine ⟨_, mmcBread_of_le dst hcnt h, fun a ha => ?_⟩
  rw [memcpy_inside (by omega) (by omega), Nat.sub_zero]
  exact himg a ha

end AmlogicV901d.Source.Emmc
