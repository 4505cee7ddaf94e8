import AmlogicV901d.Guarantees.SlotFallback
import Mathlib.Data.List.Nodup

/-!
# What the A/B block withstands

The table of avb_crc32.c has 256 different top bytes, so that no step forgets anything of the checksum before it or of
its byte. A slot is given up after its last try, and not before.
-/
namespace AmlogicV901d.Guarantees.AbBlock
open Lib.ByteMemory Lib.LittleEndian Source.BootControl SlotFallback

/-- A step for the checksum and a byte, put together by exclusive or. -/
def crcStep (x : UInt32) : UInt32 := iavbCrc32Tab.getD (x &&& 0xff).toNat 0 ^^^ (x >>> 8)

theorem toNat_low (x : UInt32) : (x &&& 0xff).toNat = x.toNat % 256 := by
  rw [UInt32.toNat_and]
  exact Nat.and_two_pow_sub_one_eq_mod _ 8

theorem toNat_high (x : UInt32) : (x >>> 8).toNat = x.toNat / 256 := by
  rw [UInt32.toNat_shiftRight]
  exact Nat.shiftRight_eq_div_pow _ 8

theorem crcStep_injective : Function.Injective crcStep := by
  have htable : ((List.range 256).map fun i => (iavbCrc32Tab.getD i 0).toNat >>> 24).Nodup := by
    decide +kernel
  have htop : ∀ x : UInt32, (crcStep x).toNat >>> 24 = (iavbCrc32Tab.getD (x.toNat % 256) 0).toNat >>> 24 := fun x => by
    have hx := x.toNat_lt
    rw [crcStep, UInt32.toNat_xor, Nat.shiftRight_xor_distrib, toNat_high, Nat.shiftRight_eq_div_pow (_ / _),
      Nat.div_eq_of_lt (by omega), Nat.xor_zero, toNat_low]
  intro x y h
  have hmem : ∀ x : UInt32, x.toNat % 256 ∈ List.range 256 := fun x => List.mem_range.mpr (Nat.mod_lt _ (by decide))
  have hindex := List.inj_on_of_nodup_map htable (hmem x) (hmem y) (by rw [← htop, h, htop])
  rw [crcStep, crcStep, toNat_low, toNat_low, hindex, UInt32.xor_right_inj] at h
  have hrest := congrArg UInt32.toNat h
  rw [toNat_high, toNat_high] at hrest
  exact UInt32.toNat_inj.mp (by omega)

theorem avbCrc32_eq (buf : List UInt8) : avbCrc32 buf =
    buf.foldl (fun crc b => crcStep (crc ^^^ b.toUInt32)) 0xffffffff ^^^ 0xffffffff := by
  have hstep : ∀ (crc : UInt32) (b : UInt8), (crc ^^^ b.toUInt32) >>> 8 = crc >>> 8 := fun crc b => by
    apply UInt32.toNat_inj.mp
    have hb : b.toNat >>> 8 = 0 := (Nat.shiftRight_eq_div_pow _ 8).trans (Nat.div_eq_of_lt b.toNat_lt)
    rw [UInt32.toNat_shiftRight, UInt32.toNat_xor, UInt8.toNat_toUInt32, Nat.shiftRight_xor_distrib]
    exact (congrArg _ hb).trans (Nat.xor_zero _)
  simp only [avbCrc32, iavbCrc32, crcStep, hstep]
  rfl

theorem foldl_crc_injective (buf : List UInt8) :
    Function.Injective (buf.foldl fun crc b => crcStep (crc ^^^ b.toUInt32)) := by
  induction buf with
  | nil => exact fun _ _ h => h
  | cons b rest ih => exact fun _ _ h => UInt32.xor_left_inj _ |>.mp (crcStep_injective (ih h))

theorem avbCrc32_set_ne {buf : List UInt8} {i : Nat} {b : UInt8} (hi : i < buf.length) (hb : b ≠ buf[i]) :
    avbCrc32 (buf.set i b) ≠ avbCrc32 buf := by
  rw [avbCrc32_eq, avbCrc32_eq, Ne, UInt32.xor_left_inj]
  generalize (0xffffffff : UInt32) = crc
  induction buf generalizing i crc with
  | nil => exact absurd hi (Nat.not_lt_zero i)
  | cons c rest ih =>
    cases i with
    | zero =>
      intro h
      have hword := crcStep_injective (foldl_crc_injective rest h)
      exact hb (UInt8.toUInt32_inj.mp (UInt32.xor_right_inj _ |>.mp hword))
    | succ i => exact ih (Nat.lt_of_succ_lt_succ hi) hb _

theorem avbHtobe32_injective : Function.Injective avbHtobe32 := by
  intro w w' h
  have hvalue := congrArg UInt32.toNat h
  have hw := w.toNat_lt
  have hw' := w'.toNat_lt
  simp only [avbHtobe32, leBytes, List.reverse_cons, List.reverse_nil, List.nil_append, List.cons_append, leValue,
    UInt32.toNat_ofNat', UInt8.toNat_ofNat'] at hvalue
  exact UInt32.toNat_inj.mp (by omega)

/-- A block with the checksum of a valid one that differs from it in one byte is not valid. -/
theorem changed_byte_rejected (info info' : AvbABData) (i : Nat) (b : UInt8) (hvalid : bootInfoValidate info = true)
    (hi : i < info.covered.length) (hb : b ≠ info.covered[i]) (hset : info'.covered = info.covered.set i b)
    (hcrc : info'.crc32 = info.crc32) : bootInfoValidate info' = false := by
  refine Bool.eq_false_iff.mpr fun hvalid' => avbCrc32_set_ne hi hb (avbHtobe32_injective ?_)
  have h := ((bootInfoValidate_iff _).mp hvalid).1
  have h' := ((bootInfoValidate_iff _).mp hvalid').1
  rw [abValidateCrc32, hset] at h'
  exact h'.symm.trans (hcrc.trans h)

/-- Slot A of the reset block with six tries for seven. -/
theorem changed_tries_rejected : bootInfoValidate { bootInfoReset.seal with slotA := ⟨15, 6, 0, 0⟩ } = false :=
  changed_byte_rejected bootInfoReset.seal _ 9 6 (bootInfoValidate_seal _ rfl (by decide)) (by decide) (by decide) rfl rfl

theorem decrements_stay (cfg : BootConfig) (slot : Slot) (k : Nat) (s : BootState) (h : Sound s)
    (htop : TopSlot (storedInfo s.misc) slot) (hfail : ((storedInfo s.misc).slot slot).successfulBoot ≠ 1)
    (hk : k ≤ ((storedInfo s.misc).slot slot).triesRemaining.toNat) :
    getActiveSlot (storedInfo (runCommands cfg (List.replicate k decrement) s).misc) = slot := by
  induction k generalizing s with
  | zero => exact htop.active
  | succ k ih =>
    have hsome : ((storedInfo s.misc).slot slot).triesRemaining > 0 := UInt8.lt_iff_toNat_lt.mpr (Nat.zero_lt_of_lt hk)
    have hnext := storedInfo_decrement h cfg
    rw [decrementRetry, htop.active, if_pos hfail, if_pos hsome] at hnext
    rw [List.replicate_succ, runCommands_cons]
    apply ih _ (h.run cfg decrement) <;> rw [hnext]
    · apply TopSlot.seal
      exact htop.setSlot_same slot _ rfl
    · rw [seal_slot, slot_setSlot_self]
      exact hfail
    · rw [seal_slot, slot_setSlot_self]
      exact (Nat.le_sub_one_of_lt hk).trans_eq (toNat_pred_tries hsome).symm

/-- An active slot without success is given up by the decrement after its last try, and by none before. -/
theorem slot_given_up_exactly (cfg : BootConfig) (s : BootState) (active : Slot) (k : Nat) (h : Sound s)
    (hactive : getActiveSlot (storedInfo s.misc) = active)
    (hfail : ((storedInfo s.misc).slot active).successfulBoot ≠ 1)
    (hk : k ≤ ((storedInfo s.misc).slot active).triesRemaining.toNat + 1) :
    getActiveSlot (storedInfo (runCommands cfg (List.replicate k decrement) s).misc) =
      if k ≤ ((storedInfo s.misc).slot active).triesRemaining.toNat then active else active.other := by
  obtain ⟨top, htop⟩ := h.healthy.top
  obtain rfl : top = active := htop.active.symm.trans hactive
  split
  next hle => exact decrements_stay cfg top k s h htop hfail hle
  next hlt =>
    obtain rfl := Nat.le_antisymm hk (Nat.not_le.mp hlt)
    exact decrements_switch cfg top _ s h htop hfail rfl

/-- After a reset. -/
theorem first_slot_given_up : ∃ s, Sound s ∧
    getActiveSlot (storedInfo (runCommands ⟨1, false⟩ (List.replicate 8 decrement) s).misc) = .b :=
  have h := Sound.reset ⟨zeroed, [], 'a'⟩
  ⟨_, h, slot_given_up_exactly _ _ .a 8 h (by decide) (by decide) (by decide)⟩

end AmlogicV901d.Guarantees.AbBlock
