import AmlogicV901d.Source.Emmc.Transfer

/-!
# Internal transfers

On the user partition a transfer reports what the request returned. On another one the switch
back hides it, and a range that is refused is left without a switch back.
-/
namespace AmlogicV901d.Guarantees.InternalTransfers
open Source.MmcTransfer

variable (card : MmcCard) (devAddr blocks blksz : UInt32) (switched switchedBack : Int) (mrq : MmcRequest)

/-- Every part of a request is without an error, and all bytes are transferred. -/
def Completed : Prop :=
  mrq.cmdError = 0 ∧ mrq.dataError = 0 ∧ (blocks = 1 ∨ mrq.stopError = 0) ∧ mrq.bytesXfered = blocks * blksz

def OnUserPartition : Prop := card.partConfig &&& accMask = 0

/-- The sum as a natural number is more than the card has. -/
def Exceeds : Prop := (mmcCapacity card).toNat < devAddr.toNat + blocks.toNat

/-- Success is a completed request; the partition is selected again where the switch back
succeeds or is not needed; and of the ranges that are looked at those are refused that exceed
the card. -/
def Faithful : Prop :=
  let r := mmcTransfer card devAddr blocks switched switchedBack mrq
  (r.ret = 0 → Completed blocks (1 <<< card.readBlkbits) mrq) ∧
    (switchedBack = 0 ∨ OnUserPartition card → r.partConfig = card.partConfig) ∧
    (switched = 0 ∨ OnUserPartition card → (r.refused = true ↔ Exceeds card devAddr blocks))

theorem checkResult_eq_zero_iff : mmcCheckResult blocks blksz mrq = 0 ↔ Completed blocks blksz mrq := by
  have hret : ∀ ret : Int, (if ret = -22 then 2 else ret) = 0 ↔ ret = 0 := by
    intro ret
    split <;> omega
  rw [mmcCheckResult, hret, Completed]
  by_cases hcmd : mrq.cmdError = 0
  · by_cases hdata : mrq.dataError = 0
    · by_cases hstop : blocks = 1 ∨ mrq.stopError = 0
      · rw [if_neg fun h => h hcmd, if_neg fun h => h hdata, if_neg fun h => hstop.elim h.1 h.2]
        by_cases hbytes : mrq.bytesXfered = blocks * blksz <;> simp [hcmd, hdata, hstop, hbytes]
      · simp [hcmd, hdata, not_or.mp hstop]
    · simp [hcmd, hdata]
  · simp [hcmd]

/-- The bits of the other partition are lost. -/
theorem cleared_ne {c : UInt8} (h : c &&& accMask ≠ 0) : c &&& ~~~accMask ≠ c := by
  intro hc
  apply h
  rw [← hc, UInt8.and_assoc, show ~~~accMask &&& accMask = 0 by decide, UInt8.and_zero]

/-- The sum wraps, and is compared with `>=`. From another partition a switch back that succeeds
is the result, and is only made for a range that is not refused. -/
theorem internal_transfer_faithful_iff : Faithful card devAddr blocks switched switchedBack mrq ↔
      (¬ OnUserPartition card ∧ switched ≠ 0) ∨ ((mmcCapacity card ≤ devAddr + blocks ↔ Exceeds card devAddr blocks) ∧
        (¬ OnUserPartition card → switchedBack = 0 →
          ¬ mmcCapacity card ≤ devAddr + blocks ∧ Completed blocks (1 <<< card.readBlkbits) mrq)) := by
  by_cases huser : card.partConfig &&& accMask = 0
  · by_cases hrange : mmcCapacity card ≤ devAddr + blocks
    · simp [Faithful, mmcTransfer, OnUserPartition, huser, hrange]
    · simp [Faithful, mmcTransfer, OnUserPartition, huser, hrange, checkResult_eq_zero_iff]
  by_cases hswitched : switched = 0
  · have hcleared := cleared_ne huser
    by_cases hrange : mmcCapacity card ≤ devAddr + blocks
    · simp [Faithful, mmcTransfer, OnUserPartition, huser, hswitched, hrange, hcleared, and_comm]
    · by_cases hback : switchedBack = 0 <;>
        simp [Faithful, mmcTransfer, OnUserPartition, huser, hswitched, hrange, hback, and_comm]
  · simp [Faithful, mmcTransfer, OnUserPartition, huser, hswitched]

/-- A card on its first boot partition. -/
def bootCard : MmcCard := ⟨1, false, true, 1024, 0, 9⟩

/-- The request fails and 0 is returned; a range is refused and the card stays on the user
partition; and the last block of the card is refused. -/
theorem bootCard_not_faithful :
    (mmcTransfer bootCard 0 1 0 0 ⟨-110, 0, 0, 0⟩).ret = 0 ∧ ¬ Completed 1 512 ⟨-110, 0, 0, 0⟩ ∧
      (mmcTransfer bootCard 1024 1 0 0 ⟨0, 0, 0, 512⟩).partConfig = 0 ∧
      (mmcTransfer bootCard 1023 1 0 0 ⟨0, 0, 0, 512⟩).refused = true ∧ ¬ Exceeds bootCard 1023 1 := by
  unfold Completed Exceeds
  decide

end AmlogicV901d.Guarantees.InternalTransfers
