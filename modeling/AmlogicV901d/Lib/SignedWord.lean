/-!
# Signed words

A signed word of 32 bits against the integer it stands for, as long as nothing overflows.
-/
namespace AmlogicV901d.Lib.SignedWord

theorem toInt_add_of_bounds {a b : Int32} (hlow : -2147483648 ≤ a.toInt + b.toInt) (hhigh : a.toInt + b.toInt < 2147483648) :
    (a + b).toInt = a.toInt + b.toInt := by
  rw [Int32.toInt_add]
  exact Int.bmod_eq_of_le hlow hhigh

theorem toInt_sub_of_bounds {a b : Int32} (hlow : -2147483648 ≤ a.toInt - b.toInt) (hhigh : a.toInt - b.toInt < 2147483648) :
    (a - b).toInt = a.toInt - b.toInt := by
  rw [Int32.toInt_sub]
  exact Int.bmod_eq_of_le hlow hhigh

theorem toInt_one : Int32.toInt 1 = 1 := rfl

theorem toNat_toUInt32 {a : Int32} {n : Nat} (h : a.toInt = n) : a.toUInt32.toNat = n := by
  have hcond := BitVec.toInt_eq_toNat_cond a.toBitVec
  have hint : a.toInt = a.toBitVec.toInt := rfl
  have hnat : a.toUInt32.toNat = a.toBitVec.toNat := rfl
  split at hcond <;> omega

theorem toInt_toInt32 {u : UInt32} (h : u.toNat < 2147483648) : u.toInt32.toInt = u.toNat := by
  have hcond := BitVec.toInt_eq_toNat_cond u.toBitVec
  have hint : u.toInt32.toInt = u.toBitVec.toInt := rfl
  have hnat : u.toNat = u.toBitVec.toNat := rfl
  split at hcond <;> omega

end AmlogicV901d.Lib.SignedWord
