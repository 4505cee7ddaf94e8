import Mathlib.Data.Nat.Bitwise

/-!
# Fields of a register

A field is `width` bits of a register from bit `shift` on. `field` reads it and `put`
replaces it, with the shifts and masks of a driver: nothing keeps a value that is too
wide for the field from reaching its neighbours, so what `put` does is stated for a
value that fits.
-/
namespace AmlogicV901d.Lib.BitField

variable {n shift width shift' width' : Nat} {v x : BitVec n}

def ones (n width : Nat) : BitVec n := BitVec.ofNat n (2 ^ width - 1)

def field (shift width : Nat) (v : BitVec n) : BitVec n := (v >>> shift) &&& ones n width

def put (shift width : Nat) (v x : BitVec n) : BitVec n := (v &&& ~~~(ones n width <<< shift)) ||| (x <<< shift)

theorem getLsbD_ones (i : Nat) : (ones n width).getLsbD i = (decide (i < n) && decide (i < width)) := by
  simp [ones, BitVec.getLsbD_ofNat, Nat.testBit_two_pow_sub_one]

theorem getLsbD_field (i : Nat) : (field shift width v).getLsbD i = (v.getLsbD (shift + i) && decide (i < width)) := by
  rw [field, BitVec.getLsbD_and, BitVec.getLsbD_ushiftRight, getLsbD_ones]
  by_cases hi : i < n
  · simp [hi]
  · rw [BitVec.getLsbD_of_ge v (shift + i) (by omega)]
    simp

theorem getLsbD_of_fits (hx : x.toNat < 2 ^ width) {i : Nat} (hi : width ≤ i) : x.getLsbD i = false := by
  apply Nat.testBit_lt_two_pow
  exact Nat.lt_of_lt_of_le hx (Nat.pow_le_pow_right (by decide) hi)

/-- A bit after `put`: in the field the value's, elsewhere the register's. -/
theorem getLsbD_put (hx : x.toNat < 2 ^ width) {i : Nat} (hi : i < n) :
    (put shift width v x).getLsbD i = if shift ≤ i ∧ i < shift + width then x.getLsbD (i - shift) else v.getLsbD i := by
  rw [put, BitVec.getLsbD_or, BitVec.getLsbD_and, BitVec.getLsbD_not, BitVec.getLsbD_shiftLeft, BitVec.getLsbD_shiftLeft, getLsbD_ones]
  by_cases hlow : i < shift
  · simp [hi, hlow]
  have hsub : i - shift < n := by omega
  by_cases hhigh : i < shift + width
  · have hin : shift ≤ i ∧ i < shift + width := by omega
    have hwidth : i - shift < width := by omega
    rw [if_pos hin]
    simp [hi, hlow, hwidth, hsub]
  · have hnot : ¬ (shift ≤ i ∧ i < shift + width) := by omega
    have hwidth : ¬ i - shift < width := by omega
    rw [if_neg hnot, getLsbD_of_fits hx (Nat.not_lt.mp hwidth)]
    simp [hi, hlow, hwidth]

theorem field_put (hx : x.toNat < 2 ^ width) (hbound : shift + width ≤ n) : field shift width (put shift width v x) = x := by
  apply BitVec.eq_of_getLsbD_eq
  intro i hi
  rw [getLsbD_field]
  by_cases hwidth : i < width
  · have hin : shift ≤ shift + i ∧ shift + i < shift + width := by omega
    rw [getLsbD_put hx (by omega), if_pos hin]
    simp [hwidth]
  · rw [getLsbD_of_fits hx (Nat.not_lt.mp hwidth)]
    simp [hwidth]

/-- The fields share no bit. -/
def Apart (shift width shift' width' : Nat) : Prop := shift + width ≤ shift' ∨ shift' + width' ≤ shift

instance : Decidable (Apart shift width shift' width') := inferInstanceAs (Decidable (_ ∨ _))

theorem field_put_of_apart (hx : x.toNat < 2 ^ width) (hapart : Apart shift width shift' width') :
    field shift' width' (put shift width v x) = field shift' width' v := by
  apply BitVec.eq_of_getLsbD_eq
  intro i _
  rw [getLsbD_field, getLsbD_field]
  by_cases hwidth : i < width'
  · by_cases hbound : shift' + i < n
    · have hnot : ¬ (shift ≤ shift' + i ∧ shift' + i < shift + width) := by
        unfold Apart at hapart
        omega
      rw [getLsbD_put hx hbound, if_neg hnot]
    · rw [BitVec.getLsbD_of_ge _ _ (by omega), BitVec.getLsbD_of_ge _ _ (by omega)]
  · simp [hwidth]

theorem field_lt : (field shift width v).toNat < 2 ^ width := by
  refine Nat.lt_of_le_of_lt Nat.and_le_right ?_
  have hpos : 0 < 2 ^ width := Nat.two_pow_pos width
  exact Nat.lt_of_le_of_lt (Nat.mod_le _ _) (by omega)

end AmlogicV901d.Lib.BitField
