import AmlogicV901d.Guarantees.PtsLookups

/-!
# Interpolated audio time stamps

The guard takes the difference of two time stamps modulo 2^32, and the interpolation takes it
modulo 2^64: the answers stay between two records unless the time stamp wraps between them.
-/
namespace AmlogicV901d.Guarantees.AudioInterpolation
open Source.Ptsserv
open Lib.CircularOrder hiding dist
open Lib.CircularOrder renaming dist → gap

variable {p2 p : PtsRec} {offset v : UInt32}

/-- A lookup comes to `p2`, which is not after the offset; the record behind it is `p`, which is
after it; and an interpolated value is answered. -/
structure Answered (p2 p : PtsRec) (offset v : UInt32) : Prop where
  increasing : Before p2.offset p.offset
  upTo : UpTo p2.offset offset
  before : Before offset p.offset
  lookup : ∃ ptsMargin headOffset t passed uS64 t', nextRec p2.id (dropPassed .audio passed t).validList = some p ∧
    finish .audio offset (threshold ptsMargin t) p2 (dropPassed .audio passed t) = (.interpolated v uS64, t') ∧
    ptsLookupOffsetInlineLocked .audio offset ptsMargin headOffset t = some (.interpolated v uS64, t')

/-- Answers are between the two records, and do not go back when the offset goes on. -/
def StaysBetween (p2 p : PtsRec) : Prop :=
  (∀ offset v, Answered p2 p offset v → v - p2.val ≤ p.val - p2.val) ∧
    ∀ offset v offset' v', Answered p2 p offset v → Answered p2 p offset' v' →
      gap p2.offset offset ≤ gap p2.offset offset' → v - p2.val ≤ v' - p2.val

theorem guard_iff {a b : UInt32} : valDiff b a < interpolateAudioResolution ∧ 0 ≤ valDiff b a ↔ gap a b < 9000 := by
  rw [valDiff, sub_toInt32_nonneg, Int32.lt_iff_toInt_lt, toInt_sub]
  show _ < (9000 : Int) ∧ gap a b < 2147483648 ↔ _
  split
  · omega
  · next hup =>
    rw [UpTo] at hup
    omega

theorem Answered.eq (h : Answered p2 p offset v) : gap p2.val p.val < 9000 ∧ v = interpolate offset p2 p := by
  obtain ⟨ptsMargin, headOffset, t, passed, uS64, t', hnext, hfinish, -⟩ := h.lookup
  unfold finish at hfinish
  split at hfinish
  · cases hfinish
  rw [hnext] at hfinish
  dsimp only at hfinish
  split at hfinish
  · next hguard =>
    cases hfinish
    exact ⟨guard_iff.mp hguard, rfl⟩
  · cases hfinish

theorem interpolate_sub : (interpolate offset p2 p - p2.val).toNat =
    (p.val.toUInt64 - p2.val.toUInt64).toNat * gap p2.offset offset % 18446744073709551616 / gap p2.offset p.offset % 4294967296 := by
  have hval := p2.val.toNat_lt
  simp only [interpolate, UInt32.toNat_sub, UInt64.toNat_toUInt32, UInt64.toNat_add, UInt64.toNat_div, UInt64.toNat_mul,
    UInt32.toNat_toUInt64, gap, Nat.reducePow]
  omega

/-- Without a wrap the product fits, and the quotient is a part of the difference. -/
theorem Answered.sub_eq (h : Answered p2 p offset v) (hval : p2.val ≤ p.val) :
    (v - p2.val).toNat = gap p2.val p.val * gap p2.offset offset / gap p2.offset p.offset ∧
      (v - p2.val).toNat ≤ gap p2.val p.val := by
  obtain ⟨hguard, rfl⟩ := h.eq
  have hbound := dist_lt p2.offset offset
  have hlt : gap p2.offset offset ≤ gap p2.offset p.offset := by
    have hsum := dist_add p2.offset offset p.offset
    obtain ⟨-, hup : gap _ _ < _, ⟨-, hafter⟩, -⟩ := h
    omega
  have hdiff : (p.val.toUInt64 - p2.val.toUInt64).toNat = gap p2.val p.val := by
    rw [UInt64.toNat_sub_of_le _ _ hval, gap, UInt32.toNat_sub_of_le _ _ hval]
    rfl
  have hprod := Nat.mul_le_mul (Nat.le_of_lt hguard) (Nat.le_of_lt hbound)
  have hle : gap p2.val p.val * gap p2.offset offset / gap p2.offset p.offset ≤ gap p2.val p.val := by
    apply Nat.div_le_of_le_mul
    rw [Nat.mul_comm]
    exact Nat.mul_le_mul_right _ hlt
  rw [interpolate_sub, hdiff, Nat.mod_eq_of_lt (by omega : _ < 18446744073709551616), Nat.mod_eq_of_lt (by omega)]
  exact ⟨rfl, hle⟩

/-- Two records that are two bytes apart, and the byte between them. -/
theorem answered_between {a b : UInt32} (h : gap a b < 9000) :
    Answered ⟨0, 0, a, 0, 0⟩ ⟨1, 2, b, 0, 0⟩ 1 (interpolate 1 ⟨0, 0, a, 0, 0⟩ ⟨1, 2, b, 0, 0⟩) := by
  refine ⟨(by decide : Before 0 2), (by decide : UpTo 0 1), (by decide : Before 1 2), 1, 0,
    ⟨.running, 0, 0, false, 0, 0, 0, 0, true, false, none, [⟨0, 0, a, 0, 0⟩, ⟨1, 2, b, 0, 0⟩], [], 0⟩, [], ?_⟩
  simp [ptsLookupOffsetInlineLocked, lookupIn, pruneTable, searchStart, searchFrom, forward, dropPassed, finish, threshold,
    nextRec, guard_iff.mpr h, offsetLater, offsetDiff]

/-- Records with two values keep the answers between them if the second one is not below the
first; else half of the difference modulo 2^64 is far off. -/
theorem interpolation_stays_between_iff (a b : UInt32) :
    (∀ p2 p : PtsRec, p2.val = a → p.val = b → StaysBetween p2 p) ↔ (gap a b < 9000 → a ≤ b) := by
  constructor
  · refine fun hall hguard => Classical.byContradiction fun hval => ?_
    have hle : UInt32.toNat _ ≤ gap a b := (hall ⟨0, 0, a, 0, 0⟩ ⟨1, 2, b, 0, 0⟩ rfl rfl).1 _ _ (answered_between hguard)
    rw [interpolate_sub] at hle
    dsimp only at hle
    rw [show gap 0 1 = 1 from rfl, show gap 0 2 = 2 from rfl, UInt64.toNat_sub, UInt32.toNat_toUInt64, UInt32.toNat_toUInt64] at hle
    have ha := a.toNat_lt
    rw [UInt32.le_iff_toNat_le] at hval
    omega
  · rintro h p2 p rfl rfl
    refine ⟨fun offset v hv => (hv.sub_eq (h hv.eq.1)).2, fun offset v offset' v' hv hv' hle => ?_⟩
    rw [UInt32.le_iff_toNat_le, (hv.sub_eq (h hv.eq.1)).1, (hv'.sub_eq (h hv.eq.1)).1]
    exact Nat.div_le_div_right (Nat.mul_le_mul_left _ hle)

/-- Halfway between two stamps that are 2 apart the answer is 2^31 behind the first one. -/
theorem wrapping_stamp_leaves_records : (∃ t', ptsLookupOffsetInlineLocked .audio 1 1 0
      ⟨.running, 0, 0, false, 0, 0, 0, 0, true, false, none, [⟨0, 0, 0xffffffff, 0, 0⟩, ⟨1, 2, 1, 0, 0⟩], [], 0⟩ =
        some (.interpolated 0x80000000 0x8000000000000000, t')) ∧
      ¬ (0x80000000 : UInt32) - 0xffffffff ≤ 1 - 0xffffffff :=
  ⟨⟨_, rfl⟩, by decide⟩

end AmlogicV901d.Guarantees.AudioInterpolation
