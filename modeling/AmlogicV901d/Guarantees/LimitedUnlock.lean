import AmlogicV901d.Source.Unlock

/-!
# What limited unlock accepts

The code length is an in/out argument that the first iteration shrinks from 32
to 16, below the 17 bytes `amzn_get_unlock_code` asks for, so the second
iteration always fails: two iterations decide the loop. The result variable
starts at ERR_UNLOCK_SUCCESS (unlock_ltc.c:94), which is what an empty range
returns.
-/
namespace AmlogicV901d.Guarantees.LimitedUnlock
open Source.Unlock

/-- Some counter of the range has an unlock code that verifies. -/
def SomeCounterVerifies {Pk : Type} (env : UnlockEnv Pk) (sig : Option (List UInt8)) (ctrMin ctrMax : UInt32) : Prop :=
  ∃ ctr code codeLen, ctrMin ≤ ctr ∧ ctr ≤ ctrMax ∧
    amznGetLimitedUnlockCode env [] unlockCodeLen ctr = (0, code, codeLen) ∧
    Accepts env sig env.unlockKey (code.take codeLen.toNat)

section
variable {Pk : Type} (env : UnlockEnv Pk)

theorem limitedUnlockLoop_second (sig key : Option (List UInt8)) (ctrMax ctr : UInt32) (ret : Int) (code : List UInt8)
    (hret : ret ≠ 0) : ∃ r, r ≠ 0 ∧
      ∀ fuel, limitedUnlockLoop env sig key ctrMax (fuel + 1) ctr ret code 16 = some r := by
  by_cases hctr : ctr ≤ ctrMax
  · have hshort : amznGetLimitedUnlockCode env code 16 ctr = (-1, code, 16) := by
      rw [amznGetLimitedUnlockCode, amznGetUnlockCode, if_pos (by decide)]
    refine ⟨-errUnlockGetCodeFail, by decide, fun fuel => ?_⟩
    rw [limitedUnlockLoop, if_pos hctr, hshort]
    rfl
  · exact ⟨ret, hret, fun fuel => by rw [limitedUnlockLoop, if_neg hctr]⟩

theorem amznGetLimitedUnlockCode_first (ctr : UInt32) : amznGetLimitedUnlockCode env [] unlockCodeLen ctr =
      match env.chipId with
      | none => (-1, [], unlockCodeLen)
      | some chip => (0, codeOfChipId env chip, 16) := by
  unfold amznGetLimitedUnlockCode amznGetUnlockCode
  exact if_neg (by decide)

theorem codeOfChipId_take (chip : List UInt8) :
    (codeOfChipId env chip).take (16 : UInt32).toNat = codeOfChipId env chip :=
  List.take_of_length_le (by rw [codeOfChipId_length]; decide)

/-- A non-empty range succeeds exactly when the one unlock code verifies. -/
theorem limitedUnlockLoop_first (hhash : ∀ data, env.hashMemory data ≠ none) (sig key : Option (List UInt8))
    (ctrMin ctrMax : UInt32) (hrange : ctrMin ≤ ctrMax) (ret : Int) :
    ∃ r, (∀ fuel, limitedUnlockLoop env sig key ctrMax (fuel + 2) ctrMin ret [] unlockCodeLen = some r) ∧
      (r = 0 ↔ ∃ chip, env.chipId = some chip ∧
        amznVerifyCodeInternal env (codeOfChipId env chip) sig key = some 0) := by
  cases hchip : env.chipId with
  | none =>
    refine ⟨-errUnlockGetCodeFail, fun fuel => ?_, fun h => absurd h (by decide), ?_⟩
    · rw [limitedUnlockLoop, if_pos hrange, amznGetLimitedUnlockCode_first, hchip]
      rfl
    · rintro ⟨chip, h, -⟩
      cases h
  | some chip =>
    obtain ⟨v, hverify⟩ := amznVerifyCodeInternal_returns env hhash (codeOfChipId env chip) sig key
    have hstep : ∀ fuel, limitedUnlockLoop env sig key ctrMax (fuel + 2) ctrMin ret [] unlockCodeLen =
          if v = 0 then some v
          else limitedUnlockLoop env sig key ctrMax (fuel + 1) (ctrMin + 1) v
            (codeOfChipId env chip) 16 := by
      intro fuel
      rw [limitedUnlockLoop, if_pos hrange, amznGetLimitedUnlockCode_first, hchip]
      simp only [ne_eq, not_true_eq_false, if_false, codeOfChipId_take, hverify]
    have hunique : (∃ chip', some chip = some chip' ∧
        amznVerifyCodeInternal env (codeOfChipId env chip') sig key = some 0) ↔ v = 0 := by
      simp [hverify]
    rw [hunique]
    by_cases hv : v = 0
    · exact ⟨v, fun fuel => by rw [hstep, if_pos hv], .rfl⟩
    · obtain ⟨r, hr, hrun⟩ := limitedUnlockLoop_second env sig key ctrMax (ctrMin + 1) v
        (codeOfChipId env chip) hv
      exact ⟨r, fun fuel => by rw [hstep, if_neg hv, hrun], iff_of_false hr hv⟩

theorem someCounterVerifies_iff (sig : Option (List UInt8)) (ctrMin ctrMax : UInt32) :
    SomeCounterVerifies env sig ctrMin ctrMax ↔ ctrMin ≤ ctrMax ∧ ∃ chip, env.chipId = some chip ∧
        Accepts env sig env.unlockKey (codeOfChipId env chip) := by
  constructor
  · rintro ⟨ctr, code, codeLen, hmin, hmax, hget, haccept⟩
    refine ⟨UInt32.le_trans hmin hmax, ?_⟩
    rw [amznGetLimitedUnlockCode_first] at hget
    cases hchip : env.chipId with
    | none => simp [hchip] at hget
    | some chip =>
      simp only [hchip, Prod.mk.injEq, true_and] at hget
      obtain ⟨rfl, rfl⟩ := hget
      rw [codeOfChipId_take] at haccept
      exact ⟨chip, rfl, haccept⟩
  · rintro ⟨hrange, chip, hchip, haccept⟩
    refine ⟨ctrMin, codeOfChipId env chip, 16, UInt32.le_refl _, hrange, ?_, ?_⟩
    · rw [amznGetLimitedUnlockCode_first, hchip]
    · rw [codeOfChipId_take]
      exact haccept

/-- The loop ends within three tests of its bound, and its verdict is the one
asked for exactly when the key is missing, or the range is not empty and memory
for the parsed key is there if it matters. -/
theorem limited_unlock_exact_iff (hhash : ∀ data, env.hashMemory data ≠ none) (sig : Option (List UInt8))
    (ctrMin ctrMax : UInt32) : ∃ ret, (∀ fuel, amznVerifyLimitedUnlock env (fuel + 3) sig ctrMin ctrMax = some ret) ∧
      ((ret = errUnlockSuccess ↔ SomeCounterVerifies env sig ctrMin ctrMax) ↔ missing env.unlockKey = true ∨
          ctrMin ≤ ctrMax ∧ (env.platAlloc = true ∨ ¬ SomeCounterVerifies env sig ctrMin ctrMax)) := by
  by_cases hkey : missing env.unlockKey = true
  · refine ⟨-errUnlockBadKey, fun fuel => by rw [amznVerifyLimitedUnlock, if_pos hkey],
      iff_of_true (iff_of_false (by decide) ?_) (.inl hkey)⟩
    rintro ⟨_, _, _, -, -, -, haccept⟩
    rw [haccept.keyGiven] at hkey
    cases hkey
  · have hloop : ∀ fuel, amznVerifyLimitedUnlock env fuel sig ctrMin ctrMax =
        limitedUnlockLoop env sig env.unlockKey ctrMax fuel ctrMin (-errUnlockSuccess) []
          unlockCodeLen := fun fuel => by rw [amznVerifyLimitedUnlock, if_neg hkey]
    rw [or_iff_right hkey, someCounterVerifies_iff]
    by_cases hrange : ctrMin ≤ ctrMax
    · obtain ⟨r, hrun, hr⟩ := limitedUnlockLoop_first env hhash sig env.unlockKey ctrMin ctrMax
        hrange (-errUnlockSuccess)
      have hverify : ∀ chip, amznVerifyCodeInternal env (codeOfChipId env chip) sig env.unlockKey =
          some 0 ↔ env.platAlloc = true ∧ Accepts env sig env.unlockKey (codeOfChipId env chip) := by
        intro chip
        apply amznVerifyCodeInternal_success_iff
        intro hnil
        have hlen := codeOfChipId_length env chip
        rw [hnil] at hlen
        cases hlen
      refine ⟨r, fun fuel => (hloop _).trans (hrun (fuel + 1)), ?_⟩
      simp only [errUnlockSuccess, hr, hverify, hrange, true_and]
      cases halloc : env.platAlloc with
      | true => simp
      | false => simp
    · refine ⟨0, fun fuel => ?_, ?_⟩
      · rw [hloop, limitedUnlockLoop, if_neg hrange]
        rfl
      · simp [errUnlockSuccess, hrange]

end

/-- A board with a one byte key under which every signature verifies. -/
def permissiveEnv : UnlockEnv Unit where
  unlockKey := some [0x30]
  chipId := some (List.replicate 16 0)
  sha256 := fun _ => Vector.replicate 32 0
  platAlloc := true
  rsaImport := fun _ => some ()
  hashMemory := fun data => some data
  rsaVerifyHash := fun _ _ _ => (0, 1)

/-- The same board when no signature verifies. -/
def strictEnv : UnlockEnv Unit := { permissiveEnv with rsaVerifyHash := fun _ _ _ => (0, 0) }

/-- The empty range from 1 to 0 unlocks although nothing verifies. -/
theorem limited_unlock_empty_range_unlocks :
    amznVerifyLimitedUnlock strictEnv 3 (some [0]) 1 0 = some errUnlockSuccess ∧
      ¬ SomeCounterVerifies strictEnv (some [0]) 1 0 := by
  refine ⟨rfl, ?_⟩
  rw [someCounterVerifies_iff]
  exact fun h => nomatch h.1

/-- The whole counter range on the permissive board. -/
theorem limited_unlock_exact_full_range :
    ∃ ret, (∀ fuel, amznVerifyLimitedUnlock permissiveEnv (fuel + 3) (some [0]) 0 0xffffffff = some ret) ∧
      ((ret = errUnlockSuccess ↔ SomeCounterVerifies permissiveEnv (some [0]) 0 0xffffffff) ↔
        missing permissiveEnv.unlockKey = true ∨ (0 : UInt32) ≤ 0xffffffff ∧ (permissiveEnv.platAlloc = true ∨
            ¬ SomeCounterVerifies permissiveEnv (some [0]) 0 0xffffffff)) :=
  limited_unlock_exact_iff permissiveEnv (fun _ => nofun) (some [0]) 0 0xffffffff

end AmlogicV901d.Guarantees.LimitedUnlock
