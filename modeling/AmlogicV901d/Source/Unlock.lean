/-!
# Limited unlock

`unlock/unlock_ltc.c:14-123`, `unlock.c:31-37` and `bl33/board/amlogic/lagunaf/secure_boot.c:92-116`.

The libtomcrypt and board primitives are fields of `UnlockEnv`. Buffers are byte
lists whose length is the length argument; `none` is a NULL pointer.
-/
namespace AmlogicV901d.Source.Unlock

def errUnlockSuccess : Int := 0
def errUnlockBadArgument : Int := 1
def errUnlockNoMemory : Int := 2
def errUnlockBadKey : Int := 3
def errUnlockRsaVerifyFail : Int := 4
def errUnlockGetCodeFail : Int := 6

def unlockCodeLen : UInt32 := 32

structure UnlockEnv (Pk : Type) where
  /-- `amzn_get_unlock_key` -/
  unlockKey : Option (List UInt8)
  /-- `get_chip_id`, `none` when it fails -/
  chipId : Option (List UInt8)
  sha256 : List UInt8 → Vector UInt8 32
  /-- `amzn_plat_alloc` returns memory -/
  platAlloc : Bool
  rsaImport : List UInt8 → Option Pk
  /-- `none` when `hash_memory` reports an error -/
  hashMemory : List UInt8 → Option (List UInt8)
  /-- return code (0 is CRYPT_OK) and `status` -/
  rsaVerifyHash : List UInt8 → List UInt8 → Pk → Int × Int

def hexDigit (n : Nat) : UInt8 := UInt8.ofNat (if n < 10 then 0x30 + n else 0x57 + n)

/-- "%08x" of `be32_to_cpu` of word `i`: the four bytes in order, two digits each. -/
def hexWord (hash : Vector UInt8 32) (i : Nat) : List UInt8 :=
  ((hash.toList.drop (4 * i)).take 4).flatMap fun b =>
    [hexDigit (b.toNat / 16), hexDigit (b.toNat % 16)]

/-- The string the board derives from the chip id: the last two words of its
SHA-256. -/
def codeOfChipId {Pk : Type} (env : UnlockEnv Pk) (chip : List UInt8) : List UInt8 :=
  hexWord (env.sha256 chip) 6 ++ hexWord (env.sha256 chip) 7

theorem codeOfChipId_length {Pk : Type} (env : UnlockEnv Pk) (chip : List UInt8) :
    (codeOfChipId env chip).length = 16 := by
  have hpairs : ∀ l : List UInt8, (l.flatMap fun b =>
      [hexDigit (b.toNat / 16), hexDigit (b.toNat % 16)]).length = 2 * l.length := by
    intro l
    induction l with
    | nil => rfl
    | cons b rest ih =>
      simp only [List.flatMap_cons, List.length_append, ih, List.length_cons, List.length_nil]
      omega
  simp only [codeOfChipId, hexWord, List.length_append, hpairs, List.length_take, List.length_drop,
    Vector.length_toList]
  rfl

/-- Returns the status, the code buffer and `*len`. -/
def amznGetUnlockCode {Pk : Type} (env : UnlockEnv Pk) (code : List UInt8) (len : UInt32) : Int × List UInt8 × UInt32 :=
  if len < 16 + 1 then (-1, code, len)
  else
    match env.chipId with
    | none => (-1, code, len)
    | some chip => (0, codeOfChipId env chip, 16)

/-- The default ignores the counter. -/
def amznGetLimitedUnlockCode {Pk : Type} (env : UnlockEnv Pk) (code : List UInt8) (len : UInt32)
    (_ctr : UInt32) : Int × List UInt8 × UInt32 :=
  amznGetUnlockCode env code len

/-- An empty or NULL argument. -/
def missing (buf : Option (List UInt8)) : Bool :=
  match buf with
  | none => true
  | some bytes => bytes.isEmpty

/-- `none` is the `while (1)` after a failed `hash_memory`. -/
def amznVerifyCodeInternal {Pk : Type} (env : UnlockEnv Pk) (data : List UInt8)
    (sig key : Option (List UInt8)) : Option Int :=
  if missing (some data) || missing sig || missing key then some (-errUnlockBadArgument)
  else if !env.platAlloc then some (-errUnlockNoMemory)
  else
    match env.rsaImport (key.getD []) with
    | none => some (-errUnlockBadKey)
    | some rsaPk =>
      match env.hashMemory data with
      | none => none
      | some digest =>
        let (ret, status) := env.rsaVerifyHash (sig.getD []) digest rsaPk
        if ret = 0 ∧ status = 1 then some errUnlockSuccess else some (-errUnlockRsaVerifyFail)

/-- The counter loop. `ret`, `code` and `codeLen` are the locals carried from
iteration to iteration; `none` is fuel exhaustion or the `while (1)` above. -/
def limitedUnlockLoop {Pk : Type} (env : UnlockEnv Pk) (sig key : Option (List UInt8))
    (ctrMax : UInt32) : Nat → UInt32 → Int → List UInt8 → UInt32 → Option Int
  | 0, _, _, _, _ => none
  | fuel + 1, ctr, ret, code, codeLen =>
    if ctr ≤ ctrMax then
      match amznGetLimitedUnlockCode env code codeLen ctr with
      | (got, code, codeLen) =>
        if got ≠ 0 then some (-errUnlockGetCodeFail)
        else
          match amznVerifyCodeInternal env (code.take codeLen.toNat) sig key with
          | none => none
          | some ret =>
            if ret = 0 then some ret
            else limitedUnlockLoop env sig key ctrMax fuel (ctr + 1) ret code codeLen
    else some ret

def amznVerifyLimitedUnlock {Pk : Type} (env : UnlockEnv Pk) (fuel : Nat)
    (sig : Option (List UInt8)) (ctrMin ctrMax : UInt32) : Option Int :=
  if missing env.unlockKey then some (-errUnlockBadKey)
  else limitedUnlockLoop env sig env.unlockKey ctrMax fuel ctrMin (-errUnlockSuccess) [] unlockCodeLen

/-- The signature of a code verifies under the key, in terms of the primitives. -/
structure Accepts {Pk : Type} (env : UnlockEnv Pk) (sig key : Option (List UInt8)) (data : List UInt8) : Prop where
  sigGiven : missing sig = false
  keyGiven : missing key = false
  verified : ∃ rsaPk digest, env.rsaImport (key.getD []) = some rsaPk ∧ env.hashMemory data = some digest ∧
    env.rsaVerifyHash (sig.getD []) digest rsaPk = (0, 1)

/-- Status 0 of the verification is acceptance, given memory for the key. -/
theorem amznVerifyCodeInternal_success_iff {Pk : Type} (env : UnlockEnv Pk) (data : List UInt8) (hdata : data ≠ [])
    (sig key : Option (List UInt8)) : amznVerifyCodeInternal env data sig key = some 0 ↔
      env.platAlloc = true ∧ Accepts env sig key data := by
  have hgiven : missing (some data) = false := by simpa [missing] using hdata
  unfold amznVerifyCodeInternal
  rw [hgiven, Bool.false_or]
  by_cases hargs : (missing sig || missing key) = true
  · rw [if_pos hargs]
    refine iff_of_false (by decide) ?_
    rintro ⟨-, hsig, hkey, -⟩
    simp [hsig, hkey] at hargs
  · rw [if_neg hargs]
    simp only [Bool.or_eq_true, not_or, Bool.not_eq_true] at hargs
    cases halloc : env.platAlloc with
    | false => simp [errUnlockNoMemory]
    | true =>
      constructor
      · intro h
        refine ⟨rfl, hargs.1, hargs.2, ?_⟩
        simp only [Bool.not_true, Bool.false_eq_true, if_false] at h
        split at h
        · simp [errUnlockBadKey] at h
        rename_i rsaPk himport
        split at h
        · cases h
        rename_i digest hhash
        refine ⟨rsaPk, digest, himport, hhash, ?_⟩
        split at h
        · rename_i hok
          exact Prod.ext hok.1 hok.2
        · simp [errUnlockRsaVerifyFail] at h
      · rintro ⟨-, -, -, rsaPk, digest, himport, hhash, hverify⟩
        simp [himport, hhash, hverify, errUnlockSuccess]

/-- The verification always returns when `hash_memory` works. -/
theorem amznVerifyCodeInternal_returns {Pk : Type} (env : UnlockEnv Pk) (hhash : ∀ data, env.hashMemory data ≠ none)
    (data : List UInt8) (sig key : Option (List UInt8)) :
    ∃ ret, amznVerifyCodeInternal env data sig key = some ret := by
  unfold amznVerifyCodeInternal
  split
  · exact ⟨_, rfl⟩
  split
  · exact ⟨_, rfl⟩
  split
  · exact ⟨_, rfl⟩
  split
  · rename_i hnone
    exact absurd hnone (hhash data)
  · dsimp only
    split <;> exact ⟨_, rfl⟩

end AmlogicV901d.Source.Unlock
