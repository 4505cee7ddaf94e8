import Mathlib.Data.Nat.Bitwise

/-!
# Fixed-width little-endian words

Byte encodings of the unsigned words that the boot firmware keeps in flat
buffers. The width is a parameter; `leValue_leBytes` is exact modulo `256 ^ k`,
so a caller never needs a separate no-overflow premise to read a word back.
-/
namespace AmlogicV901d.Lib.LittleEndian

/-- The `k` low bytes of `n`, least significant first. -/
def leBytes : Nat → Nat → List UInt8
  | 0, _ => []
  | k + 1, n => UInt8.ofNat n :: leBytes k (n / 256)

def leValue : List UInt8 → Nat
  | [] => 0
  | b :: bs => b.toNat + 256 * leValue bs

@[simp] theorem leBytes_length (k n : Nat) : (leBytes k n).length = k := by
  induction k generalizing n with
  | zero => rfl
  | succ k ih => simp [leBytes, ih]

theorem leValue_leBytes (k n : Nat) : leValue (leBytes k n) = n % 256 ^ k := by
  induction k generalizing n with
  | zero => simp [leBytes, leValue, Nat.mod_one]
  | succ k ih =>
    have hp : 256 ^ (k + 1) = 256 * 256 ^ k := Nat.pow_succ'
    simp only [leBytes, leValue, ih, UInt8.toNat_ofNat', hp, Nat.mod_mul]

theorem leValue_leBytes_u16 (w : UInt16) : UInt16.ofNat (leValue (leBytes 2 w.toNat)) = w := by
  rw [leValue_leBytes]
  have hw : w.toNat % 256 ^ 2 = w.toNat := Nat.mod_eq_of_lt (by simpa using w.toNat_lt)
  rw [hw]
  exact UInt16.ofNat_toNat

theorem leValue_leBytes_u32 (w : UInt32) : UInt32.ofNat (leValue (leBytes 4 w.toNat)) = w := by
  rw [leValue_leBytes]
  have hw : w.toNat % 256 ^ 4 = w.toNat := Nat.mod_eq_of_lt (by simpa using w.toNat_lt)
  rw [hw]
  exact UInt32.ofNat_toNat

theorem leValue_leBytes_u64 (w : UInt64) : UInt64.ofNat (leValue (leBytes 8 w.toNat)) = w := by
  rw [leValue_leBytes]
  have hw : w.toNat % 256 ^ 8 = w.toNat := Nat.mod_eq_of_lt (by simpa using w.toNat_lt)
  rw [hw]
  exact UInt64.ofNat_toNat

end AmlogicV901d.Lib.LittleEndian
