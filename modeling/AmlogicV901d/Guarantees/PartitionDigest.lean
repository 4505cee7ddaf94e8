import AmlogicV901d.Source.Optimus.Sha1sum

/-!
# Partition SHA-1 verification decides equality

What one round reads is verified by its digest. With a second round the words of the context stand
in the text before the digest, and the text leaves its buffer.
-/
namespace AmlogicV901d.Guarantees.PartitionDigest
open Source.Optimus.Sha1sum

/-- The digest of the first `length` bytes as a text. -/
def digestText (sha : Sha1) (partition : Nat → UInt8) (length : Nat) : List Char :=
  (sha.sha1 (storeRead partition 0 length)).toList.flatMap fun byte => hex 2 byte.toNat

/-- The result is 0 for the digest and for no other text of 40 characters, and the text and its end
are in the 41 bytes of the buffer. -/
def Decides (sha : Sha1) (partition : Nat → UInt8) (length : Nat) : Prop :=
  ∀ digest : List Char, digest.length = 40 →
    ((optimusSha1sum sha partition length digest).1 = 0 ↔ digest = digestText sha partition length) ∧
      (optimusSha1sum sha partition length digest).2.length + 1 ≤ 41

variable {α : Type} {sha : Sha1} {partition : Nat → UInt8} {need offset : Nat}

theorem length_hex (k n : Nat) : (hex k n).length = k := by
  induction k generalizing n with
  | zero => rfl
  | succ k ih => rw [hex, List.length_append, ih, List.length_singleton]

theorem length_hexes (k : Nat) (f : α → Nat) (l : List α) : (l.flatMap fun a => hex k (f a)).length = l.length * k := by
  induction l with
  | nil => exact (Nat.zero_mul k).symm
  | cons a l ih => rw [List.flatMap_cons, List.length_append, length_hex, ih, List.length_cons, Nat.succ_mul, Nat.add_comm]

/-- The rounds extend the text, by 40 characters or more if there is one. -/
theorem rounds_extend (ctx : sha.Ctx) (text : List Char) :
    text.length + (if buffermax < need then 40 else 0) ≤ (rounds sha partition need offset ctx text).2.2.2.length := by
  fun_induction rounds sha partition need offset ctx text with
  | case1 need offset ctx text hmore ctx' ih =>
    rw [List.length_append, length_hexes, Vector.length_toList] at ih
    rw [if_pos hmore]
    exact Nat.le_trans (Nat.le_add_right _ _) ih
  | case2 need offset ctx text hone =>
    rw [if_neg hone]
    exact Nat.le_refl _

/-- With a second round the text takes 81 bytes or more. -/
theorem not_decides_of_more {length : Nat} (hmore : buffermax < length) : ¬Decides sha partition length := fun h => by
  have hroom : ((rounds sha partition length 0 sha.sha1Starts []).2.2.2 ++ _).length + 1 ≤ 41 :=
    (h (List.replicate 40 '0') rfl).2
  have hwords := @rounds_extend sha partition length 0 sha.sha1Starts []
  rw [if_pos hmore, List.length_nil] at hwords
  rw [List.length_append, length_hexes, Vector.length_toList] at hroom
  omega

/-- The verification decides equality exactly for what one round reads. -/
theorem decides_digest_iff (sha : Sha1) (partition : Nat → UInt8) (length : Nat) :
    Decides sha partition length ↔ length ≤ 64 * 1024 * 1024 := by
  by_cases hmore : buffermax < length
  · exact iff_of_false (not_decides_of_more hmore) (Nat.not_le.mpr hmore)
  refine iff_of_true (fun digest hlen => ?_) (Nat.not_lt.mp hmore)
  have hfinish : sha.sha1Finish (sha.sha1Update sha.sha1Starts (storeRead partition 0 length)) =
      sha.sha1 (storeRead partition 0 length) := by
    simpa using sha.finish_eq [storeRead partition 0 length]
  have htext : (digestText sha partition length).length = 40 := by
    rw [digestText, length_hexes, Vector.length_toList]
  rw [optimusSha1sum, rounds, if_neg hmore]
  dsimp only
  rw [hfinish, List.nil_append, ← digestText, List.take_of_length_le (Nat.le_of_eq hlen),
    List.take_of_length_le (Nat.le_of_eq htext), htext]
  exact ⟨by split <;> simp_all, Nat.le_refl _⟩

/-- A digest that tells nothing. -/
def constantSha : Sha1 :=
  ⟨Unit, (), fun _ _ => (), fun _ => .replicate 20 0, fun _ => .replicate 5 0, fun _ => .replicate 20 0, fun _ => rfl⟩

theorem second_round_not_decided : ¬Decides constantSha (fun _ => 0) (64 * 1024 * 1024 + 1) :=
  not_decides_of_more (by decide)

end AmlogicV901d.Guarantees.PartitionDigest
