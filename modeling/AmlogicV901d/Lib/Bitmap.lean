/-!
# Bitmaps

A bitmap is a function from bit numbers. `ones p n` lists the bits set below `n`.
-/
namespace AmlogicV901d.Lib.Bitmap

open List

def ones (p : Nat → Bool) (n : Nat) : List Nat := (List.range n).filter p

def setBit (p : Nat → Bool) (bit : Nat) (value : Bool) : Nat → Bool :=
  fun i => if i = bit then value else p i

variable {p q : Nat → Bool} {n i : Nat}

@[simp] theorem setBit_self (p : Nat → Bool) (bit : Nat) (value : Bool) : setBit p bit value bit = value :=
  if_pos rfl

theorem setBit_ne {bit : Nat} (value : Bool) (h : i ≠ bit) : setBit p bit value i = p i := if_neg h

theorem mem_ones : i ∈ ones p n ↔ i < n ∧ p i = true := by
  rw [ones, mem_filter, mem_range]

theorem ones_nodup : (ones p n).Nodup := nodup_range.filter p

theorem ones_false : ones (fun _ => false) n = [] := by
  rw [ones, filter_eq_nil_iff]
  simp

theorem ones_perm_cons (hi : i < n) (hp : p i = true) (hq : q i = false) (hsame : ∀ j, j ≠ i → p j = q j) :
    (ones p n).Perm (i :: ones q n) := by
  have hnew : i ∉ ones q n := fun h => by
    rw [mem_ones, hq] at h
    exact nomatch h.2
  refine (perm_ext_iff_of_nodup ones_nodup (nodup_cons.mpr ⟨hnew, ones_nodup⟩)).mpr fun j => ?_
  rw [mem_cons, mem_ones, mem_ones]
  by_cases hj : j = i
  · subst hj
    exact iff_of_true ⟨hi, hp⟩ (.inl rfl)
  · rw [hsame j hj]
    exact ⟨.inr, fun h => h.resolve_left hj⟩

theorem ones_set (hi : i < n) (h : p i = false) : (ones (setBit p i true) n).Perm (i :: ones p n) :=
  ones_perm_cons hi (setBit_self ..) h fun _ hj => setBit_ne _ hj

theorem ones_clear (hi : i < n) (h : p i = true) : (ones p n).Perm (i :: ones (setBit p i false) n) :=
  ones_perm_cons hi h (setBit_self ..) fun _ hj => (setBit_ne _ hj).symm

end AmlogicV901d.Lib.Bitmap
