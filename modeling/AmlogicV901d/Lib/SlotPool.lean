import Mathlib.Data.List.Nodup
import Mathlib.Data.Nat.ModEq

/-!
# Slots

A pool of `n` slots in which `0` is a free slot. `occupied` are the values in it, in the order of
the slots; `ring` are the values of a part of it that begins at some slot and may go on at the
first one.
-/
namespace AmlogicV901d.Lib.SlotPool

open List

variable {pool : Nat → Nat} {n i v : Nat}

def setSlot (pool : Nat → Nat) (i v : Nat) : Nat → Nat := fun j => if j = i then v else pool j

def occupied (pool : Nat → Nat) (n : Nat) : List Nat := ((List.range n).map pool).filter (· ≠ 0)

def ring (pool : Nat → Nat) (n out num : Nat) : List Nat := (List.range num).map fun k => pool ((out + k) % n)

@[simp] theorem setSlot_self : setSlot pool i v i = v := if_pos rfl

theorem setSlot_ne {j : Nat} (h : j ≠ i) : setSlot pool i v j = pool j := if_neg h

/-! ## Values -/

theorem mem_occupied : v ∈ occupied pool n ↔ v ≠ 0 ∧ ∃ i, i < n ∧ pool i = v := by
  simp only [occupied, mem_filter, mem_map, mem_range, decide_eq_true_eq]
  exact and_comm

theorem occupied_free : occupied (fun _ => 0) n = [] := by
  refine eq_nil_iff_forall_not_mem.mpr fun v hv => ?_
  obtain ⟨hne, i, _, hzero⟩ := mem_occupied.mp hv
  exact hne hzero.symm

theorem occupied_perm {other : Nat → Nat} (hi : i < n) (hv : pool i = v) (hne : v ≠ 0) (hfree : other i = 0)
    (hsame : ∀ j, j ≠ i → pool j = other j) : (occupied pool n).Perm (v :: occupied other n) := by
  have hperm : (List.range n).Perm (i :: (List.range n).erase i) := perm_cons_erase (mem_range.mpr hi)
  have hrest : ∀ j ∈ (List.range n).erase i, pool j = other j := fun j hj =>
    hsame j ((nodup_range.mem_erase_iff.mp hj).1)
  have hpool := (hperm.map pool).filter (· ≠ 0)
  have hother := (hperm.map other).filter (· ≠ 0)
  rw [map_cons, filter_cons_of_pos (by simpa [hv] using hne), hv, map_congr_left hrest] at hpool
  rw [map_cons, filter_cons_of_neg (by simp [hfree])] at hother
  exact hpool.trans (hother.symm.cons v)

theorem occupied_set (hi : i < n) (hfree : pool i = 0) (hne : v ≠ 0) :
    (occupied (setSlot pool i v) n).Perm (v :: occupied pool n) :=
  occupied_perm hi setSlot_self hne hfree fun _ hj => setSlot_ne hj

theorem occupied_clear (hi : i < n) (hv : pool i = v) (hne : v ≠ 0) :
    (occupied pool n).Perm (v :: occupied (setSlot pool i 0) n) :=
  occupied_perm hi hv hne setSlot_self fun _ hj => (setSlot_ne hj).symm

theorem slot_unique {j : Nat} (hnodup : (occupied pool n).Nodup) (hi : i < n) (hj : j < n) (hne : pool i ≠ 0)
    (hsame : pool i = pool j) : i = j := by
  by_contra hij
  have hperm := occupied_clear hi rfl hne
  have hmem : pool i ∈ occupied (setSlot pool i 0) n :=
    mem_occupied.mpr ⟨hne, j, hj, (setSlot_ne (.symm hij)).trans hsame.symm⟩
  exact (nodup_cons.mp (hperm.nodup_iff.mp hnodup)).1 hmem

/-! ## Rings -/

section Ring
variable {out num : Nat}

theorem mod_add_ne {k l : Nat} (hk : k < n) (hl : l < n) (hkl : k ≠ l) : (out + k) % n ≠ (out + l) % n := by
  intro h
  have hmod : Nat.ModEq n k l := Nat.ModEq.add_left_cancel' out h
  exact hkl (hmod.eq_of_lt_of_lt hk hl)

theorem ring_push (hnum : num < n) :
    ring (setSlot pool ((out + num) % n) v) n out (num + 1) = ring pool n out num ++ [v] := by
  rw [ring, range_succ, map_append, map_singleton, setSlot_self, ring]
  congr 1
  refine map_congr_left fun k hk => setSlot_ne (mod_add_ne ?_ hnum ?_)
  · exact Nat.lt_trans (mem_range.mp hk) hnum
  · exact Nat.ne_of_lt (mem_range.mp hk)

theorem ring_pop (hnum : num < n) (hout : out < n) :
    ring pool n out (num + 1) = pool out :: ring (setSlot pool out 0) n ((out + 1) % n) num := by
  rw [ring, range_succ_eq_map, map_cons, map_map, ring, Nat.add_zero, Nat.mod_eq_of_lt hout]
  congr 1
  refine map_congr_left fun k hk => ?_
  have hk := mem_range.mp hk
  have hzero : (out + 0) % n = out := Nat.mod_eq_of_lt hout
  have hne : (out + (k + 1)) % n ≠ out := fun h =>
    mod_add_ne (by omega) (by omega) (by omega) (h.trans hzero.symm)
  show pool ((out + (k + 1)) % n) = setSlot pool out 0 (((out + 1) % n + k) % n)
  rw [Nat.mod_add_mod, Nat.add_assoc, Nat.add_comm 1 k, setSlot_ne hne]

theorem ring_next_free (hall : (ring pool n out num).Perm (occupied pool n)) (hnodup : (occupied pool n).Nodup)
    (hnum : num < n) : pool ((out + num) % n) = 0 := by
  by_contra hne
  have hn : 0 < n := by omega
  have hmem : pool ((out + num) % n) ∈ ring pool n out num :=
    hall.mem_iff.mpr (mem_occupied.mpr ⟨hne, _, Nat.mod_lt _ hn, rfl⟩)
  obtain ⟨k, hk, hsame⟩ := mem_map.mp hmem
  have hk := mem_range.mp hk
  exact mod_add_ne (Nat.lt_trans hk hnum) hnum (Nat.ne_of_lt hk)
    (slot_unique hnodup (Nat.mod_lt _ hn) (Nat.mod_lt _ hn) (hsame.trans_ne hne) hsame)

end Ring

end AmlogicV901d.Lib.SlotPool
