import Mathlib.Data.List.Basic
import Mathlib.Data.List.Find

/-!
# Tables in which a later record replaces an earlier one

`upsert` puts a record in the place of the first one with its key, or behind the table.
A table that is filled so from a list has every key once, in the order in which the list
first has it, with the last record that the list has for it.
-/
namespace AmlogicV901d.Lib.Upsert

open List

variable {α κ : Type} [DecidableEq κ] {key : α → κ} {all table : List α} {a r : α} {k : κ}

def upsert (key : α → κ) : List α → α → List α
  | [], a => [a]
  | b :: table, a => if key b = key a then a :: table else b :: upsert key table a

/-- Where the list has a key first. -/
def firstAt (key : α → κ) (all : List α) (k : κ) : Nat := all.findIdx fun a => key a = k

/-- What the table has of the list it was filled from. -/
structure Collected (key : α → κ) (all table : List α) : Prop where
  order : (table.map key).Pairwise fun j k => firstAt key all j < firstAt key all k
  keys : ∀ k, k ∈ table.map key ↔ k ∈ all.map key
  last : ∀ r ∈ table, all.reverse.find? (fun q => key q = key r) = some r

theorem upsert_of_mem (h : key a ∈ table.map key) : (upsert key table a).map key = table.map key := by
  induction table with
  | nil => simp at h
  | cons b table ih =>
    unfold upsert
    split
    · rename_i hb
      simp [hb]
    · rename_i hb
      rw [map_cons, mem_cons] at h
      simp [ih (h.resolve_left (Ne.symm hb))]

theorem upsert_of_notMem (h : key a ∉ table.map key) : upsert key table a = table ++ [a] := by
  induction table with
  | nil => rfl
  | cons b table ih =>
    rw [map_cons, mem_cons, not_or] at h
    rw [upsert, if_neg (Ne.symm h.1), ih h.2, cons_append]

theorem mem_upsert (hnodup : (table.map key).Nodup) (h : r ∈ upsert key table a) : r = a ∨ r ∈ table ∧ key r ≠ key a := by
  induction table with
  | nil => exact .inl (mem_singleton.mp h)
  | cons b table ih =>
    rw [map_cons, nodup_cons] at hnodup
    unfold upsert at h
    split at h
    · rename_i hb
      rcases mem_cons.mp h with rfl | hr
      · exact .inl rfl
      refine .inr ⟨mem_cons_of_mem b hr, ?_⟩
      intro heq
      apply hnodup.1
      rw [hb, ← heq]
      exact mem_map_of_mem hr
    · rename_i hb
      rcases mem_cons.mp h with rfl | hr
      · exact .inr ⟨.head _, hb⟩
      · rcases ih hnodup.2 hr with rfl | ⟨hmem, hne⟩
        · exact .inl rfl
        · exact .inr ⟨mem_cons_of_mem b hmem, hne⟩

theorem firstAt_eq (key : α → κ) (all : List α) (k : κ) : firstAt key all k = (all.map key).findIdx fun j => j = k := by
  rw [findIdx_map]
  rfl

theorem firstAt_lt (h : k ∈ all.map key) : firstAt key all k < all.length := by
  obtain ⟨b, hb, rfl⟩ := mem_map.mp h
  exact findIdx_lt_length_of_exists ⟨b, hb, by simp⟩

theorem firstAt_append_of_mem (h : k ∈ all.map key) : firstAt key (all ++ [a]) k = firstAt key all k := by
  have hlt := firstAt_lt h
  unfold firstAt at hlt ⊢
  rw [findIdx_append, if_pos hlt]

theorem firstAt_append_of_notMem (h : key a ∉ all.map key) : firstAt key (all ++ [a]) (key a) = all.length := by
  have hnone : all.findIdx (fun b => key b = key a) = all.length := by
    apply findIdx_eq_length_of_false
    intro b hb
    simp only [decide_eq_false_iff_not]
    intro heq
    exact h (heq ▸ mem_map_of_mem hb)
  unfold firstAt
  rw [findIdx_append, hnone]
  simp

theorem Collected.nodup (h : Collected key all table) : (table.map key).Nodup := by
  apply h.order.imp
  rintro j k hlt rfl
  exact Nat.lt_irrefl _ hlt

theorem Collected.nil : Collected key [] [] where
  order := List.Pairwise.nil
  keys _ := .rfl
  last _ hr := by simp at hr

section
variable (h : Collected key all table)
include h

theorem Collected.order_append (a : α) :
    (table.map key).Pairwise fun j k => firstAt key (all ++ [a]) j < firstAt key (all ++ [a]) k := by
  apply h.order.imp_of_mem
  intro j k hj hk hlt
  rw [firstAt_append_of_mem ((h.keys j).mp hj), firstAt_append_of_mem ((h.keys k).mp hk)]
  exact hlt

theorem Collected.last_append (hr : r = a ∨ r ∈ table ∧ key r ≠ key a) :
    (all ++ [a]).reverse.find? (fun q => key q = key r) = some r := by
  rw [reverse_append, reverse_singleton, singleton_append]
  rcases hr with rfl | ⟨hmem, hne⟩
  · simp
  · rw [find?_cons_of_neg (by simpa using Ne.symm hne)]
    exact h.last r hmem

theorem Collected.upsert (a : α) : Collected key (all ++ [a]) (upsert key table a) := by
  have hlast : ∀ r ∈ Upsert.upsert key table a, (all ++ [a]).reverse.find? (fun q => key q = key r) = some r :=
    fun r hr => h.last_append (mem_upsert h.nodup hr)
  by_cases hmem : key a ∈ table.map key
  · refine ⟨?_, ?_, hlast⟩
    · rw [upsert_of_mem hmem]
      exact h.order_append a
    · intro k
      rw [upsert_of_mem hmem, h.keys, map_append, mem_append]
      constructor
      · exact .inl
      · rintro (hk | hk)
        · exact hk
        · rw [map_singleton, mem_singleton] at hk
          rw [hk, ← h.keys]
          exact hmem
  · have hall : key a ∉ all.map key := by rwa [← h.keys]
    refine ⟨?_, ?_, hlast⟩
    · have hkeys : (table ++ [a]).map key = table.map key ++ [key a] := by simp
      rw [upsert_of_notMem hmem, hkeys, pairwise_append]
      refine ⟨h.order_append a, pairwise_singleton _ _, ?_⟩
      intro j hj k hk
      rw [mem_singleton] at hk
      have hj' := (h.keys j).mp hj
      rw [hk, firstAt_append_of_mem hj', firstAt_append_of_notMem hall]
      exact firstAt_lt hj'
    · intro k
      rw [upsert_of_notMem hmem, map_append, map_append, mem_append, mem_append, h.keys]

theorem Collected.subset (hr : r ∈ table) : r ∈ all :=
  mem_reverse.mp (mem_of_find?_eq_some (h.last r hr))

theorem Collected.congr {key' : α → κ} (hkey : ∀ a ∈ all, key a = key' a) : Collected key' all table := by
  have hall : all.map key = all.map key' := map_congr_left hkey
  have htable : table.map key = table.map key' := map_congr_left fun r hr => hkey r (h.subset hr)
  have hfirst : ∀ k, firstAt key' all k = firstAt key all k := by
    intro k
    rw [firstAt_eq, firstAt_eq, hall]
  refine ⟨?_, ?_, ?_⟩
  · simp only [← htable, hfirst]
    exact h.order
  · intro k
    rw [← htable, ← hall]
    exact h.keys k
  · intro r hr
    rw [← h.last r hr]
    apply find?_congr
    intro q hq
    rw [hkey q (mem_reverse.mp hq), hkey r (h.subset hr)]

theorem Collected.foldl (l : List α) : Collected key (all ++ l) (l.foldl (Upsert.upsert key) table) := by
  induction l generalizing all table with
  | nil => rwa [append_nil, foldl_nil]
  | cons a l ih =>
    have hnext := ih (h.upsert a)
    rwa [append_assoc, singleton_append] at hnext

end

end AmlogicV901d.Lib.Upsert
