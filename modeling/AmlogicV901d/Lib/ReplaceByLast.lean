/-!
# Removing from an array by the last entry

An entry is removed from an array by putting the last entry in its place. Where every
entry equal to the removed one is overwritten, this removes exactly one of them if the
last entry is itself such an entry, or if there is only one.
-/
namespace AmlogicV901d.Lib.ReplaceByLast

open List

variable {α : Type} [BEq α] [LawfulBEq α]

/-- Every entry equal to `x` gets the last entry. -/
def replaceByLast (init : List α) (last x : α) : List α := init.map fun o => if o == x then last else o

theorem replaceByLast_of_not_mem {init : List α} {last x : α} (h : x ∉ init) : replaceByLast init last x = init := by
  refine (map_congr_left fun o ho => ?_).trans (map_id' init)
  exact if_neg fun (heq : (o == x) = true) => h (eq_of_beq heq ▸ ho)

theorem replaceByLast_self (init : List α) (x : α) : replaceByLast init x x = init := by
  refine (map_congr_left fun o _ => ?_).trans (map_id' init)
  split
  next heq => exact (eq_of_beq heq).symm
  next => rfl

theorem replaceByLast_of_single {init : List α} (last : α) {x : α} (h : init.count x = 1) :
    (replaceByLast init last x).Perm (init.erase x ++ [last]) := by
  induction init with
  | nil => simp at h
  | cons a rest ih =>
    cases heq : a == x with
    | true =>
      obtain rfl := eq_of_beq heq
      rw [count_cons_self] at h
      have hrest : a ∉ rest := count_eq_zero.mp (by omega)
      have hcons : replaceByLast (a :: rest) last a = last :: rest := by
        rw [replaceByLast, map_cons, if_pos heq]
        exact congrArg (last :: ·) (replaceByLast_of_not_mem hrest)
      rw [hcons, erase_cons_head]
      exact (perm_append_singleton last rest).symm
    | false =>
      rw [count_cons_of_ne (ne_of_beq_false heq)] at h
      rw [replaceByLast, map_cons, heq, erase_cons_tail (by simp [heq])]
      exact (ih h).cons a

theorem replaceByLast_perm {init : List α} {last x : α} (h : last = x ∨ (init ++ [last]).count x = 1) :
    (replaceByLast init last x).Perm ((init ++ [last]).erase x) := by
  cases heq : last == x with
  | true =>
    obtain rfl := eq_of_beq heq
    rw [replaceByLast_self]
    have hswap := (perm_append_singleton last init).erase last
    rw [erase_cons_head] at hswap
    exact hswap.symm
  | false =>
    have hcount := h.resolve_left (ne_of_beq_false heq)
    rw [count_append, count_singleton, heq] at hcount
    have hmem : x ∈ init := count_pos_iff.mp (Nat.lt_of_lt_of_eq Nat.zero_lt_one hcount.symm)
    rw [erase_append_left _ hmem]
    exact replaceByLast_of_single last hcount

theorem not_mem_replaceByLast {init : List α} {last x : α} (h : last ≠ x) : x ∉ replaceByLast init last x := by
  intro hmem
  obtain ⟨o, _, ho⟩ := mem_map.mp hmem
  split at ho
  next => exact h ho
  next hne => exact hne (beq_iff_eq.mpr ho)

end AmlogicV901d.Lib.ReplaceByLast
