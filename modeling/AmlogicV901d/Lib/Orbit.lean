import Mathlib.Data.Fintype.Pigeonhole

/-!
# Following a partial function

The positions that a partial function leads to from a starting point. On a finite type the
walk comes to an end exactly if it visits no position twice.
-/
namespace AmlogicV901d.Lib.Orbit

variable {α : Type} {step : α → Option α} {a x : α}

/-- The position after `k` steps, if the walk gets that far. -/
def visit (step : α → Option α) (a : α) : Nat → Option α
  | 0 => some a
  | k + 1 => (visit step a k).bind step

/-- No position is visited twice. -/
def NoReturn (step : α → Option α) (a : α) : Prop := ∀ k l x, visit step a k = some x → visit step a l = some x → k = l

theorem visit_none_of_le {k l : Nat} (hk : visit step a k = none) (hle : k ≤ l) : visit step a l = none := by
  induction l, hle using Nat.le_induction with
  | base => exact hk
  | succ l _ ih => rw [visit, ih, Option.bind_none]

theorem visit_step {k : Nat} (hk : visit step a k = some x) (m : Nat) : visit step a (k + m) = visit step x m := by
  induction m with
  | zero => exact hk
  | succ m ih => rw [← Nat.add_assoc, visit, visit, ih]

theorem visit_succ (k : Nat) : visit step a (k + 1) = (step a).bind fun b => visit step b k := by
  cases hstep : step a with
  | none => exact visit_none_of_le (k := 1) (by rw [visit, visit, Option.bind_some, hstep]) (by omega)
  | some b =>
    have hone : visit step a 1 = some b := by rw [visit, visit, Option.bind_some, hstep]
    rw [Nat.add_comm, visit_step hone, Option.bind_some]

/-- A walk that comes back goes on for ever. -/
theorem noReturn_of_ends {n : Nat} (hn : visit step a n = none) : NoReturn step a := by
  have hlt : ∀ k l x, k < l → visit step a k = some x → visit step a l ≠ some x := by
    intro k l x hkl hk hl
    -- the same steps lead from `x` to `x` over and over
    have hloop : ∀ m, visit step a (k + m * (l - k)) = some x := by
      intro m
      induction m with
      | zero => simpa using hk
      | succ m ih =>
        have hback : visit step x (l - k) = some x := by
          rw [← visit_step hk, Nat.add_sub_cancel' (Nat.le_of_lt hkl)]
          exact hl
        rw [Nat.succ_mul, ← Nat.add_assoc, visit_step ih, hback]
    have hfar : n ≤ k + n * (l - k) := by
      have hpos : 1 ≤ l - k := by omega
      have hmul : n * 1 ≤ n * (l - k) := Nat.mul_le_mul_left n hpos
      omega
    have hnone := visit_none_of_le hn hfar
    rw [hloop n] at hnone
    cases hnone
  intro k l x hk hl
  rcases Nat.lt_trichotomy k l with hkl | hkl | hkl
  · exact absurd hl (hlt k l x hkl hk)
  · exact hkl
  · exact absurd hk (hlt l k x hkl hl)

theorem ends_of_noReturn [Finite α] (hno : NoReturn step a) : ∃ n, visit step a n = none := by
  by_contra hnever
  have hsome : ∀ n, ∃ x, visit step a n = some x := fun n =>
    Option.ne_none_iff_exists'.mp fun hn => hnever ⟨n, hn⟩
  obtain ⟨f, hf⟩ := Classical.axiomOfChoice hsome
  obtain ⟨k, l, hne, heq⟩ := Finite.exists_ne_map_eq_of_infinite f
  exact hne (hno k l (f k) (hf k) (by rw [hf l, heq]))

theorem ends_iff [Finite α] : (∃ n, visit step a n = none) ↔ NoReturn step a :=
  ⟨fun ⟨_, hn⟩ => noReturn_of_ends hn, ends_of_noReturn⟩

end AmlogicV901d.Lib.Orbit
