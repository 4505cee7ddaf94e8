import AmlogicV901d.Guarantees.VmapStacks

/-!
# Slots of the stacks that are mapped on demand

`aml_stack_alloc` moves `start_bit` behind the slot it finds. Where there is no page for the stack it
clears the bit of the slot, but `start_bit` stays: the slot is not looked at again until one that is not
above it is freed.
-/
namespace AmlogicV901d.Guarantees.StackSlots
open Lib.Runs Source.VmapStack Function
open VmapStacks hiding Kept

variable {c : Config} {s : Sys} {no n i : Nat}

inductive Call where
  | alloc (t : Nat) (page tables kmalloc : Bool)
  | free (t : Nat)

def call (c : Config) (s : Sys) : Call → Sys
  | .alloc t page tables kmalloc => amlStackAlloc c t page tables kmalloc s
  | .free t => amlStackFree c t s

/-- Every slot of the area below this one is in use. -/
def UsedBelow (c : Config) (s : Sys) (n : Nat) : Prop := ∀ no < n, no < c.maxTasks → s.bitmap no = true

/-- No slot is found. -/
def FallsBack (c : Config) (s : Sys) : Call → Prop
  | .alloc .. => c.maxTasks ≤ freeSlot c s
  | .free _ => False

/-- What is asked of a call. -/
def Kept (c : Config) (s : Sys) (cl : Call) : Prop :=
  (FallsBack c s cl → UsedBelow c s c.maxTasks) ∧ UsedBelow c (call c s cl) (call c s cl).startBit

/-- There is a page for a slot that is found. -/
def Paged (c : Config) (s : Sys) : Call → Prop
  | .alloc _ page _ _ => freeSlot c s < c.maxTasks → page = true
  | .free _ => True

theorem findZeroBit_used {bitmap : Nat → Bool} {size : Nat} (hlow : i ≤ no) (hno : no < findZeroBit bitmap size n i)
    (hin : no < i + n) : bitmap no = true := by
  fun_induction findZeroBit bitmap size n i with
  | case1 => omega
  | case2 n i hset ih =>
    rcases Nat.eq_or_lt_of_le hlow with rfl | hlow
    · exact hset
    · exact ih hlow hno (by omega)
  | case3 => omega

theorem used_below_freeSlot (h : UsedBelow c s s.startBit) : UsedBelow c s (freeSlot c s) := by
  intro no hno hin
  by_cases hlow : no < s.startBit
  · exact h no hlow hin
  · exact findZeroBit_used (Nat.not_lt.mp hlow) hno (by omega)

theorem freePages_startBit : (freePages c no n s).startBit = s.startBit := by
  fun_induction freePages c no n s with
  | case1 | case2 => rfl
  | case3 _ _ _ _ ih =>
    rw [ih, updateVmapStack, putPage]
    split <;> rfl

theorem free_used {t : Nat} (h : UsedBelow c s s.startBit) : UsedBelow c (amlStackFree c t s) (amlStackFree c t s).startBit := by
  fun_cases amlStackFree c t s with
  | case1 | case2 => exact h
  | case3 no _ freed =>
    intro b hb hin
    dsimp only at hb ⊢
    rw [freePages_startBit] at hb
    have hother : b ≠ no ∧ b < s.startBit := by
      split at hb <;> omega
    rw [update_of_ne hother.1, (freePages_walked c no c.stackPages s).bitmap]
    exact h b hother.2 hin

theorem call_used_iff (h : UsedBelow c s s.startBit) (cl : Call) :
    UsedBelow c (call c s cl) (call c s cl).startBit ↔ Paged c s cl := by
  have hslot := used_below_freeSlot h
  cases cl with
  | free t => exact iff_of_true (free_used h) trivial
  | alloc t page tables kmalloc =>
    by_cases hfound : freeSlot c s < c.maxTasks
    · cases page with
      | false =>
        rw [call, alloc_noPage hfound]
        refine iff_of_false (fun hused => ?_) fun hpaged => nomatch hpaged hfound
        exact nomatch (freeSlot_clear hfound).symm.trans (hused _ (Nat.lt_succ_self _) hfound)
      | true =>
        have halloc : (call c s (.alloc t true tables kmalloc)).startBit = freeSlot c s + 1 ∧
            (call c s (.alloc t true tables kmalloc)).bitmap = update s.bitmap (freeSlot c s) true := by
          rw [call, amlStackAlloc, if_neg (show ¬ findNextZeroBit .. ≥ _ from Nat.not_le_of_lt hfound), if_pos rfl]
          cases tables <;> exact ⟨rfl, rfl⟩
        refine iff_of_true (fun no hno hin => ?_) fun _ => rfl
        rw [halloc.1] at hno
        rw [halloc.2]
        by_cases hnew : no = freeSlot c s
        · rw [hnew, update_self]
        · rw [update_of_ne hnew]
          exact hslot no (by omega) hin
    · rw [call, alloc_full hfound]
      refine iff_of_true (fun no hno hin => hslot no (by omega) hin) fun hin => absurd hin hfound

theorem kept_iff (h : UsedBelow c s s.startBit) (cl : Call) : Kept c s cl ↔ Paged c s cl := by
  rw [Kept, call_used_iff h]
  refine and_iff_right fun hback no hno => ?_
  cases cl with
  | free => exact hback.elim
  | alloc => exact used_below_freeSlot h no (Nat.lt_of_lt_of_le hno hback)

/-- The search passes no slot that is not in use exactly if there is a page for every slot that is found. -/
theorem slots_used_iff (c : Config) (calls : List Call) :
    Along (call c) (Kept c) (initial c) calls ↔ Along (call c) (Paged c) (initial c) calls := by
  refine along_iff (I := fun s => UsedBelow c s s.startBit) (fun s cl h _ => ⟨kept_iff h cl, (call_used_iff h cl).mpr⟩) ?_
    (along_of_forall fun _ _ => trivial)
  exact fun _ hno => absurd hno (Nat.not_lt_zero _)

/-- The first call has no page. Its slot stays below `start_bit`; in an area of one slot the next call finds none. -/
theorem slot_lost : (call arm64Config (initial arm64Config) (.alloc 7 false true false)).startBit = 1 ∧
    (call arm64Config (initial arm64Config) (.alloc 7 false true false)).bitmap 0 = false ∧
    (([.alloc 7 false true false, .alloc 8 true true true].foldl (call { arm64Config with maxTasks := 1 })
      (initial { arm64Config with maxTasks := 1 })).stack 8 = some .linear) := by
  decide

end AmlogicV901d.Guarantees.StackSlots
