import Mathlib.Data.List.Nodup
import Mathlib.Data.List.Perm.Subperm

/-!
# Chains of parent pointers

A forest given by one pointer per element, from an element to the one above it.
`Chain up a l` says that the pointers lead from `a` through the elements of `l`,
nearest first, and end there. Where every element has a chain there is no cycle,
and linking a top below an element of another tree keeps it that way.
-/
namespace AmlogicV901d.Lib.ParentChain

open List

inductive Chain {α : Type} (up : α → Option α) : α → List α → Prop
  | top {a : α} (h : up a = none) : Chain up a []
  | above {a b : α} {l : List α} (h : up a = some b) (hl : Chain up b l) : Chain up a (b :: l)

variable {α : Type} {up up' : α → Option α} {a b x : α} {l m : List α}

section
variable (h : Chain up a l)
include h

theorem Chain.up_eq_head : up a = l.head? := by
  cases h with
  | top h | above h _ => exact h

theorem Chain.unique (h' : Chain up a m) : l = m := by
  induction h generalizing m with
  | top h =>
    cases h' with
    | top => rfl
    | above h' _ => exact absurd (h.symm.trans h') (by simp)
  | above h _ ih =>
    cases h' with
    | top h' => exact absurd (h'.symm.trans h) (by simp)
    | above h' hl' =>
      obtain rfl := Option.some.inj (h.symm.trans h')
      rw [ih hl']

theorem Chain.split (hb : b ∈ l) : ∃ front behind, l = front ++ b :: behind ∧ Chain up b behind := by
  induction h with
  | top => exact nomatch hb
  | @above a c l _ hl ih =>
    rcases mem_cons.mp hb with rfl | hb
    · exact ⟨[], l, rfl, hl⟩
    · obtain ⟨front, behind, rfl, hbehind⟩ := ih hb
      exact ⟨c :: front, behind, rfl, hbehind⟩

theorem Chain.not_mem : a ∉ l := by
  intro ha
  obtain ⟨front, behind, rfl, hbehind⟩ := h.split ha
  have hlength := congrArg List.length (h.unique hbehind)
  simp only [length_append, length_cons] at hlength
  omega

theorem Chain.nodup : (a :: l).Nodup := by
  induction h with
  | top => exact nodup_singleton _
  | above h hl ih => exact nodup_cons.mpr ⟨(Chain.above h hl).not_mem, ih⟩

theorem Chain.length_lt_of_mem (hb : b ∈ l) (hm : Chain up b m) : m.length < l.length := by
  obtain ⟨front, behind, rfl, hbehind⟩ := h.split hb
  rw [hm.unique hbehind]
  simp only [length_append, length_cons]
  omega

omit h in
theorem Chain.length_lt {up : Nat → Option Nat} {a n : Nat} {l : List Nat} (h : Chain up a l) (hbound : ∀ b ∈ a :: l, b < n) :
    l.length < n := by
  have hsub := subperm_of_subset h.nodup fun b hb => mem_range.mpr (hbound b hb)
  have hlength := hsub.length_le
  rw [length_range] at hlength
  exact hlength

theorem Chain.congr (hsame : ∀ b ∈ a :: l, up' b = up b) : Chain up' a l := by
  induction h with
  | top h => exact .top ((hsame _ mem_cons_self).trans h)
  | above h _ ih =>
    exact .above ((hsame _ mem_cons_self).trans h) (ih fun b hb => hsame b (.tail _ hb))

theorem Chain.top_unique {c : α} (hb : b ∈ a :: l) (hc : c ∈ a :: l) (hbtop : up b = none)
    (hctop : up c = none) : b = c := by
  induction h with
  | top => rw [mem_singleton.mp hb, mem_singleton.mp hc]
  | @above a d l h _ ih =>
    have hne : ∀ {x}, up x = none → x ≠ a := by
      rintro x hx rfl
      exact absurd (hx.symm.trans h) (by simp)
    exact ih ((mem_cons.mp hb).resolve_left (hne hbtop)) ((mem_cons.mp hc).resolve_left (hne hctop))

end

/-! ## Linking a top -/

section Link
variable (hframe : ∀ b ≠ a, up' b = up b)
include hframe

theorem Chain.link_frame (h : Chain up x l) (hx : a ∉ x :: l) : Chain up' x l :=
  h.congr fun b hb => hframe b fun heq => hx (heq ▸ hb)

theorem Chain.link (htop : up a = none) (hlink : up' a = some b) (hb : Chain up b m) (hmem : a ∉ b :: m) (h : Chain up x l)
    (hx : a ∈ x :: l) : Chain up' x (l ++ b :: m) := by
  induction h with
  | @top x _ =>
    obtain rfl := mem_singleton.mp hx
    exact .above hlink (hb.link_frame hframe hmem)
  | @above x c l h _ ih =>
    have hne : x ≠ a := by
      rintro rfl
      exact absurd (htop.symm.trans h) (by simp)
    exact .above ((hframe x hne).trans h) (ih ((mem_cons.mp hx).resolve_left (Ne.symm hne)))

end Link

end AmlogicV901d.Lib.ParentChain
