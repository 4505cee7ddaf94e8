import Mathlib.Logic.Function.Basic
import Mathlib.Tactic.SplitIfs

/-!
# Rings with a read and a write position

A ring of `size` places has room for `size - 1` elements: it is empty where both positions
are the same. Pushing does not look for room. While there is room the ring is a queue; the
push that takes the last place makes it empty.
-/
namespace AmlogicV901d.Lib.RingQueue

open List

/-- The place behind `i`. -/
def next (size i : Nat) : Nat := if i = size - 1 then 0 else i + 1

theorem next_lt {size i : Nat} (h : i < size) : next size i < size := by
  unfold next
  split <;> omega

structure RingQ (α : Type) (size : Nat) where
  rp : Nat
  wp : Nat
  pool : Nat → α
  rp_lt : rp < size
  wp_lt : wp < size

variable {α : Type} {size : Nat}

namespace RingQ

/-- Both positions at the start; what is in the places stays. -/
def init (r : RingQ α size) : RingQ α size := ⟨0, 0, r.pool, Nat.zero_lt_of_lt r.rp_lt, Nat.zero_lt_of_lt r.rp_lt⟩

def isEmpty (r : RingQ α size) : Bool := r.rp = r.wp

def isFull (r : RingQ α size) : Bool := (r.wp + 1) % size = r.rp

def level (r : RingQ α size) : Nat := if r.rp ≤ r.wp then r.wp - r.rp else r.wp + size - r.rp

def push (r : RingQ α size) (a : α) : RingQ α size :=
  { r with wp := next size r.wp, pool := Function.update r.pool r.wp a, wp_lt := next_lt r.wp_lt }

def peek (r : RingQ α size) : Option α := if r.isEmpty then none else some (r.pool r.rp)

/-- The ring without its oldest element. -/
def drop (r : RingQ α size) : RingQ α size :=
  if r.isEmpty then r else { r with rp := next size r.rp, rp_lt := next_lt r.rp_lt }

/-- The elements, oldest first. -/
def contents (r : RingQ α size) : List α := (List.range r.level).map fun i => r.pool ((r.rp + i) % size)

section
variable (r : RingQ α size)
include r

theorem level_lt : r.level < size := by
  have hwp := r.wp_lt
  unfold level
  split <;> omega

@[simp] theorem contents_length : r.contents.length = r.level := by simp [contents]

@[simp] theorem contents_init : r.init.contents = [] := by simp [contents, level, init]

theorem level_push (a : α) : (r.push a).level = if r.level + 1 = size then 0 else r.level + 1 := by
  have hrp := r.rp_lt
  have hwp := r.wp_lt
  simp only [level, push, next]
  split_ifs <;> omega

theorem rp_add_level : (r.rp + r.level) % size = r.wp := by
  have hrp := r.rp_lt
  have hwp := r.wp_lt
  unfold level
  split
  · have hsum : r.rp + (r.wp - r.rp) = r.wp := by omega
    rw [hsum, Nat.mod_eq_of_lt hwp]
  · have hsum : r.rp + (r.wp + size - r.rp) = r.wp + size := by omega
    rw [hsum, Nat.add_mod_right, Nat.mod_eq_of_lt hwp]

theorem place_ne_wp {i : Nat} (h : i < r.level) : (r.rp + i) % size ≠ r.wp := by
  have hwp := r.wp_lt
  unfold level at h
  rcases Nat.lt_or_ge (r.rp + i) size with hlt | hge
  · rw [Nat.mod_eq_of_lt hlt]
    split at h <;> omega
  have hmod : (r.rp + i) % size = r.rp + i - size := by
    rw [Nat.mod_eq_sub_mod hge, Nat.mod_eq_of_lt]
    split at h <;> omega
  split at h <;> omega

theorem contents_push (a : α) (h : r.level + 1 < size) : (r.push a).contents = r.contents ++ [a] := by
  have hlevel : (r.push a).level = r.level + 1 := by
    rw [level_push, if_neg (by omega)]
  unfold contents
  rw [hlevel, range_succ, map_append, map_singleton]
  congr 1
  · apply map_congr_left
    intro i hi
    simp only [push]
    rw [Function.update_of_ne (r.place_ne_wp (mem_range.mp hi))]
  · have hwp : ((r.push a).rp + r.level) % size = r.wp := r.rp_add_level
    rw [hwp]
    simp [push]

theorem contents_push_full (a : α) (h : r.level + 1 = size) : (r.push a).contents = [] := by
  rw [← length_eq_zero_iff, contents_length, level_push, if_pos h]

end

theorem mem_contents_push {r : RingQ α size} {a b : α} (h : b ∈ (r.push a).contents) : b ∈ r.contents ∨ b = a := by
  have hlt := r.level_lt
  rcases Nat.lt_or_ge (r.level + 1) size with hroom | hfull
  · rw [contents_push r a hroom, mem_append, mem_singleton] at h
    exact h
  · rw [contents_push_full r a (by omega)] at h
    exact nomatch h

section
variable (r : RingQ α size)
include r

theorem isEmpty_iff : r.isEmpty = true ↔ r.contents = [] := by
  have hrp := r.rp_lt
  rw [← length_eq_zero_iff, contents_length]
  simp only [isEmpty, level, decide_eq_true_eq]
  split <;> omega

theorem isFull_iff : r.isFull = true ↔ r.level + 1 = size := by
  have hrp := r.rp_lt
  have hwp := r.wp_lt
  simp only [isFull, level, decide_eq_true_eq]
  rcases Nat.lt_or_ge (r.wp + 1) size with hlt | hge
  · rw [Nat.mod_eq_of_lt hlt]
    split <;> omega
  · have hsize : r.wp + 1 = size := by omega
    rw [hsize, Nat.mod_self]
    split <;> omega

theorem peek_eq : r.peek = r.contents.head? := by
  unfold peek
  split
  · rename_i h
    rw [r.isEmpty_iff.mp h, head?_nil]
  rename_i h
  have hlevel : r.level ≠ 0 := by
    intro hzero
    apply h
    rw [isEmpty_iff, ← length_eq_zero_iff, contents_length, hzero]
  obtain ⟨n, hn⟩ := Nat.exists_eq_succ_of_ne_zero hlevel
  simp [contents, hn, range_succ_eq_map, Nat.mod_eq_of_lt r.rp_lt]

theorem contents_drop : r.drop.contents = r.contents.tail := by
  have hrp := r.rp_lt
  have hwp := r.wp_lt
  by_cases h : r.isEmpty
  · rw [drop, if_pos h, r.isEmpty_iff.mp h, tail_nil]
  have hne : r.rp ≠ r.wp := by simpa [isEmpty] using h
  rw [drop, if_neg h]
  unfold contents
  have hlevel : r.level = level (⟨next size r.rp, r.wp, r.pool, next_lt r.rp_lt, r.wp_lt⟩ : RingQ α size) + 1 := by
    simp only [level, next]
    split_ifs <;> omega
  rw [hlevel, range_succ_eq_map, map_cons, tail_cons, map_map]
  apply map_congr_left
  intro i _
  simp only [Function.comp, next]
  congr 1
  split
  · rename_i hlast
    have hsum : r.rp + (i + 1) = i + size := by omega
    rw [Nat.succ_eq_add_one, hsum, Nat.add_mod_right, Nat.zero_add]
  · congr 1
    omega

theorem contents_of_peek {a : α} (h : r.peek = some a) : r.contents = a :: r.drop.contents := by
  obtain ⟨rest, hrest⟩ := head?_eq_some_iff.mp (r.peek_eq ▸ h)
  rw [contents_drop, hrest, tail_cons]

/-- The ring while elements are pushed, whether or not there is room for them. -/
def pushAll (r : RingQ α size) (l : List α) : RingQ α size := l.foldl push r

theorem contents_pushAll (l : List α) (h : r.level + l.length < size) : (r.pushAll l).contents = r.contents ++ l := by
  induction l generalizing r with
  | nil => simp [pushAll]
  | cons a l ih =>
    rw [length_cons] at h
    have hpush := r.contents_push a (by omega)
    have hlevel : (r.push a).level = r.level + 1 := by
      rw [level_push, if_neg (by omega)]
    have hrest := ih (r.push a) (by omega)
    rw [hpush, append_assoc, singleton_append] at hrest
    exact hrest

theorem level_pushAll (l : List α) : (r.pushAll l).level = (r.level + l.length) % size := by
  induction l generalizing r with
  | nil => simp [pushAll, Nat.mod_eq_of_lt r.level_lt]
  | cons a l ih =>
    have hrest := ih (r.push a)
    rw [level_push] at hrest
    simp only [pushAll, foldl_cons, length_cons] at hrest ⊢
    rw [hrest]
    split
    · rename_i hfull
      have hsum : r.level + (l.length + 1) = l.length + size := by omega
      rw [hsum, Nat.add_mod_right, Nat.zero_add]
    · congr 1
      omega

end

end RingQ

end AmlogicV901d.Lib.RingQueue
