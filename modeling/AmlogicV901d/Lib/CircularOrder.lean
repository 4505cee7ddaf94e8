import Mathlib.Data.List.Nodup

/-!
# Circular order of 32-bit words

Words as positions on a circle: `a` is before `b` if it takes less than half of the circle to go
on from `a` to `b`. Within half of the circle this is a strict order, and a sorted list has a
last element up to a given word and a first one after it.
-/
namespace AmlogicV901d.Lib.CircularOrder

open List

/-- How far it is from `a` on to `b`. -/
def dist (a b : UInt32) : Nat := (b - a).toNat

def Before (a b : UInt32) : Prop := 0 < dist a b ∧ dist a b < 2147483648

/-- `a` is not after `b`. -/
def UpTo (a b : UInt32) : Prop := dist a b < 2147483648

instance (a b : UInt32) : Decidable (Before a b) := inferInstanceAs (Decidable (_ ∧ _))

instance (a b : UInt32) : Decidable (UpTo a b) := inferInstanceAs (Decidable (_ < _))

section Words
variable {a b c x y : UInt32}

theorem dist_lt (a b : UInt32) : dist a b < 4294967296 := UInt32.toNat_lt _

theorem dist_eq (a b : UInt32) : dist a b = (4294967296 - a.toNat + b.toNat) % 4294967296 := UInt32.toNat_sub b a

theorem dist_add (a b c : UInt32) : dist a c = (dist a b + dist b c) % 4294967296 := by
  have hb : b.toNat < 4294967296 := b.toNat_lt
  rw [dist_eq a c, dist_eq a b, dist_eq b c]
  omega

theorem dist_self (a : UInt32) : dist a a = 0 := by
  have ha : a.toNat < 4294967296 := a.toNat_lt
  rw [dist_eq]
  omega

theorem dist_zero (h : dist a b = 0) : a = b := by
  have ha : a.toNat < 4294967296 := a.toNat_lt
  have hb : b.toNat < 4294967296 := b.toNat_lt
  rw [dist_eq] at h
  exact UInt32.toNat_inj.mp (by omega)

theorem dist_comm (a b : UInt32) : (dist a b + dist b a) % 4294967296 = 0 := by
  rw [← dist_add, dist_self]

theorem Before.upTo (h : Before a b) : UpTo a b := h.2

theorem Before.not_upTo (h : Before a b) : ¬ UpTo b a := by
  have hback := dist_comm a b
  intro hup
  rw [Before] at h
  rw [UpTo] at hup
  omega

theorem UpTo.antisymm (h : UpTo a b) (h' : UpTo b a) : a = b := by
  have hback := dist_comm a b
  rw [UpTo] at h h'
  exact dist_zero (by omega)

theorem not_upTo_of_passed (hax : UpTo a x) (hab : Before a b) (hbx : ¬ UpTo b x) (hac : Before a c) (hbc : Before b c) : ¬ UpTo c x := by
  have h1 := dist_add a b x
  have h2 := dist_add a b c
  have h3 := dist_add a c x
  have h4 := dist_lt b x
  rw [UpTo] at hax hbx ⊢
  rw [Before] at hab hac hbc
  omega

theorem not_after_of_passed (hbx : UpTo b x) (hcx : ¬ UpTo c x) (hab : Before a b) (hac : Before a c) (hbc : Before b c) : ¬ Before x a := by
  have h1 := dist_add b c x
  have h2 := dist_add a b c
  have h3 := dist_add x a b
  have h4 := dist_comm b x
  have h6 := dist_lt c x
  rw [UpTo] at hbx hcx
  rw [Before] at hab hac hbc ⊢
  omega

theorem toInt_sub (x y : UInt32) : (x - y).toInt32.toInt = if UpTo y x then (dist y x : Int) else dist y x - 4294967296 := by
  have hcond := BitVec.toInt_eq_toNat_cond (x - y).toBitVec
  have hint : (x - y).toInt32.toInt = (x - y).toBitVec.toInt := rfl
  have hnat : dist y x = (x - y).toBitVec.toNat := rfl
  rw [hint, hcond]
  by_cases hup : UpTo y x
  · rw [if_pos hup, if_pos (by rw [UpTo] at hup; omega), hnat]
  · rw [if_neg hup, if_neg (by rw [UpTo] at hup; omega), hnat]
    rfl

theorem sub_toInt32_nonneg : 0 ≤ (x - y).toInt32 ↔ UpTo y x := by
  have hlt := dist_lt y x
  rw [Int32.le_iff_toInt_le, toInt_sub]
  show (0 : Int) ≤ _ ↔ _
  by_cases hup : UpTo y x
  · rw [if_pos hup]
    exact iff_of_true (Int.natCast_nonneg _) hup
  · rw [if_neg hup]
    exact iff_of_false (by omega) hup

theorem sub_toInt32_pos : 0 < (x - y).toInt32 ↔ Before y x := by
  have hlt := dist_lt y x
  rw [Int32.lt_iff_toInt_lt, toInt_sub]
  show (0 : Int) < _ ↔ _
  by_cases hup : UpTo y x
  · rw [if_pos hup, Int.natCast_pos]
    exact (and_iff_left hup).symm
  · rw [if_neg hup]
    exact iff_of_false (by omega) fun h => hup h.upTo

theorem upTo_of_not_before (hhalf : x - y ≠ 0x80000000) (h : ¬ Before x y) : UpTo y x := by
  have hback := dist_comm x y
  have hlt := dist_lt x y
  have hlt' := dist_lt y x
  have hne : dist y x ≠ 2147483648 := fun heq => hhalf (UInt32.toNat_inj.mp heq)
  rw [Before] at h
  rw [UpTo]
  omega

end Words

/-! ## Sorted lists -/

section Lists
variable {α : Type} (key : α → UInt32)

def Sorted (l : List α) : Prop := l.Pairwise fun a b => Before (key a) (key b)

/-- The last element that is not after `x`. -/
structure IsFloor (l : List α) (x : UInt32) (r : α) : Prop where
  mem : r ∈ l
  upTo : UpTo (key r) x
  largest : ∀ q ∈ l, UpTo (key q) x → UpTo (key q) (key r)

/-- The first element that is after `x`. -/
structure IsNext (l : List α) (x : UInt32) (r : α) : Prop where
  mem : r ∈ l
  after : Before x (key r)
  first : ∀ q ∈ l, Before x (key q) → UpTo (key r) (key q)

variable {key} {l before after : List α} {x : UInt32} {r n : α}

theorem Sorted.eq_of_key (h : Sorted key l) {p q : α} (hp : p ∈ l) (hq : q ∈ l) (heq : key p = key q) : p = q := by
  have hnodup : (l.map key).Nodup := by
    refine pairwise_map.mpr (h.imp fun hbefore hkey => ?_)
    rw [hkey, Before, dist_self] at hbefore
    exact Nat.lt_irrefl 0 hbefore.1
  exact inj_on_of_nodup_map hnodup hp hq heq

theorem IsFloor.unique {r' : α} (hl : Sorted key l) (h : IsFloor key l x r) (h' : IsFloor key l x r') : r' = r :=
  hl.eq_of_key h'.mem h.mem ((h.largest r' h'.mem h'.upTo).antisymm (h'.largest r h.mem h.upTo))

theorem IsNext.unique {r' : α} (hl : Sorted key l) (h : IsNext key l x r) (h' : IsNext key l x r') : r' = r :=
  hl.eq_of_key h'.mem h.mem ((h'.first r h.mem h.after).antisymm (h.first r' h'.mem h'.after))

theorem Sorted.split (h : Sorted key (before ++ r :: after)) :
    (∀ q ∈ before, Before (key q) (key r)) ∧ (∀ q ∈ after, Before (key r) (key q)) ∧
      ∀ q ∈ before, ∀ w ∈ after, Before (key q) (key w) := by
  obtain ⟨_, htail, hcross⟩ := pairwise_append.mp h
  exact ⟨fun q hq => hcross q hq r mem_cons_self, (pairwise_cons.mp htail).1,
    fun q hq w hw => hcross q hq w (.tail _ hw)⟩

theorem Sorted.passed (h : Sorted key (before ++ r :: n :: after)) (hup : UpTo (key r) x) (hn : ¬ UpTo (key n) x) :
    ∀ q ∈ n :: after, ¬ UpTo (key q) x := by
  intro q hq
  rcases mem_cons.mp hq with rfl | hlater
  · exact hn
  · obtain ⟨_, hr, _⟩ := h.split
    have hrn : Sorted key ((before ++ [r]) ++ n :: after) := by rwa [append_assoc]
    exact not_upTo_of_passed hup (hr n mem_cons_self) hn (hr q hq) (hrn.split.2.1 q hlater)

theorem isFloor_of_split (h : Sorted key (before ++ r :: after)) (hup : UpTo (key r) x)
    (hnext : ∀ n, after.head? = some n → ¬ UpTo (key n) x) : IsFloor key (before ++ r :: after) x r := by
  refine ⟨mem_append_right _ mem_cons_self, hup, fun q hq hqx => ?_⟩
  rcases mem_append.mp hq with hbefore | htail
  · exact (h.split.1 q hbefore).upTo
  rcases mem_cons.mp htail with rfl | hlater
  · rw [UpTo, dist_self]
    decide
  · obtain ⟨n, after, rfl⟩ := exists_cons_of_ne_nil (ne_nil_of_mem hlater)
    exact absurd hqx (h.passed hup (hnext n rfl) q hlater)

theorem isNext_of_split (h : Sorted key (before ++ r :: n :: after)) (hup : UpTo (key r) x) (hn : Before x (key n)) :
    IsNext key (before ++ r :: n :: after) x n := by
  obtain ⟨hbefore, hr, hcross⟩ := h.split
  have hrn : Sorted key ((before ++ [r]) ++ n :: after) := by rwa [append_assoc]
  refine ⟨mem_append_right _ (.tail _ mem_cons_self), hn, fun q hq hqx => ?_⟩
  rcases mem_append.mp hq with hq | hq
  · exact absurd hqx (not_after_of_passed hup hn.not_upTo (hbefore q hq) (hcross q hq n mem_cons_self) (hr n mem_cons_self))
  rcases mem_cons.mp hq with rfl | hq
  · exact absurd hup hqx.not_upTo
  rcases mem_cons.mp hq with rfl | hq
  · rw [UpTo, dist_self]
    decide
  · exact (hrn.split.2.1 q hq).upTo

end Lists

end AmlogicV901d.Lib.CircularOrder
