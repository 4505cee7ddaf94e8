import AmlogicV901d.Source.GpioKeypad

/-!
# Debouncing of polled keys

One counter serves all keys: a key that bounces lets the next one of the scan through at once.
-/
namespace AmlogicV901d.Guarantees.KeyDebounce
open Source.GpioKeypad List

variable {n : Nat}

/-- The levels of the pins in one scan. -/
def Pins (n : Nat) : Type := { gpiod : Fin n → Int // ∀ i, gpiod i = 0 ∨ gpiod i = 1 }

/-- The keypad after a number of scans. -/
def scanned (cfg : Config n) (scans : Nat → Pins n) : Nat → Keypad n
  | 0 => probed
  | k + 1 => pollingTimerHandler cfg (scans k).1 (scanned cfg scans k)

theorem scanned_succ (cfg : Config n) (scans : Nat → Pins n) (k : Nat) :
    pollingTimerHandler cfg (scans k).1 (scanned cfg scans k) = scanned cfg scans (k + 1) := rfl

/-- A key changes only to a level that it shows on this scan and on the one before, and after three
scans with one level it has that level. -/
structure Debounced (cfg : Config n) (scans : Nat → Pins n) (i : Fin n) : Prop where
  shown : ∀ k, (scanned cfg scans (k + 1)).currentStatus i ≠ (scanned cfg scans k).currentStatus i →
    (scanned cfg scans (k + 1)).currentStatus i = (scans k).1 i ∧ k ≠ 0 ∧ (scans (k - 1)).1 i = (scans k).1 i
  settles : ∀ k, (scans (k + 1)).1 i = (scans k).1 i → (scans (k + 2)).1 i = (scans k).1 i →
    (scanned cfg scans (k + 3)).currentStatus i = (scans k).1 i

/-! ## One key -/

section OneKey
variable {cfg : Config 1} (hpoll : cfg.useIrq = false) (scans : Nat → Pins 1) (k : Nat)
include hpoll

/-- What a scan does to a keypad whose counter counts for the key itself. -/
theorem handler_cases {gpiod : Fin 1 → Int} {kp kp' : Keypad 1} (h : pollingTimerHandler cfg gpiod kp = kp')
    (hcount : kp.count = 0 ∨ kp.count = 1 ∧ kp.index = 0) :
    kp'.currentStatus 0 = gpiod 0 ∧ kp'.count = 0 ∧ (kp.currentStatus 0 = gpiod 0 ∨ kp.count = 1) ∨
    kp.currentStatus 0 ≠ gpiod 0 ∧ kp.count = 0 ∧
      kp'.currentStatus 0 = kp.currentStatus 0 ∧ kp'.count = 1 ∧ kp'.index = 0 := by
  have heq : pollKey cfg gpiod kp 0 = kp' := by
    rw [← h, pollingTimerHandler, hpoll]
    rfl
  subst heq
  rw [pollKey]
  by_cases hsame : kp.currentStatus 0 = gpiod 0
  · rw [if_neg (not_not_intro hsame)]
    left
    split
    · exact ⟨hsame, rfl, .inl hsame⟩
    · next hindex => exact ⟨hsame, hcount.resolve_right fun hown => hindex hown.2, .inl hsame⟩
  rw [if_pos hsame, reportKeyCode]
  obtain hzero | ⟨hone, _⟩ := hcount
  · rw [if_pos (by rw [hzero]; decide)]
    exact .inr ⟨hsame, hzero, rfl, by rw [Keypad.call, hzero]; rfl, rfl⟩
  · rw [if_neg (by rw [hone]; decide)]
    exact .inl ⟨rfl, rfl, .inr hone⟩

/-- The counter runs only after a scan with a level other than the reported one. -/
structure Counts (scans : Nat → Pins 1) (k : Nat) (kp : Keypad 1) : Prop where
  level : kp.currentStatus 0 = 0 ∨ kp.currentStatus 0 = 1
  own : kp.count = 0 ∨ kp.count = 1 ∧ kp.index = 0
  other : kp.count = 1 → k ≠ 0 ∧ (scans (k - 1)).1 0 ≠ kp.currentStatus 0

theorem scanned_counts : Counts scans k (scanned cfg scans k) := by
  induction k with
  | zero => exact ⟨.inr rfl, .inl rfl, nofun⟩
  | succ k ih =>
    have hnow := (scans k).2 0
    obtain ⟨hstatus, hcount, _⟩ | ⟨hne, _, hstatus, hcount, hindex⟩ := handler_cases hpoll (scanned_succ cfg scans k) ih.own
    · exact ⟨hstatus ▸ hnow, .inl hcount, fun hone => absurd (hcount.symm.trans hone) (by decide)⟩
    · refine ⟨hstatus ▸ ih.level, .inr ⟨hcount, hindex⟩, fun _ => ⟨k.succ_ne_zero, ?_⟩⟩
      rw [hstatus]
      exact hne.symm

theorem debounced_single (i : Fin 1) : Debounced cfg scans i := by
  have hstep := fun k => handler_cases hpoll (scanned_succ cfg scans k) (scanned_counts hpoll scans k).own
  rw [Subsingleton.elim i 0]
  refine ⟨fun k hchanged => ?_, fun k hnext hlast => ?_⟩
  · obtain ⟨hstatus, _, hsame | hone⟩ | ⟨_, _, hstatus, _⟩ := hstep k
    · exact absurd (hstatus.trans hsame.symm) hchanged
    swap
    · exact absurd hstatus hchanged
    -- there are two levels: both scans showed the other one
    obtain ⟨hk, hother⟩ := (scanned_counts hpoll scans k).other hone
    have hlevel := (scanned_counts hpoll scans k).level
    have hnow := (scans k).2 0
    have hbefore := (scans (k - 1)).2 0
    exact ⟨hstatus, hk, by omega⟩
  · have hsecond := hstep (k + 1)
    have hthird := hstep (k + 2)
    simp only [Nat.add_assoc, Nat.reduceAdd] at hsecond hthird
    omega

end OneKey

/-! ## Several keys -/

theorem polled_other (cfg : Config n) (gpiod : Fin n → Int) {j : Fin n} (keys : List (Fin n)) (h : j ∉ keys) (kp : Keypad n) :
    (keys.foldl (pollKey cfg gpiod) kp).currentStatus j = kp.currentStatus j := by
  induction keys generalizing kp with
  | nil => rfl
  | cons i keys ih =>
    rw [foldl_cons, ih (not_mem_of_not_mem_cons h), pollKey, reportKeyCode]
    split
    · split
      · rfl
      · exact if_neg (ne_of_not_mem_cons h)
    · split <;> rfl

/-- All keys pressed in every scan. -/
def allLow (_ : Nat) : Pins n := ⟨fun _ => 0, fun _ => .inl rfl⟩

/-- Pressed with the first key, the second one is reported on the scan that first shows it. -/
theorem not_debounced {m : Nat} {cfg : Config (m + 2)} (hpoll : cfg.useIrq = false) : ¬ Debounced cfg allLow 1 := by
  have hkeys : List.finRange (m + 2) = 0 :: 1 :: (List.finRange m).map (Fin.succ ∘ Fin.succ) := by
    rw [finRange_succ, finRange_succ, map_cons, map_map]
    rfl
  have hrest : (1 : Fin (m + 2)) ∉ (List.finRange m).map (Fin.succ ∘ Fin.succ) := by
    intro hmem
    obtain ⟨k, _, hk⟩ := mem_map.mp hmem
    exact absurd (congrArg Fin.val hk) (by simp)
  have hreported : (scanned cfg allLow 1).currentStatus 1 = 0 := by
    rw [scanned, pollingTimerHandler, hpoll, hkeys]
    exact polled_other cfg _ _ hrest _
  intro h
  refine (h.shown 0 ?_).2.1 rfl
  rw [hreported]
  exact Int.zero_ne_one

theorem keys_debounced_iff (cfg : Config n) (hpoll : cfg.useIrq = false) :
    (∀ scans i, Debounced cfg scans i) ↔ n ≤ 1 := by
  match n, cfg, hpoll with
  | 0, cfg, _ => exact ⟨fun _ => Nat.zero_le 1, fun _ _ i => i.elim0⟩
  | 1, cfg, hpoll => exact ⟨fun _ => Nat.le_refl 1, fun _ => debounced_single hpoll⟩
  | m + 2, cfg, hpoll => exact ⟨fun h => absurd (h _ _) (not_debounced hpoll), fun h => absurd h (by omega)⟩

/-- The power key alone. -/
def oneKey : Config 1 := ⟨false, 20, 116, fun _ => 116, fun _ => 0⟩

theorem single_key_debounced : Debounced oneKey allLow 0 :=
  (keys_debounced_iff oneKey rfl).mpr (Nat.le_refl 1) allLow 0

/-- The power key and another one. -/
def twoKeys : Config 2 := ⟨false, 20, 116, fun i => if i = 0 then 116 else 102, fun _ => 0⟩

theorem two_keys_not_debounced : ¬ Debounced twoKeys allLow 1 := not_debounced rfl

end AmlogicV901d.Guarantees.KeyDebounce
