import AmlogicV901d.Source.Emmc.Key

/-!
# The eMMC key area round trips

Both loops transfer 128 KiB at a time, until the count of blocks is 0, and from the second transfer
on they use the second 128 KiB of the buffer. So a key area of 128 or of 256 KiB is read back, and
no other; and a failing transfer returns with the host claimed.
-/
namespace AmlogicV901d.Guarantees.KeyArea
open AmlogicV901d.Source.Emmc.Key

def noFails (_ : Nat) : Bool := false

/-- For a key area of `n` blocks at the block `blk`. -/
def RoundTrips (n : Nat) : Prop :=
  ∀ blk buffer card old, ∃ fuel w r, emmcKeyWrite buffer noFails (512 * n) fuel blk card = some w ∧
    emmcKeyRead w.bytes noFails (512 * n) fuel blk old = some r ∧
    ∀ i, i < 512 * n → r.bytes i = buffer i

/-- Every call that returns has released the host as often as it has claimed it. -/
def Balanced (fails : Nat → Bool) : Prop :=
  ∀ n fuel blk buffer card r, emmcKeyWrite buffer fails (512 * n) fuel blk card = some r ∨
      emmcKeyRead card fails (512 * n) fuel blk buffer = some r → r.claims = r.releases

variable {transfer : Nat → Nat → Bytes → Bytes} {fails : Nat → Bool} {length fuel tick blk off : Nat}
  {cnt : Int} {bytes : Bytes}

/-- What the transfers keep is kept by the loop, and it fails with a transfer only. -/
theorem keyLoop_keeps {P : Bytes → Prop} {r : Bool × Bytes} (hstep : ∀ blk off bytes,
    off ≤ maxEmmcBlockSize → P bytes → P (transfer blk off bytes)) (hoff : off ≤ maxEmmcBlockSize) (hP : P bytes)
    (h : keyLoop transfer fails length fuel tick blk off cnt bytes = some r) :
    P r.2 ∧ (r.1 = false → ∃ t, fails t = true) := by
  fun_induction keyLoop transfer fails length fuel tick blk off cnt bytes with
  | case1 | case2 => exact nomatch h
  | case3 tick blk off cnt bytes _ _ hfail =>
    obtain rfl := Option.some.inj h
    exact ⟨hP, fun _ => ⟨_, hfail⟩⟩
  | case4 =>
    obtain rfl := Option.some.inj h
    exact ⟨hstep _ _ _ hoff hP, nofun⟩
  | case5 _ _ _ _ _ _ _ _ _ ih => exact ih (Nat.le_refl _) (hstep _ _ _ hoff hP) h

/-- A loop that never comes to 0 meets every transfer that fails. -/
theorem keyLoop_fails (k : Nat) (hfail : fails (tick + k) = true) (hodd : cnt % 2 = 1)
    (hoff : off ≤ maxEmmcBlockSize) (hlen : 2 * maxEmmcBlockSize ≤ length) :
    ∃ fuel bytes', keyLoop transfer fails length fuel tick blk off cnt bytes = some (false, bytes') := by
  have hin : ¬length < off + maxEmmcBlockSize := by omega
  induction k generalizing tick blk off cnt bytes with
  | zero => exact ⟨1, bytes, by simp [keyLoop, hin, show fails tick = true from hfail]⟩
  | succ k ih =>
    by_cases hnow : fails tick = true
    · exact ⟨1, bytes, by simp [keyLoop, hin, hnow]⟩
    have hodd' : (cnt - emmcBlockSize) % 2 = 1 := by
      simp only [emmcBlockSize]
      omega
    obtain ⟨fuel, bytes', hrun⟩ := @ih (tick + 1) (blk + emmcBlockSize) maxEmmcBlockSize
      (cnt - emmcBlockSize) (transfer blk off bytes) (by rwa [Nat.add_right_comm]) hodd' (Nat.le_refl _) (by omega)
    exact ⟨fuel + 1, bytes', by simp [keyLoop, hin, hnow, show ¬cnt - emmcBlockSize = 0 by omega, hrun]⟩

/-- In a buffer below 256 KiB the second transfer is outside. -/
theorem keyLoop_short (hlen : length < 2 * maxEmmcBlockSize) (hcnt : cnt ≠ emmcBlockSize) :
    keyLoop transfer noFails length fuel tick blk 0 cnt bytes = none := by
  match fuel with
  | 0 => rfl
  | 1 => simp [keyLoop, noFails, Int.sub_eq_zero, hcnt]
  | fuel + 2 =>
    have hout : length < maxEmmcBlockSize + maxEmmcBlockSize := by omega
    simp [keyLoop, noFails, Int.sub_eq_zero, hcnt, hout]

/-- What a transfer wrote is read back from the same place. -/
theorem readBlocks_written {buffer card card' old : Bytes} {i : Nat} (hi : off ≤ i ∧ i < off + maxEmmcBlockSize)
    (hcard : ∀ a, a < blk * 512 + maxEmmcBlockSize → card' a = writeBlocks buffer blk off card a) :
    readBlocks card' blk off old i = buffer i := by
  rw [readBlocks, if_pos hi, hcard _ (by omega), writeBlocks, if_pos (by omega), Nat.add_sub_cancel_left,
    Nat.add_sub_cancel' hi.1]

theorem roundTrips_iff (n : Nat) : RoundTrips n ↔ n = 256 ∨ n = 512 := by
  constructor
  · intro h
    obtain ⟨fuel, w, r, hw, hr, hback⟩ := h 0 (fun _ => 0) (fun _ => 0) fun _ => 1
    obtain ⟨_, hwrite, -⟩ := Option.map_eq_some_iff.mp hw
    obtain ⟨_, hread, rfl⟩ := Option.map_eq_some_iff.mp hr
    by_cases hn : n ≤ 512
    · refine Classical.byContradiction fun hne => ?_
      have hcnt : ((512 * n : Nat) : Int) / 512 ≠ emmcBlockSize := by
        simp only [emmcBlockSize]
        omega
      exact nomatch hwrite.symm.trans (keyLoop_short (by simp only [maxEmmcBlockSize]; omega) hcnt)
    · -- the buffer behind its second part is not read
      have hkept := (keyLoop_keeps (P := (· (2 * maxEmmcBlockSize) = 1)) (fun blk off bytes hoff hP =>
        (if_neg (by omega)).trans hP) (Nat.zero_le _) rfl hread).1
      exact absurd ((hback _ (by simp only [maxEmmcBlockSize]; omega)).symm.trans hkept) (by decide)
  · rintro (rfl | rfl) blk buffer card old
    · exact ⟨1, _, _, rfl, rfl, fun i hi => readBlocks_written ⟨Nat.zero_le i, hi⟩ fun _ _ => rfl⟩
    · refine ⟨2, _, _, rfl, rfl, fun i hi => ?_⟩
      by_cases hfirst : i < maxEmmcBlockSize
      · rw [show (_ : KeyCall).bytes i = readBlocks _ _ _ _ i from rfl, readBlocks, if_neg (by omega)]
        exact readBlocks_written ⟨Nat.zero_le i, hfirst⟩ fun a ha => if_neg (by simp only [emmcBlockSize, maxEmmcBlockSize] at *; omega)
      · exact readBlocks_written ⟨by omega, hi⟩ fun _ _ => rfl

theorem balanced_iff (fails : Nat → Bool) : Balanced fails ↔ ∀ t, fails t = false := by
  constructor
  · intro h t
    cases hfail : fails t with
    | false => rfl
    | true =>
      obtain ⟨fuel, _, hrun⟩ := @keyLoop_fails (writeBlocks fun _ => 0) fails (512 * 513) 0 0 0 513
        (fun _ => 0) t (by rwa [Nat.zero_add]) (by decide) (by decide) (by decide)
      exact nomatch h 513 fuel 0 _ _ _ (.inl (congrArg _ hrun))
  · intro h n fuel blk buffer card r hr
    have hok : ∀ {transfer bytes}, keyCall transfer fails (512 * n) fuel blk bytes = some r → r.claims = r.releases := by
      intro transfer bytes hrun
      obtain ⟨⟨ok, _⟩, hloop, rfl⟩ := Option.map_eq_some_iff.mp hrun
      have hfail := (keyLoop_keeps (P := fun _ => True) (fun _ _ _ _ _ => trivial) (Nat.zero_le _) trivial hloop).2
      cases ok with
      | true => rfl
      | false => exact (hfail rfl).elim fun t ht => nomatch (h t).symm.trans ht
    exact hr.elim hok hok

/-- The key area round trips for the two sizes, and the host is released on every path exactly
where no transfer fails. -/
theorem key_area_sound_iff (n : Nat) (fails : Nat → Bool) :
    (RoundTrips n ↔ n = 256 ∨ n = 512) ∧ (Balanced fails ↔ ∀ t, fails t = false) :=
  ⟨roundTrips_iff n, balanced_iff fails⟩

/-- An area of 384 KiB: the third part of the buffer is neither written nor read. -/
theorem third_part_not_stored : ¬RoundTrips 768 := fun h => absurd ((roundTrips_iff 768).mp h) (by decide)

end AmlogicV901d.Guarantees.KeyArea
