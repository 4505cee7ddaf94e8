import AmlogicV901d.Source.Emmc.Partition

/-!
# eMMC layout and the end of the device

`_calculate_offset` (aml_emmc_partition.c:333-379) cuts the entry that does not
fit to `capacity - offset` and accepts the table if that entry is the last one.
When the device ends inside the gap before the last entry, the difference wraps
around: that is the only way an accepted table leaves the device.
-/
namespace AmlogicV901d.Guarantees.EmmcLayout
open Source.Emmc List

variable {e g : Nat} {p : Partitions} {rest : List Partitions} {capacity : UInt64}

/-- In table order, disjoint, at least the reserved gap apart, and on the device. -/
structure LaidOut (capacity : UInt64) (tbl : List Partitions) : Prop where
  apart : tbl.Pairwise fun p q => p.extent + partitionReserved.toNat ≤ q.offset.toNat
  onDevice : ∀ p ∈ tbl, p.extent ≤ capacity.toNat

/-- No 64-bit overflow of the running sum behind an entry that ends at `e`, with
`g` bytes of gap. The last size may be the fill marker. -/
def SumsFit : Nat → Nat → List Partitions → Prop
  | _, _, [] => True
  | e, g, [p] => e + g < 2 ^ 64 ∧ (p.size = fillMarker ∨ e + g + p.size.toNat < 2 ^ 64)
  | e, g, p :: q :: rest =>
    e + g + p.size.toNat < 2 ^ 64 ∧ SumsFit (e + g + p.size.toNat) partitionReserved.toNat (q :: rest)

/-- The entry before the last one ends on the device, but the gap behind it does
not. -/
def EndsInLastGap (capacity : Nat) : Nat → Nat → List Partitions → Prop
  | _, _, [] => False
  | e, g, [_] => e ≤ capacity ∧ capacity < e + g
  | e, g, p :: q :: rest =>
    EndsInLastGap capacity (e + g + p.size.toNat) partitionReserved.toNat (q :: rest)

theorem SumsFit.start (h : SumsFit e g (p :: rest)) : e + g < 2 ^ 64 := by
  cases rest with
  | nil => exact h.1
  | cons q rest => exact Nat.lt_of_le_of_lt (Nat.le_add_right _ _) h.1

theorem SumsFit.size (h : SumsFit e g (p :: rest)) : p.size = fillMarker ∨ e + g + p.size.toNat < 2 ^ 64 := by
  cases rest with
  | nil => exact h.2
  | cons q rest => exact .inr h.1

theorem SumsFit.tail (h : SumsFit e g (p :: rest)) : SumsFit (e + g + p.size.toNat) partitionReserved.toNat rest := by
  cases rest with
  | nil => trivial
  | cons q rest => exact h.2

theorem endsInLastGap_cons {capacity : Nat} (hfits : e + g + p.size.toNat ≤ capacity) :
    EndsInLastGap capacity e g (p :: rest) ↔
      EndsInLastGap capacity (e + g + p.size.toNat) partitionReserved.toNat rest := by
  cases rest with
  | nil =>
    refine iff_of_false (fun h => ?_) fun h => h
    have hgap := h.2
    omega
  | cons q rest => exact .rfl

theorem EndsInLastGap.le {capacity : Nat} {l : List Partitions} (h : EndsInLastGap capacity e g l) : e ≤ capacity := by
  induction l generalizing e g with
  | nil => exact h.elim
  | cons p rest ih =>
    cases rest with
    | nil => exact h.1
    | cons q rest =>
      have := ih (e := e + g + p.size.toNat) h
      omega

theorem LaidOut.single (h : p.extent ≤ capacity.toNat) : LaidOut capacity [p] := by
  refine ⟨pairwise_singleton _ _, fun q hq => ?_⟩
  rw [mem_singleton.mp hq]
  exact h

theorem LaidOut.tail (h : LaidOut capacity (p :: rest)) : LaidOut capacity rest :=
  ⟨(pairwise_cons.mp h.apart).2, fun r hr => h.onDevice r (.tail _ hr)⟩

theorem LaidOut.cons {q : Partitions} (h : LaidOut capacity (q :: rest)) (hp : p.extent ≤ capacity.toNat)
    (hgap : p.extent + partitionReserved.toNat ≤ q.offset.toNat) : LaidOut capacity (p :: q :: rest) := by
  refine ⟨pairwise_cons.mpr ⟨fun r hr => ?_, h.apart⟩, fun r hr => ?_⟩
  · rcases mem_cons.mp hr with rfl | hmem
    · exact hgap
    · have hqr := (pairwise_cons.mp h.apart).1 r hmem
      have hext : q.extent = q.offset.toNat + q.size.toNat := rfl
      omega
  · rcases mem_cons.mp hr with rfl | hmem
    · exact hp
    · exact h.onDevice r hmem

theorem cut_laidOut_iff (capacity : UInt64) (prev p : Partitions) (start : UInt64)
    (gap : Nat) (hprev : prev.extent ≤ capacity.toNat) (hgap : partitionReserved.toNat ≤ gap)
    (hstart : start.toNat = prev.extent + gap) :
    LaidOut capacity [prev, { p with offset := start, size := capacity - start }] ↔
      ¬ (prev.extent ≤ capacity.toNat ∧ capacity.toNat < prev.extent + gap) := by
  by_cases hin : start.toNat ≤ capacity.toNat
  · have hsize : (capacity - start).toNat = capacity.toNat - start.toNat :=
      UInt64.toNat_sub_of_le capacity start (UInt64.le_iff_toNat_le.mpr hin)
    refine iff_of_true (.cons (.single ?_) hprev ?_) (by omega)
    · simp only [Partitions.extent, hsize]
      omega
    · simp only [hstart]
      omega
  · refine iff_of_false (fun h => ?_) (by omega)
    have hdev := h.onDevice { p with offset := start, size := capacity - start } (by simp)
    simp only [Partitions.extent, UInt64.toNat_sub] at hdev
    omega

/-- The loop from an entry that ends on the device. -/
theorem layoutFrom_laidOut_iff (capacity : UInt64) (bottom : Bool) (rest : List Partitions) (prev : Partitions)
    (gap : UInt64) (hprev : prev.extent ≤ capacity.toNat) (hgap : partitionReserved.toNat ≤ gap.toNat)
    (hsum : SumsFit prev.extent gap.toNat rest) : ((layoutFrom capacity bottom prev gap rest).2 = 0 →
        LaidOut capacity (prev :: (layoutFrom capacity bottom prev gap rest).1)) ↔
      ¬ EndsInLastGap capacity.toNat prev.extent gap.toNat rest := by
  have hreserved : partitionReserved.toNat = 0x800000 := rfl
  have hfill : fillMarker.toNat = 2 ^ 64 - 1 := rfl
  induction rest generalizing prev gap with
  | nil => exact iff_of_true (fun _ => .single hprev) fun h => h
  | cons p rest ih =>
    have hext : prev.extent = prev.offset.toNat + prev.size.toNat := rfl
    have hstart := hsum.start
    have hoffset : (prev.offset + prev.size + gap).toNat = prev.extent + gap.toNat := by
      rw [UInt64.toNat_add, UInt64.toNat_add]
      omega
    have hend : p.size ≠ fillMarker → (prev.offset + prev.size + gap + p.size).toNat =
        prev.extent + gap.toNat + p.size.toNat := by
      intro hnofill
      rw [UInt64.toNat_add, hoffset]
      exact Nat.mod_eq_of_lt (hsum.size.resolve_left hnofill)
    by_cases hcut : prev.offset + prev.size + gap + p.size > capacity ∨ p.size = fillMarker
    · rw [layoutFrom_cons, if_pos hcut]
      cases rest with
      | nil =>
        simp only [if_true, forall_const]
        exact cut_laidOut_iff capacity prev p _ gap.toNat hprev hgap hoffset
      | cons q rest =>
        -- a cut before the last index is refused, and then no later end fits
        refine iff_of_true (fun h => absurd h (by simp)) fun h => ?_
        have hle := EndsInLastGap.le (l := q :: rest) h
        have hnofill : p.size ≠ fillMarker := by
          intro heq
          have hsize := hsum.1
          rw [heq, hfill] at hsize
          omega
        have hover := UInt64.lt_iff_toNat_lt.mp (hcut.resolve_right hnofill)
        have hval := hend hnofill
        omega
    · rw [layoutFrom_cons, if_neg hcut]
      have hval := hend fun h => hcut (.inr h)
      have hfits : (prev.offset + prev.size + gap + p.size).toNat ≤ capacity.toNat :=
        UInt64.le_iff_toNat_le.mp (UInt64.not_lt.mp fun h => hcut (.inl h))
      rw [hval] at hfits
      generalize hp' : ({ p with offset := prev.offset + prev.size + gap } : Partitions) = p'
      have hoff' : p'.offset.toNat = prev.extent + gap.toNat := by
        rw [← hp']
        exact hoffset
      have hext' : p'.extent = prev.extent + gap.toNat + p.size.toNat := by
        rw [Partitions.extent, hoff', ← hp']
      have hiff := ih p' partitionReserved (by omega) (Nat.le_refl _) (by rw [hext']; exact hsum.tail)
      rw [endsInLastGap_cons hfits, ← hext']
      refine .trans ?_ hiff
      exact imp_congr_right fun _ => ⟨.tail, fun h => h.cons hprev (by omega)⟩

/-- The running sum of a whole table. -/
def TableSumsFit : List Partitions → Prop
  | [] => True
  | p :: rest => SumsFit p.size.toNat (firstGap p).toNat rest

/-- The device ends in the gap before the last entry of the table. -/
def TableEndsInLastGap (capacity : Nat) : List Partitions → Prop
  | [] => False
  | p :: rest => EndsInLastGap capacity p.size.toNat (firstGap p).toNat rest

/-- An accepted layout stays on the device exactly when the device does not end
in the gap before the last entry. -/
theorem calculate_offset_on_device_iff (isMainstorageEmmc bottom : Bool) (capacity : UInt64) (part : Partitions)
    (rest : List Partitions) (hsum : TableSumsFit (part :: rest)) (hfirst : part.size ≤ capacity) :
    ((calculateOffset isMainstorageEmmc capacity bottom (part :: rest)).1 = 0 →
        LaidOut capacity (calculateOffset isMainstorageEmmc capacity bottom (part :: rest)).2) ↔
      ¬ TableEndsInLastGap capacity.toNat (part :: rest) := by
  have hgap : partitionReserved.toNat ≤ (firstGap part).toNat := by
    unfold firstGap
    split <;> decide
  rw [calculateOffset]
  generalize hf : ({ part with
    offset := 0
    name := if nameIs part.name mmcBootName = true ∧ ¬ isMainstorageEmmc = true then
      renameBootloadere part.name else part.name } : Partitions) = first
  have hext : first.extent = part.size.toNat := by
    rw [← hf, Partitions.extent]
    exact Nat.zero_add _
  have hiff := layoutFrom_laidOut_iff capacity bottom rest first (firstGap part)
    (by rw [hext]; exact UInt64.le_iff_toNat_le.mp hfirst) hgap (by rw [hext]; exact hsum)
  rw [hext] at hiff
  exact hiff

/-- A partition "userdata" that takes the rest of the device. -/
def userdataEntry : Partitions :=
  ⟨#v[0x75, 0x73, 0x65, 0x72, 0x64, 0x61, 0x74, 0x61, 0, 0, 0, 0, 0, 0, 0, 0], fillMarker, 0, 0, 0⟩

/-- On a device of 16 MiB the second entry would start at 36 MiB. The table is
accepted with a size of 2^64 - 20 MiB. -/
theorem calculate_offset_leaves_device : (calculateOffset true 0x1000000 true [inherentBoot, userdataEntry]).1 = 0 ∧
      (calculateOffset true 0x1000000 true [inherentBoot, userdataEntry]).2.map (·.size.toNat) =
        [0x400000, 2 ^ 64 - 0x1400000] ∧
      ¬ LaidOut 0x1000000 (calculateOffset true 0x1000000 true [inherentBoot, userdataEntry]).2 := by
  refine ⟨by decide, by decide, fun h => ?_⟩
  have hend := h.onDevice { userdataEntry with offset := 0x2400000, size := 0xfffffffffec00000 }
    (by decide)
  exact nomatch hend

/-- The same table on a device of 4 GiB. -/
theorem calculate_offset_on_device_sample :
    LaidOut 0x100000000 (calculateOffset true 0x100000000 true [inherentBoot, userdataEntry]).2 :=
  (calculate_offset_on_device_iff true true 0x100000000 inherentBoot [userdataEntry]
    ⟨by decide, .inl rfl⟩ (by decide)).mpr (fun h => nomatch h.2) (by decide)

end AmlogicV901d.Guarantees.EmmcLayout
