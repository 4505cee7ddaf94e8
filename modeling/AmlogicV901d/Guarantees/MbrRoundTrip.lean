import AmlogicV901d.Source.Emmc.DeviceInit

/-!
# MBR and EBR round trip

`_update_ptbl_mbr` writes the first three entries into the MBR and one EBR in the
gap in front of every further entry; `_construct_ptbl_by_mbr` follows the chain
(aml_emmc_partition.c:726-1021). The sectors are those of a layout that
`_calculate_offset` accepted, so they ascend and the writer never overwrites a
record of its own chain.
-/
namespace AmlogicV901d.Guarantees.MbrRoundTrip
open Lib.ByteMemory Source.Emmc List
open UInt64 (le_iff_toNat_le toNat_add toNat_sub_of_le toNat_div toNat_inj)
open Partitions (extent)

variable {i fuel : Nat} {main bottom : Bool} {d : BlockDevice}

/-! ## The accepted layout, entry by entry -/

/-- Every entry starts the gap behind the one before it and ends, in 64-bit
arithmetic, on the device. -/
theorem layoutFrom_spaced (capacity : UInt64) (bottom : Bool) (rest : List Partitions)
    (prev : Partitions) (gap : UInt64)
    (h : (layoutFrom capacity bottom prev gap rest).2 = 0) (k : Nat)
    (hk : k < (layoutFrom capacity bottom prev gap rest).1.length) :
    let tbl := prev :: (layoutFrom capacity bottom prev gap rest).1
    (entryAt tbl (k + 1)).offset = (entryAt tbl k).offset + (entryAt tbl k).size +
          (if k = 0 then gap else partitionReserved) ∧
      (entryAt tbl (k + 1)).offset + (entryAt tbl (k + 1)).size ≤ capacity := by
  induction rest generalizing prev gap k with
  | nil => exact nomatch hk
  | cons p rest ih =>
    by_cases hcut : prev.offset + prev.size + gap + p.size > capacity ∨ p.size = fillMarker
    · rw [layoutFrom_cons, if_pos hcut] at h hk ⊢
      have hrest : rest = [] := by
        by_contra hne
        simp [hne] at h
      subst hrest
      have hk0 : k = 0 := Nat.lt_one_iff.mp hk
      subst hk0
      refine ⟨rfl, UInt64.le_of_eq ?_⟩
      exact (UInt64.add_comm _ _).trans (UInt64.sub_add_cancel _ _)
    · rw [layoutFrom_cons, if_neg hcut] at h hk ⊢
      cases k with
      | zero => exact ⟨rfl, UInt64.not_lt.mp fun hover => hcut (.inl hover)⟩
      | succ k =>
        have hih := ih _ partitionReserved h k (Nat.lt_of_succ_lt_succ hk)
        rw [ite_self] at hih
        exact hih

/-- An accepted table whose sector numbers fit 31 bits. -/
structure Chained (capacity : UInt64) (tbl : List Partitions) : Prop where
  count : 4 ≤ tbl.length
  aligned : ∀ i, i < tbl.length → (entryAt tbl i).offset.toNat % 512 = 0 ∧ (entryAt tbl i).size.toNat % 512 = 0
  sectors : ∀ i, i < tbl.length →
    (entryAt tbl i).offset.toNat / 512 < 2 ^ 31 ∧ (entryAt tbl i).size.toNat / 512 < 2 ^ 31
  apart : ∀ i, 1 ≤ i → i + 1 < tbl.length →
    (entryAt tbl (i + 1)).offset.toNat = (entryAt tbl i).extent + partitionReserved.toNat
  onDevice : ∀ i, i + 1 < tbl.length → (entryAt tbl (i + 1)).offset.toNat ≤ capacity.toNat

theorem entryAt_mem {tbl : List Partitions} (h : i < tbl.length) : entryAt tbl i ∈ tbl := by
  rw [entryAt, getD_eq_getElem?_getD, getElem?_eq_getElem h]
  exact getElem_mem h

/-- Sector numbers below 2^31. -/
def SectorsFit (tbl : List Partitions) : Prop :=
  ∀ p ∈ tbl, p.offset.toNat / 512 < 2 ^ 31 ∧ p.size.toNat / 512 < 2 ^ 31

instance (tbl : List Partitions) : Decidable (SectorsFit tbl) :=
  inferInstanceAs (Decidable (∀ p ∈ tbl, _))

/-- Sizes of whole sectors. -/
def WholeSectors (tbl : List Partitions) : Prop := ∀ p ∈ tbl, p.size.toNat % 512 = 0

instance (tbl : List Partitions) : Decidable (WholeSectors tbl) :=
  inferInstanceAs (Decidable (∀ p ∈ tbl, _))

theorem gap_le (part : Partitions) (i : Nat) : (if i = 0 then firstGap part else partitionReserved).toNat ≤ 0x2000000 ∧
      (if i = 0 then firstGap part else partitionReserved).toNat % 512 = 0 := by
  unfold firstGap
  split
  · split <;> decide
  · decide

variable {capacity : UInt64}

/-- The offsets of an accepted small table; none of its sums wraps around. -/
theorem layout_offsets {part : Partitions} {rest tbl : List Partitions}
    (h : calculateOffset main capacity bottom (part :: rest) = (0, tbl)) (hfit : SectorsFit tbl) :
    (entryAt tbl 0).offset = 0 ∧ ∀ i, i + 1 < tbl.length → (entryAt tbl (i + 1)).offset.toNat =
          (entryAt tbl i).extent + (if i = 0 then firstGap part else partitionReserved).toNat ∧
        (entryAt tbl (i + 1)).offset.toNat ≤ capacity.toNat := by
  rw [calculateOffset] at h
  generalize hf : ({ part with
    offset := 0
    name := if nameIs part.name mmcBootName = true ∧ ¬ main = true then
      renameBootloadere part.name else part.name } : Partitions) = first at h
  obtain ⟨hret, htbl⟩ := Prod.mk.inj h
  have hspaced := layoutFrom_spaced capacity bottom rest first (firstGap part) hret
  rw [htbl] at hspaced
  have hlen : (layoutFrom capacity bottom first (firstGap part) rest).1.length + 1 = tbl.length := by
    rw [← htbl]
    rfl
  refine ⟨by rw [← htbl, ← hf]; rfl, fun i hi => ?_⟩
  obtain ⟨hoff, hend⟩ := hspaced i (by omega)
  have hsum := congrArg UInt64.toNat hoff
  have hdev := le_iff_toNat_le.mp hend
  have hi' := hfit (entryAt tbl i) (entryAt_mem (by omega))
  have hnext := hfit (entryAt tbl (i + 1)) (entryAt_mem hi)
  have hgap := gap_le part i
  rw [toNat_add, toNat_add] at hsum
  rw [toNat_add] at hdev
  rw [extent]
  omega

theorem chained_of_layout {itbl tbl : List Partitions} (h : calculateOffset main capacity bottom itbl = (0, tbl))
    (hcount : 4 ≤ tbl.length) (hfit : SectorsFit tbl) (hwhole : WholeSectors tbl) : Chained capacity tbl := by
  cases itbl with
  | nil =>
    have hret : (-1 : Int) = 0 := congrArg Prod.fst h
    exact nomatch hret
  | cons part rest =>
    obtain ⟨hfirst, hoff⟩ := layout_offsets h hfit
    have hsize := fun i hi => hwhole (entryAt tbl i) (entryAt_mem (i := i) hi)
    refine ⟨hcount, fun i hi => ⟨?_, hsize i hi⟩, fun i hi => hfit _ (entryAt_mem hi),
      fun i hone hi => ?_, fun i hi => (hoff i hi).2⟩
    · induction i with
      | zero =>
        rw [hfirst]
        rfl
      | succ i ih =>
        have hmod := hsize i (by omega)
        have hgap := gap_le part i
        rw [(hoff i hi).1, extent]
        omega
    · rw [(hoff i hi).1, if_neg (by omega)]

/-! ## The sectors of the chain -/

section Chain
variable {capacity : UInt64} {tbl : List Partitions}

/-- The sector of the EBR in front of entry `i`. -/
def ebrSector (tbl : List Partitions) (i : Nat) : Nat :=
  ((entryAt tbl i).offset.toNat - partitionReserved.toNat) / 512

theorem startBlk_toNat (hgap : partitionReserved.toNat ≤ (entryAt tbl i).offset.toNat)
    (hfit : (entryAt tbl i).offset.toNat / 512 < 2 ^ 31) : (startBlk tbl i).toNat = ebrSector tbl i := by
  have hsector : (((entryAt tbl i).offset - partitionReserved) >>> 9).toNat = ebrSector tbl i := by
    rw [toNat_shiftRight_nine, toNat_sub_of_le _ _ (le_iff_toNat_le.mpr hgap), ebrSector]
  have hle : ebrSector tbl i ≤ (entryAt tbl i).offset.toNat / 512 :=
    Nat.div_le_div_right (Nat.sub_le _ _)
  rw [startBlk, toNat_le32ToInt _ (by omega), hsector]

section
variable (h : Chained capacity tbl)
include h

theorem Chained.ebrSector_eq (hi : 2 ≤ i) (hlt : i < tbl.length) :
    512 * ebrSector tbl i + partitionReserved.toNat = (entryAt tbl i).offset.toNat := by
  have hreserved : partitionReserved.toNat = 0x800000 := rfl
  obtain ⟨j, rfl⟩ : ∃ j, i = j + 1 := ⟨i - 1, by omega⟩
  have hgap := h.apart j (by omega) hlt
  have hmod := (h.aligned (j + 1) hlt).1
  unfold ebrSector
  omega

theorem Chained.ebrSector_step (hi : 2 ≤ i)
    (hlt : i + 1 < tbl.length) : ebrSector tbl i + 1 ≤ ebrSector tbl (i + 1) := by
  have hreserved : partitionReserved.toNat = 0x800000 := rfl
  have hhere := h.ebrSector_eq hi (by omega)
  have hnext := h.ebrSector_eq (i := i + 1) (by omega) hlt
  have hgap := h.apart i (by omega) hlt
  rw [extent] at hgap
  omega

theorem Chained.ebrSector_lt {j : Nat} (hi : 2 ≤ i) (hij : i < j)
    (hlt : j < tbl.length) : ebrSector tbl i + 1 ≤ ebrSector tbl j := by
  induction j with
  | zero => omega
  | succ j ih =>
    have hstep := h.ebrSector_step (i := j) (by omega) hlt
    rcases Nat.lt_succ_iff_lt_or_eq.mp hij with hlt' | rfl
    · exact Nat.le_trans (ih hlt' (by omega)) (by omega)
    · exact hstep

theorem Chained.ebrSector_pos (hi : 3 ≤ i) (hlt : i < tbl.length) : 0 < ebrSector tbl i :=
  Nat.lt_of_lt_of_le (Nat.succ_pos _) (h.ebrSector_lt (i := 2) (Nat.le_refl 2) hi hlt)
/-- The byte of the EBR in front of entry `i`. -/
theorem Chained.gap_toNat (hi : 2 ≤ i) (hlt : i < tbl.length) :
    ((entryAt tbl i).offset - partitionReserved).toNat = 512 * ebrSector tbl i := by
  have heq := h.ebrSector_eq hi hlt
  rw [toNat_sub_of_le _ _ (le_iff_toNat_le.mpr (by omega))]
  omega

theorem Chained.startBlk_toNat (hi : 2 ≤ i) (hlt : i < tbl.length) : (startBlk tbl i).toNat = ebrSector tbl i :=
  MbrRoundTrip.startBlk_toNat (by have heq := h.ebrSector_eq hi hlt; omega) (h.sectors i hlt).1

theorem Chained.startBlk_ne (hi : 3 ≤ i) (hlt : i < tbl.length) : startBlk tbl i ≠ 0 := by
  intro hz
  have hpos := h.ebrSector_pos hi hlt
  rw [← h.startBlk_toNat (by omega) hlt, hz] at hpos
  exact nomatch hpos

theorem Chained.startBlk_in (hcap : d.capacity = capacity) (hi : 2 ≤ i) (hlt : i < tbl.length) :
    startBlk tbl i + 1 ≤ d.lba := by
  have hreserved : partitionReserved.toNat = 0x800000 := rfl
  obtain ⟨j, rfl⟩ : ∃ j, i = j + 1 := ⟨i - 1, by omega⟩
  have heq := h.ebrSector_eq hi hlt
  have hdev := h.onDevice j hlt
  have hone : (1 : UInt64).toNat = 1 := rfl
  have hblock : (512 : UInt64).toNat = 512 := rfl
  rw [le_iff_toNat_le, toNat_add, h.startBlk_toNat hi hlt, BlockDevice.lba, hcap,
    toNat_div, hone, hblock]
  omega

theorem Chained.first_in (hcap : d.capacity = capacity) : (0 : UInt64) + 1 ≤ d.lba := by
  have hcount := h.count
  have hin := h.startBlk_in hcap (i := 3) (by omega) (by omega)
  refine UInt64.le_trans ?_ hin
  have hsec := (h.sectors 3 (by omega)).1
  have hfirst : (0 + 1 : UInt64).toNat = 1 := rfl
  have hone : (1 : UInt64).toNat = 1 := rfl
  rw [le_iff_toNat_le, hfirst, toNat_add, h.startBlk_toNat (by omega) (by omega), ebrSector, hone]
  omega

/-! ## Writer -/

/-- The chain from entry `i` on, as it is on a device. -/
def HoldsChain (d : BlockDevice) (tbl : List Partitions) (i : Nat) : Prop :=
  ∀ j, i ≤ j → j < tbl.length → d.Holds (ebrSector tbl j) 1 (constructEbr tbl j)

/-- An address outside the EBRs from entry `i` on. -/
def OffChain (tbl : List Partitions) (i a : Nat) : Prop :=
  ∀ j, i ≤ j → j < tbl.length → a < 512 * ebrSector tbl j ∨ 512 * ebrSector tbl j + 512 ≤ a

theorem Chained.writeChain_off {a : Nat} (hi : 3 ≤ i) (hoff : OffChain tbl i a) (n : Nat) (d : BlockDevice) (ret : UInt64) :
    (writeChain tbl n i (startBlk tbl i) d ret).2.user a = d.user a := by
  have hout : ∀ j, i ≤ j → j < tbl.length → a < 512 * (startBlk tbl j).toNat ∨ 512 * (startBlk tbl j).toNat + 512 ≤ a := by
    intro j hij hj
    rw [h.startBlk_toNat (by omega) hj]
    exact hoff j hij hj
  exact writeChain_frame tbl n i _ d ret (.inr hi) (hout i (Nat.le_refl i)) fun j hij _ => hout j (Nat.le_of_lt hij)

/-- The loop from entry `i`: every later EBR is written. -/
theorem Chained.writeChain_ebr (n i : Nat) (d : BlockDevice) (hcap : d.capacity = capacity) (hi : 3 ≤ i)
    (hn : tbl.length ≤ i + n) : ∃ d', writeChain tbl n i (startBlk tbl i) d 1 = (1, d') ∧ HoldsChain d' tbl i := by
  induction n generalizing i d with
  | zero => exact ⟨d, rfl, fun j _ _ => by omega⟩
  | succ n ih =>
    by_cases hlt : i < tbl.length
    · obtain ⟨d1, hwrite, hcap1, (hwritten : d1.Holds _ 1 _)⟩ := mmcBwrite_holds (constructEbr tbl i)
        (h.startBlk_in hcap (by omega) hlt)
      obtain ⟨d', hrun, hchain⟩ := ih (i + 1) d1 (hcap1.trans hcap) (by omega) (by omega)
      refine ⟨d', ?_, fun j hij hj => ?_⟩
      · rw [writeChain, if_pos hlt, if_neg (by omega), if_neg (by omega)]
        dsimp only
        rw [hwrite]
        exact hrun
      · rcases Nat.lt_or_eq_of_le hij with hlater | rfl
        · exact hchain j hlater hj
        -- the later EBRs are behind this one
        rw [h.startBlk_toNat (by omega) hlt] at hwritten
        refine hwritten.congr fun a _ ha => ?_
        have hframe := h.writeChain_off (i := i + 1) (a := a) (by omega) (fun k hk hkl => ?_) n d1 1
        · rwa [hrun] at hframe
        · have hasc := h.ebrSector_lt (i := i) (j := k) (by omega) hk hkl
          omega
    · refine ⟨d, ?_, fun j _ _ => by omega⟩
      rw [writeChain, if_neg hlt]

/-- A whole update. -/
theorem Chained.updatePtblMbr_writes (d : BlockDevice) (hcap : d.capacity = capacity) :
    ∃ d', updatePtblMbr d tbl = (0, d') ∧ d'.Holds 0 1 (constructMbr tbl) ∧ HoldsChain d' tbl 3 := by
  have hcount := h.count
  obtain ⟨d1, hwrite, hcap1, (hwritten : d1.Holds _ 1 _)⟩ := mmcBwrite_holds (constructMbr tbl) (h.first_in hcap)
  obtain ⟨n, hn⟩ : ∃ n, tbl.length = n + 1 := ⟨tbl.length - 1, by omega⟩
  obtain ⟨d', hrun, hchain⟩ := h.writeChain_ebr n 3 d1 (hcap1.trans hcap) (Nat.le_refl 3) (by omega)
  refine ⟨d', ?_, hwritten.congr fun a _ ha => ?_, hchain⟩
  · have hall : writeChain tbl tbl.length 0 0 d 0 = (1, d') := by
      rw [hn, writeChain, if_pos (by omega), if_pos rfl, if_pos rfl]
      dsimp only
      rw [hwrite]
      exact hrun
    rw [updatePtblMbr, hall]
    rfl
  · have hframe := h.writeChain_off (a := a) (Nat.le_refl 3) (fun j hj hjl => ?_) n d1 1
    · rwa [hrun] at hframe
    · have hpos := h.ebrSector_pos hj hjl
      have hzero : (0 : UInt64).toNat = 0 := rfl
      omega

/-! ## Reader -/

/-- What the reader stores for an entry: no name, the type as mask. -/
def readBack (p : Partitions) : Partitions :=
  { zeroEntry with offset := p.offset, size := p.size, maskFlags := 0x83 }

omit h in
theorem sector_roundtrip (x : UInt64) (hmod : x.toNat % 512 = 0) (h : x.toNat / 512 < 2 ^ 31) :
    le32ToInt (x >>> 9).toUInt32 <<< 9 = x := by
  have hsector := toNat_shiftRight_nine x
  have hint := toNat_le32ToInt (x >>> 9) (by omega)
  apply toNat_inj.mp
  rw [toNat_shiftLeft_nine _ (by omega)]
  omega

omit h in
theorem div_eq_shiftRight (x : UInt64) : x / (512 : UInt64) = x >>> 9 := by
  apply toNat_inj.mp
  rw [toNat_shiftRight_nine, toNat_div]
  rfl

omit h in
theorem readEntry_unused (readOffset : UInt64) (s : ChainState) :
    readEntry readOffset s DosPartition.unused = s := rfl

theorem Chained.readEntry_primary (hi : i < 3) (s : ChainState) : readEntry 0 s (constructMbrEntry tbl i) =
      ⟨s.partitions ++ [readBack (entryAt tbl i)], s.primaryNum + 1, s.logicStart⟩ := by
  have hlt : i < tbl.length := Nat.lt_of_lt_of_le hi (Nat.le_trans (by decide) h.count)
  have hoff := sector_roundtrip _ (h.aligned i hlt).1 (h.sectors i hlt).1
  have hsize := sector_roundtrip _ (h.aligned i hlt).2 (h.sectors i hlt).2
  rw [constructMbrEntry, if_neg (Nat.ne_of_lt hi), readEntry, if_pos ⟨.inl rfl, rfl⟩]
  rw [UInt64.add_zero, hoff, hsize, if_pos rfl]
  rfl

omit h in
theorem readEntry_extended (s : ChainState) :
    readEntry 0 s (constructMbrEntry tbl 3) = { s with logicStart := startBlk tbl 3 } := rfl

/-- The entry of an EBR that describes its own partition. -/
theorem Chained.readEntry_first (hi : 3 ≤ i) (hlt : i < tbl.length) (s : ChainState) :
    readEntry (startBlk tbl i) s (constructEbr1stEntry tbl i) =
      ⟨s.partitions ++ [readBack (entryAt tbl i)], s.primaryNum, s.logicStart⟩ := by
  have hblk := h.startBlk_toNat (i := i) (by omega) hlt
  have heq := h.ebrSector_eq (i := i) (by omega) hlt
  have hsec := (h.sectors i hlt).1
  have hreserved : partitionReserved.toNat = 0x800000 := rfl
  have hgap : le32ToInt (partitionReserved >>> 9).toUInt32 = 0x4000 := by decide
  have hsum : (0x4000 + startBlk tbl i).toNat = 0x4000 + ebrSector tbl i := by
    rw [toNat_add, hblk]
    have hconst : (0x4000 : UInt64).toNat = 0x4000 := rfl
    omega
  have hoff : (0x4000 + startBlk tbl i) <<< 9 = (entryAt tbl i).offset := by
    apply toNat_inj.mp
    rw [toNat_shiftLeft_nine _ (by omega)]
    omega
  have hsize := sector_roundtrip _ (h.aligned i hlt).2 (h.sectors i hlt).2
  rw [constructEbr1stEntry, readEntry, if_pos ⟨.inl rfl, rfl⟩]
  rw [hgap, hoff, div_eq_shiftRight, hsize, if_neg (h.startBlk_ne hi hlt)]
  rfl

/-- The entry of an EBR that names the next one, relative to the first. -/
theorem Chained.second_start (hi : 3 ≤ i) (hlt : i + 1 < tbl.length) :
    startBlk tbl 3 + le32ToInt (constructEbr2ndEntry tbl i).start4 = startBlk tbl (i + 1) ∧
      le32ToInt (constructEbr2ndEntry tbl i).start4 ≠ 0 := by
  have hn := h.ebrSector_eq (i := i + 1) (by omega) hlt
  have hasc := h.ebrSector_lt (i := 3) (j := i + 1) (by omega) (by omega) hlt
  have hsec := (h.sectors (i + 1) hlt).1
  have hbase := h.gap_toNat (i := 3) (by omega) (by omega)
  have hnext := h.gap_toNat (i := i + 1) (by omega) hlt
  have hdiff : (((entryAt tbl (i + 1)).offset - partitionReserved -
      ((entryAt tbl 3).offset - partitionReserved)) >>> 9).toNat =
        ebrSector tbl (i + 1) - ebrSector tbl 3 := by
    rw [toNat_shiftRight_nine, toNat_sub_of_le _ _ (le_iff_toNat_le.mpr (by omega)), hbase, hnext]
    omega
  have hfield : (le32ToInt (constructEbr2ndEntry tbl i).start4).toNat =
      ebrSector tbl (i + 1) - ebrSector tbl 3 := by
    rw [constructEbr2ndEntry]
    rw [toNat_le32ToInt _ (by omega), hdiff]
  constructor
  · apply toNat_inj.mp
    rw [toNat_add, hfield, h.startBlk_toNat (by omega) (by omega), h.startBlk_toNat (by omega) hlt]
    omega
  · intro hz
    rw [hz] at hfield
    have hzero : (0 : UInt64).toNat = 0 := rfl
    omega

omit h in
theorem readEntry_second (readOffset : UInt64) (i : Nat) (s : ChainState) :
    readEntry readOffset s (constructEbr2ndEntry tbl i) =
      { s with logicStart := le32ToInt (constructEbr2ndEntry tbl i).start4 } := rfl

omit h in
theorem drop_eq_entryAt_cons (h : i < tbl.length) : tbl.drop i = entryAt tbl i :: tbl.drop (i + 1) := by
  rw [drop_eq_getElem_cons h, entryAt, getD_eq_getElem?_getD, getElem?_eq_getElem h]
  rfl

/-- The reader from the EBR of entry `i` on, with the entries before it already
stored. -/
theorem Chained.readChain_ebr (hcap : d.capacity = capacity) (hchain : HoldsChain d tbl 3) (fuel i : Nat) (hi : 3 ≤ i)
    (hlt : i < tbl.length) (hfuel : tbl.length ≤ i + fuel) (partitions : List Partitions)
    (hpart : partitions.length = i) : readChain d fuel (startBlk tbl i) (startBlk tbl 3) partitions 3 =
      some (partitions ++ (tbl.drop i).map readBack) := by
  induction fuel generalizing i partitions with
  | zero => omega
  | succ fuel ih =>
    have hrec : d.Holds (startBlk tbl i).toNat 1 (constructEbr tbl i) := by
      rw [h.startBlk_toNat (by omega) hlt]
      exact hchain i hi hlt
    rw [readChain_record (h.startBlk_in hcap (by omega) hlt) hrec
      (testBlockType_constructEbr tbl i) fuel _ partitions 3 _ rfl, partEntries_constructEbr,
      drop_eq_entryAt_cons hlt]
    simp only [foldl_cons, foldl_nil, readEntry_unused, h.readEntry_first hi hlt]
    by_cases hlast : i + 2 > tbl.length
    · have hend : tbl.drop (i + 1) = [] := drop_eq_nil_of_le (by omega)
      rw [if_pos hlast, readEntry_unused, if_pos rfl, hend]
      rfl
    obtain ⟨hnext, hne⟩ := h.second_start hi (by omega)
    rw [if_neg hlast, readEntry_second]
    rw [if_neg hne, if_neg (by simp [hpart]; omega), hnext,
      ih (i + 1) (by omega) (by omega) (by omega) _ (by simp [hpart])]
    simp

/-- The reader on a device that holds the MBR and the chain. -/
theorem Chained.constructPtblByMbr_eq (hcap : d.capacity = capacity) (hmbr : d.Holds 0 1 (constructMbr tbl))
    (hchain : HoldsChain d tbl 3) (hfuel : tbl.length ≤ fuel + 2) :
    constructPtblByMbr d fuel = some (tbl.map readBack) := by
  have hcount := h.count
  obtain ⟨fuel, rfl⟩ : ∃ n, fuel = n + 1 := ⟨fuel - 1, by omega⟩
  have hin : (0 : UInt64) + 1 ≤ d.lba := h.first_in hcap
  have hhead : tbl.map readBack = [readBack (entryAt tbl 0), readBack (entryAt tbl 1), readBack (entryAt tbl 2)] ++
        (tbl.drop 3).map readBack := by
    conv => lhs; rw [← drop_zero (l := tbl)]
    rw [drop_eq_entryAt_cons (by omega), drop_eq_entryAt_cons (by omega), drop_eq_entryAt_cons (by omega)]
    rfl
  rw [constructPtblByMbr, readChain_record hin hmbr (testBlockType_constructMbr tbl) fuel _ [] 0 _
    rfl, partEntries_constructMbr, hhead]
  simp only [foldl_cons, foldl_nil, h.readEntry_primary (i := 0) (by decide),
    h.readEntry_primary (i := 1) (by decide), h.readEntry_primary (i := 2) (by decide),
    readEntry_extended, nil_append, cons_append]
  rw [if_neg (h.startBlk_ne (Nat.le_refl 3) (by omega)), if_pos (by rfl)]
  exact h.readChain_ebr hcap hchain fuel 3 (Nat.le_refl 3) (by omega) (by omega) _ rfl

omit h in
theorem cmpEntries_readBack (tbl : List Partitions) : cmpEntries (tbl.map readBack) tbl = 0 := by
  induction tbl with
  | nil => rfl
  | cons p rest ih =>
    have hsame : cmpPartition (readBack p) p = 0 := by simp [cmpPartition, readBack]
    rw [map_cons, cmpEntries, hsame]
    exact ih

theorem Chained.checkPtblMbr_eq (hcap : d.capacity = capacity) (hmbr : d.Holds 0 1 (constructMbr tbl))
    (hchain : HoldsChain d tbl 3) (hfuel : tbl.length ≤ fuel + 2) : checkPtblMbr d fuel tbl = some 0 := by
  rw [checkPtblMbr, h.constructPtblByMbr_eq hcap hmbr hchain hfuel, Option.map_some, cmpIptbl,
    if_neg (by simp), cmpEntries_readBack]

end

end Chain

/-! ## The next initialisation -/

/-- Behind a first gap of 32 MiB the third gap ends at 48 MiB or later. -/
theorem offset_above {part : Partitions} {rest tbl : List Partitions}
    (h : calculateOffset main capacity bottom (part :: rest) = (0, tbl)) (hfit : SectorsFit tbl)
    (hgap : firstGap part = mmcBootPartitionReserved) (hi : 3 ≤ i) (hlt : i < tbl.length) :
    0x3000000 ≤ (entryAt tbl i).offset.toNat := by
  have hreserved : partitionReserved.toNat = 0x800000 := rfl
  have hboot : mmcBootPartitionReserved.toNat = 0x2000000 := rfl
  have hoff := (layout_offsets h hfit).2
  induction i with
  | zero => omega
  | succ i ih =>
    have hnext := (hoff i hlt).1
    rw [if_neg (by omega), extent] at hnext
    rcases Nat.lt_or_eq_of_le hi with hlater | heq
    · omega
    obtain rfl : i = 2 := by omega
    have h1 := (hoff 0 (by omega)).1
    have h2 := (hoff 1 (by omega)).1
    rw [if_pos rfl, hgap, extent] at h1
    rw [if_neg (by decide), extent] at h2
    simp only [Nat.reduceAdd] at h1 h2 hnext ⊢
    omega

/-- The table stage leaves the boot records of the table it ends with alone. -/
theorem tableStage_keeps_chain {s : BootState} {dtb : Option (List Partitions)} {t : TableStage}
    (hinh : InhReady s.device.capacity s.inh) (h : tableStage s dtb = some t) (hout : t.out = false)
    (hfit : SectorsFit t.ept) (hmbr : s.device.Holds 0 1 (constructMbr t.ept)) (hchain : HoldsChain s.device t.ept 3) :
    t.state.device.capacity = s.device.capacity ∧
      t.state.device.Holds 0 1 (constructMbr t.ept) ∧ HoldsChain t.state.device t.ept 3 := by
  cases dtb with
  | none =>
    rw [tableStage_none h]
    exact ⟨rfl, hmbr, hchain⟩
  | some table =>
    obtain ⟨ept, hcomp, hlay, _⟩ := tableStage_some h hout
    obtain ⟨q, rest, hq, hgap⟩ := hinh.firstGap_eq hcomp
    obtain ⟨hcap, hframe⟩ := tableStage_frame hinh h hout
    rw [hq] at hlay
    refine ⟨hcap, hmbr.congr fun a _ ha => hframe a (by omega), fun j hj hjl => ?_⟩
    have habove := offset_above hlay hfit hgap hj hjl
    have hreserved : partitionReserved.toNat = 0x800000 := rfl
    have hsector : 0x14000 ≤ ebrSector t.ept j := by
      unfold ebrSector
      omega
    exact (hchain j hj hjl).congr fun a ha _ => hframe a (by omega)

theorem Chained.next_init {tbl : List Partitions} (hchained : Chained d.capacity tbl) (hfit : SectorsFit tbl)
    (hmbr : d.Holds 0 1 (constructMbr tbl)) (hchain : HoldsChain d tbl 3) (hfuel : tbl.length ≤ fuel + 2)
    (gxlOrLater : Bool) {s : BootState} (hs : s.device = d) (hinh : InhReady d.capacity s.inh)
    {dtb : Option (List Partitions)} {t : TableStage} (ht : tableStage s dtb = some t) (hept : t.ept = tbl) :
    mmcDeviceInit gxlOrLater fuel s dtb = some ⟨t.ret, t.state, t.ept, t.rsvUpdated, false⟩ := by
  subst hs hept
  rw [mmcDeviceInit, ht, Option.bind_some, mbrStage]
  by_cases hskip : t.out = true ∨ ¬ gxlOrLater = true
  · rw [if_pos hskip]
  have hout : t.out = false := by
    cases hb : t.out
    · rfl
    · exact absurd (.inl hb) hskip
  obtain ⟨hcap, hmbr', hchain'⟩ :=
    tableStage_keeps_chain hinh ht hout hfit hmbr hchain
  rw [if_neg hskip, hchained.checkPtblMbr_eq hcap hmbr' hchain' hfuel]
  rfl

/-- Writing the boot records of an accepted table and reading them back gives the
count, the offsets and the sizes of the table; a later run that ends with the
same table leaves them alone. -/
theorem mbr_chain_round_trip {main bottom : Bool} {itbl tbl : List Partitions} (d : BlockDevice)
    (h : calculateOffset main d.capacity bottom itbl = (0, tbl)) (hcount : 4 ≤ tbl.length) (hwhole : WholeSectors tbl)
    (hfit : SectorsFit tbl) : ∃ d', updatePtblMbr d tbl = (0, d') ∧ ∀ fuel, tbl.length ≤ fuel + 2 →
      (∃ back, constructPtblByMbr d' fuel = some back ∧ back.length = tbl.length ∧
        ∀ i, i < tbl.length → (entryAt back i).offset = (entryAt tbl i).offset ∧
          (entryAt back i).size = (entryAt tbl i).size) ∧ checkPtblMbr d' fuel tbl = some 0 ∧
      ∀ (gxlOrLater : Bool) (s : BootState) (dtb : Option (List Partitions)) (t : TableStage),
        s.device = d' → InhReady d.capacity s.inh → tableStage s dtb = some t → t.ept = tbl →
          ∃ r, mmcDeviceInit gxlOrLater fuel s dtb = some r ∧ r.mbrUpdated = false := by
  have hchained := chained_of_layout h hcount hfit hwhole
  obtain ⟨d', hupdate, hmbr, hchain⟩ := hchained.updatePtblMbr_writes d rfl
  have hcap := updatePtblMbr_capacity d tbl
  rw [hupdate] at hcap
  rw [← hcap] at hchained
  refine ⟨d', hupdate, fun fuel hfuel => ⟨⟨_, hchained.constructPtblByMbr_eq rfl hmbr hchain hfuel,
    by simp, fun i hi => ?_⟩, hchained.checkPtblMbr_eq rfl hmbr hchain hfuel, ?_⟩⟩
  · have hback : entryAt (tbl.map readBack) i = readBack (entryAt tbl i) := by
      simp [entryAt, hi]
    rw [hback]
    exact ⟨rfl, rfl⟩
  · intro gxlOrLater s dtb t hs hinh ht hept
    rw [← hcap] at hinh
    exact ⟨_, hchained.next_init hfit hmbr hchain hfuel gxlOrLater hs hinh ht hept, rfl⟩

/-- A device tree with "cache" of 16 MiB and "data" on the rest. -/
def sampleDtb : List Partitions :=
  [⟨#v[0x63, 0x61, 0x63, 0x68, 0x65, 0, 0, 0, 0, 0, 0, 0, 0, 0, 0, 0], 0x1000000, 0, 0, 0⟩,
    ⟨#v[0x64, 0x61, 0x74, 0x61, 0, 0, 0, 0, 0, 0, 0, 0, 0, 0, 0, 0], fillMarker, 0, 0, 0⟩]

/-- An empty device of 4 GiB. -/
def sampleDevice : BlockDevice := ⟨zeroed, 0x100000000⟩

/-- The sample table as it is laid out on that device. -/
def sampleTable : List Partitions :=
  (calculateOffset true 0x100000000 true (emmcPartitionTable ++ sampleDtb)).2

theorem mbr_chain_round_trip_sample : (updatePtblMbr sampleDevice sampleTable).1 = 0 := by
  obtain ⟨d', hupdate, _⟩ := @mbr_chain_round_trip true true (emmcPartitionTable ++ sampleDtb)
    sampleTable sampleDevice (by decide) (by decide) (by decide) (by decide)
  rw [hupdate]

end AmlogicV901d.Guarantees.MbrRoundTrip
