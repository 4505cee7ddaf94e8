import Mathlib.Data.Finite.Prod
import AmlogicV901d.Lib.Orbit
import AmlogicV901d.Source.Emmc.Mbr

/-!
# Reading a chain of boot records

`_construct_ptbl_by_mbr` goes from boot record to boot record as the extended entries on the
disk say, and appends the Linux entries of each to an array of 32. Where it goes next depends
on the record, the start of the extended partition, and whether a logical partition was found
already. The reader ends exactly if the disk leads it to no such position twice; nothing in it
bounds the number of entries.
-/
namespace AmlogicV901d.Guarantees.BootRecordChain
open Lib.ByteMemory Lib.Orbit Source.Emmc List

variable {readOffset externedStart : UInt64} {partitions : List Partitions} {primaryNum : Nat}

variable {d : BlockDevice}

/-- `DOS_PARTITION_COUNT` -/
def dosPartitionCount : Nat := 32

/-! ## The chain on a disk -/

/-- The entries of the boot record in a sector, if there is one. -/
def recordAt (d : BlockDevice) (readOffset : UInt64) : Option (List DosPartition) :=
  let (ret, buffer) := mmcBread d readOffset 1 zeroed
  if ret ≠ 1 then none
  else if testBlockType buffer ≠ 0 ∧ testBlockType buffer ≠ 1 then none
  else some (partEntries buffer)

def isLinux (pt : DosPartition) : Bool := (pt.bootInd = 0x00 ∨ pt.bootInd = 0x80) ∧ pt.sysInd = 0x83

def isExtended (pt : DosPartition) : Bool := pt.bootInd = 0x00 ∧ pt.sysInd = 0x05

/-- Where the last extended entry of a record points to. -/
def linkOf (entries : List DosPartition) : UInt64 :=
  entries.foldl (fun link pt => if isExtended pt then le32ToInt pt.start4 else link) 0

/-- The number of Linux entries in a sector. -/
def countAt (d : BlockDevice) (readOffset : UInt64) : Nat :=
  match recordAt d readOffset with
  | none => 0
  | some entries => entries.countP isLinux

structure Position where
  readOffset : UInt64
  externedStart : UInt64
  /-- A logical partition was found before. -/
  logical : Bool
  deriving DecidableEq

/-- Whether a logical partition was found, after a record with `count` Linux entries. -/
def Position.logicalAfter (pos : Position) (count : Nat) : Bool := pos.logical || (pos.readOffset ≠ 0 && 0 < count)

/-- The position after a record with this link. -/
def Position.follow (pos : Position) (logical : Bool) (link : UInt64) : Position :=
  if logical then ⟨pos.externedStart + link, pos.externedStart, true⟩ else ⟨link, link, false⟩

/-- Where the disk leads to from a position. -/
def next (d : BlockDevice) (pos : Position) : Option Position :=
  match recordAt d pos.readOffset with
  | none => none
  | some entries =>
    if linkOf entries = 0 then none
    else some (pos.follow (pos.logicalAfter (entries.countP isLinux)) (linkOf entries))

def start : Position := ⟨0, 0, false⟩

/-- The number of Linux entries in the first `n` records from a position on. -/
def total (d : BlockDevice) : Nat → Position → Nat
  | 0, _ => 0
  | n + 1, pos =>
    countAt d pos.readOffset +
      match next d pos with
      | none => 0
      | some pos => total d n pos

/-! ## One record -/

theorem foldl_readEntry (readOffset : UInt64) (entries : List DosPartition) (s : ChainState) :
    (entries.foldl (readEntry readOffset) s).partitions.length = s.partitions.length + entries.countP isLinux ∧
      (entries.foldl (readEntry readOffset) s).primaryNum =
        s.primaryNum + (if readOffset = 0 then entries.countP isLinux else 0) ∧
      (entries.foldl (readEntry readOffset) s).logicStart =
        entries.foldl (fun link pt => if isExtended pt then le32ToInt pt.start4 else link) s.logicStart := by
  induction entries generalizing s with
  | nil => simp
  | cons pt entries ih =>
    obtain ⟨hlen, hprimary, hlink⟩ := ih (readEntry readOffset s pt)
    rw [foldl_cons, foldl_cons, countP_cons, hlen, hprimary, hlink]
    by_cases hlinux : (pt.bootInd = 0x00 ∨ pt.bootInd = 0x80) ∧ pt.sysInd = 0x83
    · have hext : isExtended pt = false := by simp [isExtended, hlinux.2]
      have his : isLinux pt = true := by simpa [isLinux] using hlinux
      simp only [readEntry, if_pos hlinux, hext, his]
      refine ⟨?_, ?_, rfl⟩
      · simp
        omega
      · split <;> simp
        omega
    · have his : isLinux pt = false := by simpa [isLinux] using hlinux
      by_cases hext : pt.bootInd = 0x00 ∧ pt.sysInd = 0x05
      · have hext' : isExtended pt = true := by simpa [isExtended] using hext
        simp [readEntry, if_neg hlinux, if_pos hext, his, hext']
      · have hext' : isExtended pt = false := by simpa [isExtended] using hext
        simp [readEntry, if_neg hlinux, if_neg hext, his, hext']

theorem readChain_succ (fuel : Nat) : readChain d (fuel + 1) readOffset externedStart partitions primaryNum =
      match recordAt d readOffset with
      | none => some partitions
      | some entries =>
        let s := entries.foldl (readEntry readOffset) ⟨partitions, primaryNum, 0⟩
        if s.logicStart = 0 then some s.partitions
        else readChain d fuel (if s.partitions.length = s.primaryNum then s.logicStart else externedStart + s.logicStart)
          (if s.partitions.length = s.primaryNum then s.logicStart else externedStart) s.partitions s.primaryNum := by
  rw [readChain, recordAt]
  dsimp only
  split
  · rfl
  split
  · rfl
  dsimp only
  generalize foldl _ _ _ = s
  by_cases heq : s.partitions.length = s.primaryNum <;> simp only [heq, if_true, if_false]

/-! ## The reader follows the chain -/

/-- Where the reader is, in terms of its counters. -/
def positionOf (readOffset externedStart : UInt64) (partitions : List Partitions) (primaryNum : Nat) : Position :=
  ⟨readOffset, externedStart, decide (partitions.length ≠ primaryNum)⟩

theorem logicalAfter_positionOf {count : Nat}
    {s : ChainState} (hprimary : primaryNum ≤ partitions.length) (hlen : s.partitions.length = partitions.length + count)
    (hprim : s.primaryNum = primaryNum + if readOffset = 0 then count else 0) :
    (positionOf readOffset externedStart partitions primaryNum).logicalAfter count = decide (s.partitions.length ≠ s.primaryNum) := by
  rw [hlen, hprim, Bool.eq_iff_iff]
  simp only [Position.logicalAfter, positionOf, Bool.or_eq_true, Bool.and_eq_true, decide_eq_true_eq]
  split <;> simp_all
  omega

/-- The reader ends within `fuel` records exactly if the chain does, and has stored what is in the records. -/
theorem readChain_spec (fuel : Nat) (readOffset externedStart : UInt64) (partitions : List Partitions) (primaryNum : Nat)
    (hprimary : primaryNum ≤ partitions.length) {pos : Position}
    (hpos : positionOf readOffset externedStart partitions primaryNum = pos) :
    (visit (next d) pos fuel = none ∧ ∃ tbl, readChain d fuel readOffset externedStart partitions primaryNum = some tbl ∧
        tbl.length = partitions.length + total d fuel pos) ∨
      (visit (next d) pos fuel ≠ none ∧ readChain d fuel readOffset externedStart partitions primaryNum = none) := by
  induction fuel generalizing readOffset externedStart partitions primaryNum pos with
  | zero => exact .inr ⟨by simp [visit], rfl⟩
  | succ fuel ih =>
    have hoffset : pos.readOffset = readOffset := congrArg Position.readOffset hpos.symm
    rw [visit_succ, total, countAt, hoffset, readChain_succ]
    cases hrecord : recordAt d readOffset with
    | none =>
      left
      simp [next, hoffset, hrecord]
    | some entries =>
      obtain ⟨hlen, hprim, hlink⟩ := foldl_readEntry readOffset entries ⟨partitions, primaryNum, 0⟩
      dsimp only
      generalize entries.foldl (readEntry readOffset) ⟨partitions, primaryNum, 0⟩ = s at *
      have hlinkOf : s.logicStart = linkOf entries := hlink
      simp only at hlen hprim
      have hlogical : pos.logicalAfter (entries.countP isLinux) = _ := hpos ▸ logicalAfter_positionOf hprimary hlen hprim
      have hnext : next d pos = if s.logicStart = 0 then none
          else some (pos.follow (decide (s.partitions.length ≠ s.primaryNum)) s.logicStart) := by
        simp only [next, hoffset, hrecord, hlogical, hlinkOf]
      rw [hnext]
      by_cases hzero : s.logicStart = 0
      · left
        rw [if_pos hzero, if_pos hzero]
        exact ⟨rfl, s.partitions, rfl, hlen⟩
      have hbound : s.primaryNum ≤ s.partitions.length := by
        rw [hlen, hprim]
        split <;> omega
      have hfollow : positionOf (if s.partitions.length = s.primaryNum then s.logicStart else externedStart + s.logicStart)
          (if s.partitions.length = s.primaryNum then s.logicStart else externedStart) s.partitions s.primaryNum =
            pos.follow (decide (s.partitions.length ≠ s.primaryNum)) s.logicStart := by
        by_cases heq : s.partitions.length = s.primaryNum <;> simp [Position.follow, positionOf, heq, ← hpos]
      rw [if_neg hzero, if_neg hzero]
      rcases ih _ _ s.partitions s.primaryNum hbound hfollow with ⟨hend, tbl, htbl, htotal⟩ | hgo
      · exact .inl ⟨hend, tbl, htbl, by rw [htotal, hlen, Nat.add_assoc]⟩
      · exact .inr hgo

/-! ## Reading any disk -/

theorem total_le_of_ends {n : Nat} {pos : Position} (hend : visit (next d) pos n = none) (k : Nat) : total d k pos ≤ total d n pos := by
  induction n generalizing pos k with
  | zero => simp [visit] at hend
  | succ n ih =>
    cases k with
    | zero => exact Nat.zero_le _
    | succ k =>
      rw [visit_succ] at hend
      apply Nat.add_le_add_left
      cases hnext : next d pos with
      | none => exact Nat.le_refl 0
      | some pos' =>
        rw [hnext, Option.bind_some] at hend
        exact ih hend k

instance finiteUInt64 : Finite UInt64 := Finite.of_injective UInt64.toFin fun _ _ => UInt64.toFin_inj.mp

instance : Finite Position :=
  Finite.of_injective (fun pos => (pos.readOffset, pos.externedStart, pos.logical)) fun a b h => by
    cases a
    cases b
    simpa using h

/-- The reader ends with at most 32 entries, on a disk whose chain leads to no position twice and whose records have at most 32
Linux entries together, and on no other. -/
theorem chain_read_iff (d : BlockDevice) :
    (∃ fuel tbl, constructPtblByMbr d fuel = some tbl ∧ tbl.length ≤ dosPartitionCount) ↔
      NoReturn (next d) start ∧ ∀ n, total d n start ≤ dosPartitionCount := by
  have hspec : ∀ fuel, _ := fun fuel => @readChain_spec d fuel 0 0 [] 0 (Nat.le_refl 0) _ rfl
  have hstart : positionOf 0 0 [] 0 = start := by simp [positionOf, start]
  simp only [hstart, length_nil, Nat.zero_add] at hspec
  constructor
  · rintro ⟨fuel, tbl, hread, hlen⟩
    rcases hspec fuel with ⟨hend, tbl', hread', htotal⟩ | ⟨-, hnone⟩
    · obtain rfl : tbl = tbl' := Option.some.inj (hread.symm.trans hread')
      refine ⟨ends_iff.mp ⟨fuel, hend⟩, fun n => ?_⟩
      exact Nat.le_trans (total_le_of_ends hend n) (htotal ▸ hlen)
    · rw [constructPtblByMbr, hnone] at hread
      cases hread
  · rintro ⟨hno, hbound⟩
    obtain ⟨fuel, hend⟩ := ends_iff.mpr hno
    rcases hspec fuel with ⟨-, tbl, hread, htotal⟩ | ⟨hgo, -⟩
    · exact ⟨fuel, tbl, hread, htotal ▸ hbound fuel⟩
    · exact absurd hend hgo

/-! ## A chain that comes back -/

/-- In every sector a boot record with one Linux entry and one extended entry, which points to sector 5 from the first
sector and one sector past the start of the extended partition from the others. -/
def loopedUser : Memory := fun a =>
  if a % 512 = 0x1fe then 0x55
  else if a % 512 = 0x1ff then 0xaa
  else if a % 512 = 0x1c2 then 0x83
  else if a % 512 = 0x1d2 then 0x05
  else if a % 512 = 0x1d6 then (if a < 512 then 5 else 1)
  else 0

def loopedDisk : BlockDevice := ⟨loopedUser, 0x100000⟩

/-- Sector 6 leads to itself; the reader does not end, and has stored more than 32 entries after 33 records. -/
theorem looped_disk_overflows :
    visit (next loopedDisk) start 2 = some ⟨6, 5, true⟩ ∧ visit (next loopedDisk) start 3 = some ⟨6, 5, true⟩ ∧
      total loopedDisk 33 start = 33 ∧ ¬ ∃ fuel tbl, constructPtblByMbr loopedDisk fuel = some tbl := by
  have htwo : visit (next loopedDisk) start 2 = some ⟨6, 5, true⟩ := by decide +kernel
  have hthree : visit (next loopedDisk) start 3 = some ⟨6, 5, true⟩ := by decide +kernel
  refine ⟨htwo, hthree, by decide +kernel, ?_⟩
  rintro ⟨fuel, tbl, hread⟩
  rcases @readChain_spec loopedDisk fuel 0 0 [] 0 (Nat.le_refl 0) _ rfl with ⟨hend, -⟩ | ⟨-, hnone⟩
  · have hsame := noReturn_of_ends hend 2 3 ⟨6, 5, true⟩ htwo hthree
    cases hsame
  · rw [constructPtblByMbr, hnone] at hread
    cases hread

end AmlogicV901d.Guarantees.BootRecordChain
