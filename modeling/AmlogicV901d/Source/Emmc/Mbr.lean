import AmlogicV901d.Source.Emmc.BlockDevice
import AmlogicV901d.Source.Emmc.Partition

/-!
# The MBR and the chain of EBRs

`bl33/drivers/mmc/aml_emmc_partition.c:580-648, 726-1021` and `emmc_partitions.h:176-212`.

A boot record is a block: four entries of 16 bytes at 0x1be and the bytes 0x55,
0xaa at 0x1fe. `CONFIG_PTBL_MBR` is on, so `_cmp_partition` compares neither names
nor masks. Allocations succeed.
-/
namespace AmlogicV901d.Source.Emmc
open Lib.ByteMemory

variable {m m' : Memory} {p a : Nat} {e : DosPartition}

/-- What the code uses of `struct dos_partition`; the cylinder, head and sector
bytes are never touched. -/
structure DosPartition where
  bootInd : UInt8
  sysInd : UInt8
  start4 : UInt32
  size4 : UInt32
  deriving DecidableEq, Repr

def DosPartition.loadAt (m : Memory) (p : Nat) : DosPartition :=
  ⟨m p, m (p + 4), loadU32 m (p + 8), loadU32 m (p + 12)⟩

def DosPartition.storeAt (m : Memory) (p : Nat) (e : DosPartition) : Memory :=
  let m := store m p [e.bootInd]
  let m := store m (p + 4) [e.sysInd]
  let m := storeU32 m (p + 8) e.start4
  storeU32 m (p + 12) e.size4

def dosPartTblOffset : Nat := 0x1be

def dosPartMagicOffset : Nat := 0x1fe

def dosPbrFstypeOffset : Nat := 0x36

def dosPbr32FstypeOffset : Nat := 0x52

/-- "FAT32" -/
def fat32 : List UInt8 := [0x46, 0x41, 0x54, 0x33, 0x32]

/-- Where `part_entry[i]` is. -/
def entryPos (i : Nat) : Nat := dosPartTblOffset + 16 * i

def partEntries (buffer : Memory) : List DosPartition :=
  (List.range 4).map fun i => DosPartition.loadAt buffer (entryPos i)

/-- `le32_to_int`, widened to 64 bits with its sign. -/
def le32ToInt (w : UInt32) : UInt64 := UInt64.ofInt w.toBitVec.toInt

/-- An entry of a zeroed array. -/
def zeroEntry : Partitions := ⟨Vector.replicate 16 0, 0, 0, 0, 0⟩

/-- `partitions[i]` of a table whose array is zero behind `count`. -/
def entryAt (tbl : List Partitions) (i : Nat) : Partitions := tbl.getD i zeroEntry

/-! ## Comparison -/

def cmpPartition (dst src : Partitions) : Int :=
  let ret := if dst.size ≠ src.size then -3 else 0
  if dst.offset ≠ src.offset then -4 else ret

def cmpEntries : List Partitions → List Partitions → Int
  | d :: ds, s :: ss => let ret := cmpPartition d s; if ret ≠ 0 then ret else cmpEntries ds ss
  | _, _ => 0

def cmpIptbl (dst src : List Partitions) : Int :=
  if dst.length ≠ src.length then -1 else cmpEntries dst src

/-! ## Reader -/

/-- 0 for an MBR, 1 for a PBR. All three rounds of the loop look at the first
entry. -/
def testBlockType (buffer : Memory) : Int :=
  if buffer dosPartMagicOffset ≠ 0x55 ∨ buffer (dosPartMagicOffset + 1) ≠ 0xaa then -1
  else if buffer dosPartTblOffset ≠ 0 ∧ buffer dosPartTblOffset ≠ 0x80 then
    if load buffer dosPbrFstypeOffset 3 = fat32.take 3 ∨ load buffer dosPbr32FstypeOffset 5 = fat32 then 1
    else -1
  else 0

structure ChainState where
  partitions : List Partitions
  primaryNum : Nat
  logicStart : UInt64
  deriving DecidableEq, Repr

/-- One entry of a boot record. -/
def readEntry (readOffset : UInt64) (s : ChainState) (pt : DosPartition) : ChainState :=
  if (pt.bootInd = 0x00 ∨ pt.bootInd = 0x80) ∧ pt.sysInd = 0x83 then
    { s with
      partitions := s.partitions ++ [{ zeroEntry with
        offset := (le32ToInt pt.start4 + readOffset) <<< 9
        size := le32ToInt pt.size4 <<< 9
        maskFlags := pt.sysInd.toUInt32 }]
      primaryNum := if readOffset = 0 then s.primaryNum + 1 else s.primaryNum }
  else if pt.bootInd = 0x00 ∧ pt.sysInd = 0x05 then { s with logicStart := le32ToInt pt.start4 }
  else s

/-- The chain from `readOffset` on, for at most `fuel` boot records. -/
def readChain (d : BlockDevice) : Nat → UInt64 → UInt64 → List Partitions → Nat → Option (List Partitions)
  | 0, _, _, _, _ => none
  | fuel + 1, readOffset, externedStart, partitions, primaryNum =>
    let (ret, buffer) := mmcBread d readOffset 1 zeroed
    if ret ≠ 1 then some partitions
    else if testBlockType buffer ≠ 0 ∧ testBlockType buffer ≠ 1 then some partitions
    else
      let s := (partEntries buffer).foldl (readEntry readOffset) ⟨partitions, primaryNum, 0⟩
      if s.logicStart = 0 then some s.partitions
      else if s.partitions.length = s.primaryNum then
        readChain d fuel s.logicStart s.logicStart s.partitions s.primaryNum
      else readChain d fuel (externedStart + s.logicStart) externedStart s.partitions s.primaryNum

def constructPtblByMbr (d : BlockDevice) (fuel : Nat) : Option (List Partitions) :=
  readChain d fuel 0 0 [] 0

def checkPtblMbr (d : BlockDevice) (fuel : Nat) (ept : List Partitions) : Option Int :=
  (constructPtblByMbr d fuel).map (cmpIptbl · ept)

/-! ## Writer -/

def constructEbr1stEntry (tbl : List Partitions) (partNum : Nat) : DosPartition where
  bootInd := 0x00
  sysInd := 0x83
  start4 := (partitionReserved >>> 9).toUInt32
  size4 := ((entryAt tbl partNum).size / 512).toUInt32

def constructEbr2ndEntry (tbl : List Partitions) (partNum : Nat) : DosPartition where
  bootInd := 0x00
  sysInd := 0x05
  start4 := (((entryAt tbl (partNum + 1)).offset - partitionReserved -
    ((entryAt tbl 3).offset - partitionReserved)) >>> 9).toUInt32
  size4 := (((entryAt tbl (partNum + 1)).size + partitionReserved) >>> 9).toUInt32

/-- Every round of the loop assigns, so the last size stays. -/
def externedSize (tbl : List Partitions) : UInt64 :=
  (tbl.drop 3).foldl (fun _ p => p.size >>> (9 : UInt64)) 0

def constructMbrEntry (tbl : List Partitions) (partNum : Nat) : DosPartition :=
  if partNum = 3 then
    ⟨0x00, 0x05, (((entryAt tbl 3).offset - partitionReserved) >>> 9).toUInt32, (externedSize tbl).toUInt32⟩
  else
    ⟨0x00, 0x83, ((entryAt tbl partNum).offset >>> 9).toUInt32, ((entryAt tbl partNum).size >>> 9).toUInt32⟩

def putMagic (m : Memory) : Memory := store m dosPartMagicOffset [0x55, 0xaa]

def constructMbr (tbl : List Partitions) : Memory :=
  putMagic ((List.range 4).foldl (fun m i => DosPartition.storeAt m (entryPos i) (constructMbrEntry tbl i)) zeroed)

def constructEbr (tbl : List Partitions) (partNum : Nat) : Memory :=
  let m := store zeroed dosPbr32FstypeOffset fat32
  let m := DosPartition.storeAt m (entryPos 0) (constructEbr1stEntry tbl partNum)
  let m :=
    if partNum + 2 > tbl.length then m
    else DosPartition.storeAt m (entryPos 1) (constructEbr2ndEntry tbl partNum)
  putMagic m

/-- `start_blk` is a 32-bit int. -/
def startBlk (tbl : List Partitions) (i : Nat) : UInt64 :=
  le32ToInt (((entryAt tbl i).offset - partitionReserved) >>> 9).toUInt32

/-- The loop from index `i`, for at most `n` more rounds. -/
def writeChain (tbl : List Partitions) : Nat → Nat → UInt64 → BlockDevice → UInt64 → UInt64 × BlockDevice
  | 0, _, _, d, ret => (ret, d)
  | n + 1, i, blk, d, ret =>
    if i < tbl.length then
      let record := if i = 0 then constructMbr tbl else constructEbr tbl i
      let i := if i = 0 then 3 else i + 1
      let (ret, d) := mmcBwrite d blk 1 record
      if ret ≠ 1 then (ret, d) else writeChain tbl n i (startBlk tbl i) d ret
    else (ret, d)

/-- Returns `!ret` of the last write. The index grows in every round, so `count`
rounds are enough. -/
def updatePtblMbr (d : BlockDevice) (tbl : List Partitions) : Int × BlockDevice :=
  let (ret, d) := writeChain tbl tbl.length 0 0 d 0
  (if ret = 0 then 1 else 0, d)

/-! ## Sector numbers -/

theorem toNat_shiftRight_nine (x : UInt64) : (x >>> 9).toNat = x.toNat / 512 := by
  simp [Nat.shiftRight_eq_div_pow]

theorem toNat_shiftLeft_nine (x : UInt64) (h : x.toNat * 512 < 2 ^ 64) : (x <<< 9).toNat = x.toNat * 512 := by
  rw [UInt64.toNat_shiftLeft]
  simp only [UInt64.reduceToNat, Nat.reduceMod, Nat.shiftLeft_eq, Nat.reducePow]
  exact Nat.mod_eq_of_lt h

theorem toNat_le32ToInt (x : UInt64) (h : x.toNat < 2 ^ 31) : (le32ToInt x.toUInt32).toNat = x.toNat := by
  have hw : x.toUInt32.toNat = x.toNat := by
    rw [UInt64.toNat_toUInt32]
    omega
  have hint : x.toUInt32.toBitVec.toInt = (x.toNat : Int) := by
    rw [BitVec.toInt_eq_toNat_of_lt] <;> simp only [UInt32.toNat_toBitVec, hw]
    omega
  rw [le32ToInt, hint, UInt64.ofInt]
  have hmod : ((x.toNat : Int) % 2 ^ 64).toNat = x.toNat := by omega
  rw [hmod, UInt64.ofNat_toNat]

/-! ## Entries and boot records -/

open DosPartition

theorem DosPartition.loadAt_congr (h : ∀ i, i < 16 → m' (p + i) = m (p + i)) :
    loadAt m' p = loadAt m p := by
  have h8 : loadU32 m' (p + 8) = loadU32 m (p + 8) :=
    loadU32_congr fun i hi => by rw [Nat.add_assoc]; exact h (8 + i) (by omega)
  have h12 : loadU32 m' (p + 12) = loadU32 m (p + 12) :=
    loadU32_congr fun i hi => by rw [Nat.add_assoc]; exact h (12 + i) (by omega)
  rw [loadAt, loadAt, h8, h12, h 4 (by omega)]
  have h0 : m' p = m p := h 0 (by omega)
  rw [h0]

theorem DosPartition.storeAt_outside (h : a < p ∨ p + 16 ≤ a) : DosPartition.storeAt m p e a = m a := by
  unfold storeAt
  rw [storeU32_outside (by omega), storeU32_outside (by omega),
    store_outside (by simp; omega), store_outside (by simp; omega)]

theorem DosPartition.loadAt_storeAt (m : Memory) (p : Nat) (e : DosPartition) :
    loadAt (storeAt m p e) p = e := by
  unfold storeAt
  dsimp only
  generalize hm1 : store m p [e.bootInd] = m1
  generalize hm2 : store m1 (p + 4) [e.sysInd] = m2
  generalize hm3 : storeU32 m2 (p + 8) e.start4 = m3
  have hboot : storeU32 m3 (p + 12) e.size4 p = e.bootInd := by
    rw [storeU32_outside (by omega), ← hm3, storeU32_outside (by omega), ← hm2,
      store_outside (by omega), ← hm1, store_inside (by omega) (by simp)]
    simp
  have hsys : storeU32 m3 (p + 12) e.size4 (p + 4) = e.sysInd := by
    rw [storeU32_outside (by omega), ← hm3, storeU32_outside (by omega), ← hm2, store_inside (by omega) (by simp)]
    simp
  have hstart : loadU32 (storeU32 m3 (p + 12) e.size4) (p + 8) = e.start4 := by
    rw [loadU32_congr (m := m3) (fun i hi => storeU32_outside (by omega)), ← hm3, loadU32_storeU32]
  unfold loadAt
  rw [hboot, hsys, hstart, loadU32_storeU32]

theorem partEntries_congr (h : ∀ a, a < 512 → m' a = m a) : partEntries m' = partEntries m := by
  apply List.map_congr_left
  intro i hi
  have hlt := List.mem_range.mp hi
  refine loadAt_congr fun k hk => h _ ?_
  simp only [entryPos, dosPartTblOffset]
  omega

theorem testBlockType_congr (h : ∀ a, a < 512 → m' a = m a) : testBlockType m' = testBlockType m := by
  have hfat : load m' dosPbrFstypeOffset 3 = load m dosPbrFstypeOffset 3 :=
    load_congr fun i hi => h _ (by simp only [dosPbrFstypeOffset]; omega)
  have hfat32 : load m' dosPbr32FstypeOffset 5 = load m dosPbr32FstypeOffset 5 :=
    load_congr fun i hi => h _ (by simp only [dosPbr32FstypeOffset]; omega)
  unfold testBlockType
  rw [h dosPartMagicOffset (by decide), h (dosPartMagicOffset + 1) (by decide),
    h dosPartTblOffset (by decide), hfat, hfat32]

theorem testBlockType_putMagic {es : List DosPartition}
    (h : partEntries (putMagic m) = e :: es) (hboot : e.bootInd = 0) :
    testBlockType (putMagic m) = 0 := by
  have h55 : putMagic m dosPartMagicOffset = 0x55 := by
    simp [putMagic, store]
  have haa : putMagic m (dosPartMagicOffset + 1) = 0xaa := by
    simp [putMagic, store]
  have hfirst : putMagic m dosPartTblOffset = 0 := by
    rw [← hboot, ← (List.cons_eq_cons.mp h).1]
    rfl
  unfold testBlockType
  rw [h55, haa, hfirst, if_neg (by decide), if_neg (by decide)]

/-- An entry of a cleared boot record. -/
def DosPartition.unused : DosPartition := ⟨0, 0, 0, 0⟩

theorem DosPartition.loadAt_zero (h : ∀ i, i < 16 → m (p + i) = 0) : DosPartition.loadAt m p = unused :=
  (loadAt_congr (m := zeroed) h).trans rfl

theorem DosPartition.loadAt_storeAt_ne {i j : Nat} (h : i ≠ j) :
    loadAt (storeAt m (entryPos i) e) (entryPos j) = loadAt m (entryPos j) := by
  refine loadAt_congr fun k hk => storeAt_outside ?_
  simp only [entryPos]
  omega

theorem DosPartition.loadAt_putMagic {i : Nat} (h : i < 4) :
    loadAt (putMagic m) (entryPos i) = loadAt m (entryPos i) := by
  refine loadAt_congr fun k hk => store_outside (.inl ?_)
  simp only [entryPos, dosPartTblOffset, dosPartMagicOffset]
  omega

theorem partEntries_putMagic (m : Memory) : partEntries (putMagic m) = partEntries m :=
  List.map_congr_left fun _ hi => loadAt_putMagic (List.mem_range.mp hi)

section
variable (tbl : List Partitions)
include tbl

theorem partEntries_constructMbr : partEntries (constructMbr tbl) =
      [constructMbrEntry tbl 0, constructMbrEntry tbl 1, constructMbrEntry tbl 2, constructMbrEntry tbl 3] := by
  unfold constructMbr
  rw [partEntries_putMagic]
  simp only [partEntries, List.range_succ, List.range_zero, List.nil_append,
    List.foldl_cons, List.foldl_nil, List.map_cons, List.map_nil, List.cons_append]
  simp [loadAt_storeAt, loadAt_storeAt_ne]

theorem partEntries_constructEbr (partNum : Nat) : partEntries (constructEbr tbl partNum) =
      [constructEbr1stEntry tbl partNum,
        if partNum + 2 > tbl.length then unused else constructEbr2ndEntry tbl partNum,
        unused, unused] := by
  have hzero : ∀ i, loadAt (store zeroed dosPbr32FstypeOffset fat32) (entryPos i) =
      unused := by
    intro i
    refine loadAt_zero fun k hk => store_outside (.inr ?_)
    simp only [entryPos, dosPartTblOffset, dosPbr32FstypeOffset, fat32, List.length_cons, List.length_nil]
    omega
  unfold constructEbr
  rw [partEntries_putMagic]
  simp only [partEntries, List.range_succ, List.range_zero, List.nil_append, List.map_cons,
    List.map_nil, List.cons_append]
  split <;> simp [loadAt_storeAt, loadAt_storeAt_ne, hzero]

theorem testBlockType_constructMbr : testBlockType (constructMbr tbl) = 0 :=
  testBlockType_putMagic (partEntries_constructMbr tbl) rfl

theorem testBlockType_constructEbr (partNum : Nat) : testBlockType (constructEbr tbl partNum) = 0 :=
  testBlockType_putMagic (partEntries_constructEbr tbl partNum) rfl

/-- The writer changes the block it starts with and those in front of later
entries, whether its writes succeed or not. -/
theorem writeChain_frame (n i : Nat) (blk : UInt64) (d : BlockDevice) (ret : UInt64) (hi : i = 0 ∨ 3 ≤ i)
    (hblk : i < tbl.length → a < 512 * blk.toNat ∨ 512 * blk.toNat + 512 ≤ a)
    (hrest : ∀ j, i < j → 3 ≤ j → j < tbl.length →
      a < 512 * (startBlk tbl j).toNat ∨ 512 * (startBlk tbl j).toNat + 512 ≤ a) :
    (writeChain tbl n i blk d ret).2.user a = d.user a := by
  induction n generalizing i blk d ret with
  | zero => rfl
  | succ n ih =>
    rw [writeChain]
    split
    · rename_i hlt
      generalize (if i = 0 then constructMbr tbl else constructEbr tbl i) = record
      have hnext : (i < if i = 0 then 3 else i + 1) ∧ 3 ≤ if i = 0 then 3 else i + 1 := by
        split <;> omega
      generalize (if i = 0 then 3 else i + 1) = next at *
      have hwrite : (mmcBwrite d blk 1 record).2.user a = d.user a := mmcBwrite_outside (hblk hlt)
      dsimp only
      split
      · exact hwrite
      · rw [ih next _ _ _ (.inr hnext.2) (hrest next hnext.1 hnext.2) fun j hj => hrest j (Nat.lt_trans hnext.1 hj)]
        exact hwrite
    · rfl

theorem writeChain_capacity (n i : Nat) (blk : UInt64) (d : BlockDevice)
    (ret : UInt64) : (writeChain tbl n i blk d ret).2.capacity = d.capacity := by
  induction n generalizing i blk d ret with
  | zero => rfl
  | succ n ih =>
    rw [writeChain]
    split
    · generalize (if i = 0 then constructMbr tbl else constructEbr tbl i) = record
      generalize (if i = 0 then 3 else i + 1) = next
      dsimp only
      split
      · exact mmcBwrite_capacity _ _ _ _
      · rw [ih, mmcBwrite_capacity]
    · rfl

end

theorem updatePtblMbr_frame (d : BlockDevice) (tbl : List Partitions) (ha : 512 ≤ a)
    (hrest : ∀ j, 3 ≤ j → j < tbl.length → a < 512 * (startBlk tbl j).toNat ∨ 512 * (startBlk tbl j).toNat + 512 ≤ a) :
    (updatePtblMbr d tbl).2.user a = d.user a :=
  writeChain_frame tbl tbl.length 0 0 d 0 (.inl rfl) (fun _ => .inr ha) fun j _ => hrest j

theorem updatePtblMbr_capacity (d : BlockDevice) (tbl : List Partitions) :
    (updatePtblMbr d tbl).2.capacity = d.capacity :=
  writeChain_capacity tbl tbl.length 0 0 d 0

theorem readChain_record {d : BlockDevice} {readOffset : UInt64} {record : Memory} (hin : readOffset + 1 ≤ d.lba)
    (hrec : d.Holds readOffset.toNat 1 record) (htype : testBlockType record = 0) (fuel : Nat) (externedStart : UInt64)
    (partitions : List Partitions) (primaryNum : Nat) (s : ChainState)
    (hs : (partEntries record).foldl (readEntry readOffset) ⟨partitions, primaryNum, 0⟩ = s) :
    readChain d (fuel + 1) readOffset externedStart partitions primaryNum = if s.logicStart = 0 then some s.partitions
      else if s.partitions.length = s.primaryNum then
        readChain d fuel s.logicStart s.logicStart s.partitions s.primaryNum else
        readChain d fuel (externedStart + s.logicStart) externedStart s.partitions s.primaryNum := by
  obtain ⟨buffer, hread, hsame⟩ := mmcBread_holds zeroed (by decide) hin hrec
  have hbuf : partEntries buffer = partEntries record := partEntries_congr hsame
  have hkind : testBlockType buffer = 0 := (testBlockType_congr hsame).trans htype
  rw [readChain, hread]
  dsimp only
  rw [if_neg (by decide), hkind, if_neg (by decide), hbuf, hs]

theorem constructPtblByMbr_blank {d : BlockDevice} (h : d.user dosPartMagicOffset ≠ 0x55)
    (fuel : Nat) : constructPtblByMbr d (fuel + 1) = some [] := by
  rw [constructPtblByMbr, readChain]
  by_cases hin : (0 : UInt64) + 1 ≤ d.lba
  · rw [mmcBread_of_le zeroed (by decide) hin]
    dsimp only
    have htype : testBlockType (memcpy zeroed 0 d.user (512 * (0 : UInt64).toNat) (512 * (1 : UInt64).toNat)) = -1 := by
      rw [testBlockType, if_pos]
      left
      exact h
    rw [if_neg (by decide), htype, if_pos (by decide)]
  · rw [mmcBread, if_neg (by decide), if_pos (UInt64.not_le.mp hin)]
    dsimp only
    rw [if_pos (by decide)]

end AmlogicV901d.Source.Emmc
