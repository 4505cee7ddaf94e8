import AmlogicV901d.Source.Emmc.Mbr

/-!
# The partition table in the reserved area

`bl33/drivers/mmc/aml_emmc_partition.c:77-83, 167-240, 380-433, 472-578, 700-724`.

The stored form is magic (4), version (12), count (4), checksum (4) and 32 entries
of 40 bytes, rounded up to three blocks. Allocations succeed.
-/
namespace AmlogicV901d.Source.Emmc
open Lib.ByteMemory Lib.LittleEndian List

variable {m m' : Memory} {src inh : List Partitions} {d d' : BlockDevice}

/-- MAX_MMC_PART_NUM -/
def maxMmcPartNum : Nat := 32

/-- "MPT" with its NUL -/
def mmcPartitionsMagic : List UInt8 := [0x4d, 0x50, 0x54, 0x00]

/-- MMC_MPT_VERSION_1, "01.00.00" with its NUL; the version in use -/
def mmcMptVersion1 : List UInt8 := [0x30, 0x31, 0x2e, 0x30, 0x30, 0x2e, 0x30, 0x30, 0x00]

/-- MMC_MPT_VERSION_2, "01.02.00" with its NUL -/
def mmcMptVersion2 : List UInt8 := [0x30, 0x31, 0x2e, 0x30, 0x32, 0x2e, 0x30, 0x30, 0x00]

def mmcTableOffset : UInt64 := 0

def mmcTableSize : UInt64 := 0x4000

/-- `(sizeof(struct ptbl_rsv) + 511) / 512 * 512` -/
def ptblRsvSize : UInt64 := (24 + 32 * 40 + 511) / 512 * 512

/-! ## Entries as bytes -/

def Partitions.encode (p : Partitions) : List UInt8 :=
  p.name.toList ++ leBytes 8 p.size.toNat ++ leBytes 8 p.offset.toNat ++
    leBytes 4 p.maskFlags.toNat ++ leBytes 4 p.pad.toNat

def Partitions.decodeAt (m : Memory) (p : Nat) : Partitions where
  name := loadVec m p 16
  size := loadU64 m (p + 16)
  offset := loadU64 m (p + 24)
  maskFlags := loadU32 m (p + 32)
  pad := loadU32 m (p + 36)

def encodeTable (tbl : List Partitions) : List UInt8 := tbl.flatMap Partitions.encode

def loadTable (m : Memory) (p : Nat) : Nat → List Partitions
  | 0 => []
  | n + 1 => Partitions.decodeAt m p :: loadTable m (p + 40) n

/-! ## Version and checksum -/

/-- The ten 32-bit words of an entry. -/
def Partitions.words (p : Partitions) : List UInt32 :=
  (List.range 10).map fun j => UInt32.ofNat (leValue ((p.encode.drop (4 * j)).take 4))

def getVersion (m : Memory) (p : Nat) : Int :=
  if load m p 9 = mmcMptVersion2 then 2
  else if load m p 9 = mmcMptVersion1 then 1
  else -1

def calcIptblCheckV2 (part : List Partitions) : UInt32 :=
  (part.flatMap Partitions.words).foldl (· + ·) 0

/-- Every round starts again at the first entry: the checksum covers only that
one, `count` times. -/
def calcIptblCheckV1 (part : List Partitions) : UInt32 :=
  part.foldl (fun checksum _ => (entryAt part 0).words.foldl (· + ·) checksum) 0

def calcIptblCheck (part : List Partitions) (version : Int) : UInt32 :=
  if version = 1 then calcIptblCheckV1 part
  else if version = 2 then calcIptblCheckV2 part
  else 0xffffffff

/-! ## Transfers -/

/-- MMC_RESERVED_NAME, "reserved" -/
def mmcReservedName : List UInt8 := [0x72, 0x65, 0x73, 0x65, 0x72, 0x76, 0x65, 0x64]

/-- `_get_inherent_offset` of the reserved area, -1 if there is none. -/
def getInherentOffset (inh : List Partitions) (name : List UInt8) : UInt64 :=
  match inh.find? (nameIs ·.name name) with
  | some part => part.offset
  | none => 0xffffffffffffffff

def rsvOffset (inh : List Partitions) : UInt64 :=
  getInherentOffset inh mmcReservedName + mmcTableOffset

def mmcRsvRead (d : BlockDevice) (offset size : UInt64) (buffer : Memory) : UInt64 × Memory :=
  if size = 0 then (0, buffer)
  else
    let (cnt, buffer) := mmcBread d (offset / 512) (size / 512) buffer
    (cnt * 512, buffer)

def mmcRsvWrite (d : BlockDevice) (offset size : UInt64) (buffer : Memory) : UInt64 × BlockDevice :=
  if size = 0 then (0, d)
  else
    let (cnt, d) := mmcBwrite d (offset / 512) (size / 512) buffer
    (cnt * 512, d)

/-- The tests on the buffer that was read, and the copy into `rsv`. -/
def parsePtblRsv (buffer : Memory) (rsv : List Partitions) : Int × List Partitions :=
  let version := getVersion buffer 4
  let count := (loadU32 buffer 16).toNat
  if load buffer 0 4 ≠ mmcPartitionsMagic then (-4, rsv)
  else if version < 0 then (-5, rsv)
  else if count > maxMmcPartNum then (-1, rsv)
  else if calcIptblCheck (loadTable buffer 24 count) version ≠ loadU32 buffer 20 then (-6, rsv)
  else (0, loadTable buffer 24 count)

def getPtblRsv (d : BlockDevice) (inh : List Partitions) (rsv : List Partitions) : Int × List Partitions :=
  if mmcTableSize < ptblRsvSize then (-1, rsv)
  else
    let (size, buffer) := mmcRsvRead d (rsvOffset inh) ptblRsvSize zeroed
    if ptblRsvSize ≠ size then (-3, rsv) else parsePtblRsv buffer rsv

/-- The buffer `update_ptbl_rsv` writes. -/
def ptblRsvImage (src : List Partitions) : Memory :=
  let buffer := store zeroed 4 mmcMptVersion1
  let buffer := store buffer 0 mmcPartitionsMagic
  let buffer := storeU32 buffer 16 (UInt32.ofNat src.length)
  let buffer := store buffer 24 (encodeTable src)
  storeU32 buffer 20 (calcIptblCheck src (getVersion buffer 4))

def updatePtblRsv (d : BlockDevice) (inh src : List Partitions) : Int × BlockDevice :=
  if src.length > maxMmcPartNum then (-1, d)
  else
    let (size, d) := mmcRsvWrite d (rsvOffset inh) ptblRsvSize (ptblRsvImage src)
    (if size ≠ ptblRsvSize then -1 else 0, d)

def cpyIptbl (dst src : List Partitions) : List Partitions :=
  if src.length > maxMmcPartNum then dst else src

/-! ## Entries as bytes, lemmas -/

@[simp] theorem Partitions.encode_length (p : Partitions) : p.encode.length = 40 := by
  simp [Partitions.encode]

theorem Partitions.decodeAt_congr {p : Nat} (h : ∀ i, i < 40 → m' (p + i) = m (p + i)) :
    Partitions.decodeAt m' p = Partitions.decodeAt m p := by
  have hfield : ∀ off n, off + n ≤ 40 → ∀ i, i < n → m' (p + off + i) = m (p + off + i) := by
    intro off n hle i hi
    rw [Nat.add_assoc]
    exact h (off + i) (by omega)
  unfold Partitions.decodeAt
  rw [loadVec_congr fun i hi => h i (by omega), loadU64_congr (hfield 16 8 (by omega)),
    loadU64_congr (hfield 24 8 (by omega)), loadU32_congr (hfield 32 4 (by omega)),
    loadU32_congr (hfield 36 4 (by omega))]

theorem Partitions.decodeAt_store (m : Memory) (p : Nat) (e : Partitions) :
    Partitions.decodeAt (store m p e.encode) p = e := by
  have hname := load_store m p e.encode
  generalize store m p e.encode = m' at hname ⊢
  rw [Partitions.encode, append_assoc, append_assoc, append_assoc] at hname
  have hsize := load_behind hname
  have hoffset := load_behind hsize
  have hmask := load_behind hoffset
  have hpad := load_behind hmask
  replace hname := load_front hname
  replace hsize := load_front hsize
  replace hoffset := load_front hoffset
  replace hmask := load_front hmask
  simp only [Vector.length_toList, leBytes_length, Nat.add_assoc, Nat.reduceAdd] at hname hsize hoffset hmask hpad
  rw [Partitions.decodeAt, loadVec_of_load hname, loadU64, loadU64, loadU32, loadU32, hsize, hoffset, hmask, hpad,
    leValue_leBytes_u64, leValue_leBytes_u64, leValue_leBytes_u32, leValue_leBytes_u32]

theorem loadTable_congr {p n : Nat}
    (h : ∀ i, i < 40 * n → m' (p + i) = m (p + i)) : loadTable m' p n = loadTable m p n := by
  induction n generalizing p with
  | zero => rfl
  | succ n ih =>
    have htail : ∀ i, i < 40 * n → m' (p + 40 + i) = m (p + 40 + i) := by
      intro i hi
      rw [Nat.add_assoc]
      exact h (40 + i) (by omega)
    rw [loadTable, loadTable, Partitions.decodeAt_congr fun i hi => h i (by omega), ih htail]

theorem loadTable_store (m : Memory) (p : Nat) (tbl : List Partitions) :
    loadTable (store m p (encodeTable tbl)) p tbl.length = tbl := by
  induction tbl generalizing m p with
  | nil => rfl
  | cons e rest ih =>
    have hsplit : store m p (encodeTable (e :: rest)) =
        store (store m p e.encode) (p + 40) (encodeTable rest) := by
      rw [encodeTable, flatMap_cons, store_append, Partitions.encode_length]
      rfl
    rw [hsplit, length_cons, loadTable, ih, Partitions.decodeAt_congr fun i hi => store_outside (.inl (by omega)),
      Partitions.decodeAt_store]

@[simp] theorem loadTable_length (m : Memory) (p n : Nat) : (loadTable m p n).length = n := by
  induction n generalizing p with
  | zero => rfl
  | succ n ih => rw [loadTable, length_cons, ih]

/-! ## Validity of a stored table -/

/-- The four tests of `get_ptbl_rsv`. -/
structure RsvValid (buffer : Memory) : Prop where
  magic : load buffer 0 4 = mmcPartitionsMagic
  version : 0 ≤ getVersion buffer 4
  count : (loadU32 buffer 16).toNat ≤ maxMmcPartNum
  checksum : calcIptblCheck (loadTable buffer 24 (loadU32 buffer 16).toNat) (getVersion buffer 4) = loadU32 buffer 20

theorem parsePtblRsv_valid {buffer : Memory} (h : RsvValid buffer) (rsv : List Partitions) :
    parsePtblRsv buffer rsv = (0, loadTable buffer 24 (loadU32 buffer 16).toNat) := by
  unfold parsePtblRsv
  rw [if_neg (not_not_intro h.magic), if_neg (Int.not_lt.mpr h.version),
    if_neg (Nat.not_lt.mpr h.count), if_neg (not_not_intro h.checksum)]

theorem parsePtblRsv_invalid {buffer : Memory} (h : ¬ RsvValid buffer) (rsv : List Partitions) :
    ∃ code, code ≠ 0 ∧ parsePtblRsv buffer rsv = (code, rsv) := by
  unfold parsePtblRsv
  dsimp only
  split
  · exact ⟨-4, by decide, rfl⟩
  split
  · exact ⟨-5, by decide, rfl⟩
  split
  · exact ⟨-1, by decide, rfl⟩
  split
  · exact ⟨-6, by decide, rfl⟩
  · rename_i hmagic hversion hcount hsum
    exact absurd ⟨not_not.mp hmagic, Int.not_lt.mp hversion, Nat.not_lt.mp hcount, not_not.mp hsum⟩ h

theorem parsePtblRsv_congr (h : ∀ a, a < 1536 → m' a = m a)
    (rsv : List Partitions) : parsePtblRsv m' rsv = parsePtblRsv m rsv := by
  have hmagic : load m' 0 4 = load m 0 4 := load_congr fun i hi => h _ (by omega)
  have hversion : load m' 4 9 = load m 4 9 := load_congr fun i hi => h _ (by omega)
  have hcount : loadU32 m' 16 = loadU32 m 16 := loadU32_congr fun i hi => h _ (by omega)
  have hsum : loadU32 m' 20 = loadU32 m 20 := loadU32_congr fun i hi => h _ (by omega)
  unfold parsePtblRsv getVersion
  rw [hmagic, hversion, hcount, hsum]
  dsimp only
  by_cases hle : (loadU32 m 16).toNat > maxMmcPartNum
  · simp only [if_pos hle]
  have htable : loadTable m' 24 (loadU32 m 16).toNat = loadTable m 24 (loadU32 m 16).toNat := by
    refine loadTable_congr fun i hi => h _ ?_
    simp only [maxMmcPartNum] at hle
    omega
  rw [htable]

/-- What `update_ptbl_rsv` writes passes the tests and holds the table. -/
theorem parsePtblRsv_image (hlen : src.length ≤ maxMmcPartNum)
    (rsv : List Partitions) : parsePtblRsv (ptblRsvImage src) rsv = (0, src) := by
  have hcount : (UInt32.ofNat src.length).toNat = src.length := by
    simp only [maxMmcPartNum] at hlen
    rw [UInt32.toNat_ofNat']
    omega
  unfold ptblRsvImage
  dsimp only
  generalize h1 : store zeroed 4 mmcMptVersion1 = m1
  generalize h2 : store m1 0 mmcPartitionsMagic = m2
  generalize h3 : storeU32 m2 16 (UInt32.ofNat src.length) = m3
  generalize h4 : store m3 24 (encodeTable src) = m4
  have f3 : ∀ a, a < 24 → m4 a = m3 a := fun a ha => by
    rw [← h4, store_outside (.inl ha)]
  have f2 : ∀ a, a < 16 → m4 a = m2 a := fun a ha => by
    rw [f3 a (by omega), ← h3, storeU32_outside (.inl ha)]
  have f1 : ∀ a, 4 ≤ a → a < 16 → m4 a = m1 a := fun a hl ha => by
    rw [f2 a ha, ← h2, store_outside (.inr hl)]
  have hversion : getVersion m4 4 = 1 := by
    rw [getVersion, load_congr fun i hi => f1 _ (by omega) (by omega), ← h1]
    decide
  rw [hversion]
  generalize h5 : storeU32 m4 20 (calcIptblCheck src 1) = m5
  have f4 : ∀ a, a < 20 ∨ 24 ≤ a → m5 a = m4 a := fun a ha => by
    rw [← h5, storeU32_outside ha]
  have hversion5 : getVersion m5 4 = 1 := by
    rw [← hversion, getVersion, getVersion, load_congr fun i hi => f4 _ (by omega)]
  have hmagic5 : load m5 0 4 = mmcPartitionsMagic := by
    rw [load_congr fun i hi => (f4 _ (by omega)).trans (f2 _ (by omega)), ← h2]
    exact load_store m1 0 mmcPartitionsMagic
  have hcount5 : (loadU32 m5 16).toNat = src.length := by
    rw [loadU32_congr fun i hi => (f4 _ (by omega)).trans (f3 _ (by omega)), ← h3, loadU32_storeU32, hcount]
  have htable5 : loadTable m5 24 (loadU32 m5 16).toNat = src := by
    rw [hcount5, loadTable_congr fun i hi => f4 _ (by omega), ← h4, loadTable_store]
  have hsum5 : loadU32 m5 20 = calcIptblCheck src 1 := by
    rw [← h5, loadU32_storeU32]
  rw [parsePtblRsv_valid ⟨hmagic5, by rw [hversion5]; decide, by rw [hcount5]; exact hlen,
    by rw [htable5, hversion5, hsum5]⟩, htable5]

/-! ## Reading after writing -/

theorem ptblRsvSize_blocks : ptblRsvSize / 512 = 3 := by decide

theorem getPtblRsv_eq (d : BlockDevice) (inh rsv : List Partitions) : getPtblRsv d inh rsv =
      if rsvOffset inh / 512 + 3 ≤ d.lba then
        parsePtblRsv (memcpy zeroed 0 d.user (512 * (rsvOffset inh / 512).toNat) 1536) rsv
      else (-3, rsv) := by
  rw [getPtblRsv, if_neg (by decide), mmcRsvRead, if_neg (by decide), ptblRsvSize_blocks]
  by_cases hle : rsvOffset inh / 512 + 3 ≤ d.lba
  · rw [if_pos hle, mmcBread_of_le zeroed (by decide) hle]
    rfl
  · rw [if_neg hle, mmcBread, if_neg (by decide), if_pos (UInt64.not_le.mp hle)]
    rfl

theorem getPtblRsv_length (d : BlockDevice) (inh : List Partitions) :
    (getPtblRsv d inh []).2.length ≤ maxMmcPartNum := by
  rw [getPtblRsv_eq]
  split
  · generalize memcpy zeroed 0 d.user (512 * (rsvOffset inh / 512).toNat) 1536 = buffer
    by_cases hvalid : RsvValid buffer
    · rw [parsePtblRsv_valid hvalid, loadTable_length]
      exact hvalid.count
    · obtain ⟨code, _, hparse⟩ := parsePtblRsv_invalid hvalid []
      rw [hparse]
      exact Nat.zero_le _
  · exact Nat.zero_le _

theorem getPtblRsv_congr (hcap : d'.capacity = d.capacity) (h : ∀ a, 512 * (rsvOffset inh / 512).toNat ≤ a →
      a < 512 * (rsvOffset inh / 512).toNat + 1536 → d'.user a = d.user a) (rsv : List Partitions) :
    getPtblRsv d' inh rsv = getPtblRsv d inh rsv := by
  have hbuffer := @parsePtblRsv_congr (memcpy zeroed 0 d.user (512 * (rsvOffset inh / 512).toNat) 1536)
    (memcpy zeroed 0 d'.user (512 * (rsvOffset inh / 512).toNat) 1536) (fun a ha => by
    rw [memcpy_inside (by omega) (by omega), memcpy_inside (by omega) (by omega), h _ (by omega) (by omega)]) rsv
  rw [getPtblRsv_eq, getPtblRsv_eq, hbuffer, BlockDevice.lba, BlockDevice.lba, hcap]

theorem updatePtblRsv_ok (h : updatePtblRsv d inh src = (0, d')) :
    src.length ≤ maxMmcPartNum ∧ rsvOffset inh / 512 + 3 ≤ d'.lba ∧
      d'.Holds (rsvOffset inh / 512).toNat 3 (ptblRsvImage src) := by
  unfold updatePtblRsv at h
  split at h
  · exact absurd (Prod.mk.inj h).1 (by decide)
  rename_i hlen
  rw [mmcRsvWrite, if_neg (by decide), ptblRsvSize_blocks] at h
  dsimp only at h
  obtain ⟨hret, hdev⟩ := Prod.mk.inj h
  by_cases hle : rsvOffset inh / 512 + 3 ≤ d.lba
  · obtain ⟨d1, hwrite, hcap, hholds⟩ := mmcBwrite_holds (ptblRsvImage src) hle
    rw [hwrite] at hdev
    rw [← hdev, BlockDevice.lba, hcap]
    exact ⟨Nat.not_lt.mp hlen, hle, hholds⟩
  · rw [mmcBwrite, if_pos (UInt64.not_le.mp hle)] at hret
    have hshort : (if (0 : UInt64) * 512 ≠ ptblRsvSize then (-1 : Int) else 0) = 0 := hret
    exact absurd hshort (by decide)

theorem getPtblRsv_update (h : updatePtblRsv d inh src = (0, d')) (rsv : List Partitions) :
    getPtblRsv d' inh rsv = (0, src) := by
  obtain ⟨hlen, hle, hholds⟩ := updatePtblRsv_ok h
  rw [getPtblRsv_eq, if_pos hle, parsePtblRsv_congr (m := ptblRsvImage src) _ rsv, parsePtblRsv_image hlen]
  intro a ha
  rw [memcpy_inside (by omega) (by omega), Nat.sub_zero, hholds a ha]

theorem updatePtblRsv_capacity (d : BlockDevice) (inh src : List Partitions) :
    (updatePtblRsv d inh src).2.capacity = d.capacity := by
  unfold updatePtblRsv
  split
  · rfl
  · exact mmcBwrite_capacity _ _ _ _

theorem updatePtblRsv_outside (d : BlockDevice) (inh src : List Partitions) {a : Nat}
    (h : a < 512 * (rsvOffset inh / 512).toNat ∨ 512 * (rsvOffset inh / 512).toNat + 1536 ≤ a) :
    (updatePtblRsv d inh src).2.user a = d.user a := by
  unfold updatePtblRsv
  split
  · rfl
  · exact mmcBwrite_outside h

end AmlogicV901d.Source.Emmc
