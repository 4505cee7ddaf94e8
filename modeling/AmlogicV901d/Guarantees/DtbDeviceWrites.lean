import AmlogicV901d.Source.Emmc.DtbDevice

/-!
# Writing the dtb device of the kernel

Every write stores a whole image whose other bytes are what the heap held, with the time
stamp after the one seen at probe time. So the device reads back as written exactly if
the heap held the stored bytes, and the time stamps grow over no more than one write.
-/
namespace AmlogicV901d.Guarantees.DtbDeviceWrites
open Source.DtbDevice Lib.ByteMemory Lib.LittleEndian Lib.StateTriple List

/-! ## Runs -/

/-- The reserved partition of the card follows 4 MiB of boot partition and 32 MiB of space; all
transfers succeed. -/
def emmc : DevEnv where
  reservedOff := 36 * 0x100000
  fails _ := false

/-- One `mmc_dtb_write`, with the heap it finds. -/
structure DevWrite where
  heap : Memory
  pos : Nat
  bytes : List UInt8
  inside : pos + bytes.length ≤ configDtbSize - 16

def DevWrite.exec (w : DevWrite) (s : DtbDev) : DtbDev := (mmcDtbWrite emmc w.heap w.bytes w.pos s).2

def run (writes : List DevWrite) (s : DtbDev) : DtbDev := writes.foldl (fun s w => w.exec s) s

/-- The card byte of a position of the device. -/
def storedByte (s : DtbDev) (i : Nat) : UInt8 := s.card (mmcDtbPartOffset + i)

/-- What the bytes should be after some writes. -/
def expected (original : Nat → UInt8) (writes : List DevWrite) : Memory :=
  writes.foldl (fun m w => store m w.pos w.bytes) original

/-- Every read gives the bytes that were written last. -/
def ReadsBack (original : Nat → UInt8) (writes : List DevWrite) (s : DtbDev) : Prop :=
  ∀ heap buffer pos count, pos + count ≤ configDtbSize - 16 →
    (mmcDtbRead emmc heap buffer count pos s).1.1 = load (expected original writes) pos count

/-- The time stamp of a stored copy. -/
def storedStamp (s : DtbDev) (cpy : Nat) : UInt32 := loadU32 s.card (dtbBlk emmc cpy * blkSize + timestampAt)

/-- Every write but the first one stores a later time stamp than the one before. -/
def StampsGrow : List DevWrite → DtbDev → Prop
  | w :: w' :: writes, s =>
    (∀ cpy < 2, stampAfter (storedStamp (w'.exec (w.exec s)) cpy) (storedStamp (w.exec s) cpy) = true) ∧
      StampsGrow (w' :: writes) (w.exec s)
  | _, _ => True

/-- The heap of the last write holds what is stored, outside of the bytes that are written. -/
def HeapMatches (original : Nat → UInt8) (writes : List DevWrite) : Prop :=
  ∀ w ∈ writes.getLast?, ∀ i < configDtbSize - 16, i < w.pos ∨ w.pos + w.bytes.length ≤ i →
    w.heap i = expected original writes.dropLast i

/-! ## Reading -/

/-- The cells one after the other, and nothing in front of them. -/
theorem readCells_run (rounds startBlk off : Nat) (buffer buf : Memory) (s : DtbDev) :
    ∃ m tick, readCells emmc buffer rounds startBlk off buf s = ((0, m), { s with tick }) ∧
      (∀ a < off, m a = buf a) ∧ ∀ i < rounds * dtbCellSize, m (off + i) = s.card (startBlk * blkSize + i) := by
  induction rounds generalizing startBlk off buffer buf s with
  | zero => exact ⟨buf, s.tick, rfl, fun _ _ => rfl, fun i hi => absurd hi (by omega)⟩
  | succ rounds ih =>
    let cell := memcpy (memset buffer 0 0 dtbCellSize) 0 s.card (startBlk * blkSize) dtbCellSize
    obtain ⟨m, tick, hrun, hfront, hcells⟩ := ih (startBlk + dtbCellSize / blkSize) (off + dtbCellSize) cell
      (memcpy buf off cell 0 dtbCellSize) { s with tick := s.tick + 1 }
    have hcopy : ∀ j < dtbCellSize, cell j = s.card (startBlk * blkSize + j) := fun j hj => by
      show memcpy (memset buffer 0 0 dtbCellSize) 0 s.card (startBlk * blkSize) dtbCellSize j = _
      rw [memcpy_inside (Nat.zero_le j) (by omega), Nat.sub_zero]
    refine ⟨m, tick, hrun, fun a ha => ?_, fun i hi => ?_⟩
    · rw [hfront a (by omega), memcpy_outside (by omega)]
    · by_cases hcell : i < dtbCellSize
      · rw [hfront (off + i) (by omega), memcpy_inside (by omega) (by omega),
          show 0 + (off + i - off) = i by omega, hcopy i hcell]
      have hnext := hcells (i - dtbCellSize) (by rw [Nat.succ_mul] at hi; omega)
      have haddr : (startBlk + dtbCellSize / blkSize) * blkSize + (i - dtbCellSize) = startBlk * blkSize + i := by
        rw [Nat.add_mul, show dtbCellSize / blkSize * blkSize = dtbCellSize from rfl]
        omega
      rw [show off + dtbCellSize + (i - dtbCellSize) = off + i by omega, haddr] at hnext
      exact hnext

theorem mmcDtbRead_bytes (heap buffer : Memory) {count pos : Nat} (hin : pos + count ≤ configDtbSize - 16) (s : DtbDev) :
    (mmcDtbRead emmc heap buffer count pos s).1.1 = load (storedByte s) pos count := by
  obtain ⟨m, tick, hrun, _, hcells⟩ := readCells_run 16 (mmcDtbPartOffset / blkSize) 0 buffer
    (memset heap 0 0 configDtbSize) s
  have hsize : configDtbSize = 0x40000 := rfl
  have hread : amlmmcDtbRead emmc buffer heap configDtbSize s = ((0, m), { s with tick }) := hrun
  rw [mmcDtbRead, if_neg (by omega), if_neg (by omega), bind_run hread]
  show load m pos (if pos + count > configDtbSize then configDtbSize - pos else count) = _
  rw [if_neg (by omega)]
  refine load_congr fun i hi => ?_
  have hcell := hcells (pos + i) (by show pos + i < 16 * 0x4000; omega)
  rw [Nat.zero_add] at hcell
  exact hcell

theorem readsBack_iff (original : Nat → UInt8) (writes : List DevWrite) (s : DtbDev) :
    ReadsBack original writes s ↔ ∀ i < configDtbSize - 16, storedByte s i = expected original writes i := by
  constructor
  · intro hread i hi
    have hone := hread zeroed zeroed i 1 (by omega)
    rw [mmcDtbRead_bytes zeroed zeroed (by omega)] at hone
    exact List.cons.inj hone |>.1
  · intro hall heap buffer pos count hin
    rw [mmcDtbRead_bytes heap buffer hin]
    exact load_congr fun i hi => hall (pos + i) (by omega)

/-! ## Writing -/

theorem write_run (blk : Nat) (buf : Memory) (src : Nat) (s : DtbDev) : mmcWriteInternal emmc blk maxTransBlk buf src s =
    (false, { s with card := memcpy s.card (blk * blkSize) buf src maxTransSize, tick := s.tick + 1 }) := rfl

theorem dtbWrite_run (blk : Nat) (buf : Memory) (s : DtbDev) : dtbWrite emmc blk buf s =
    (0, { s with card := memcpy s.card (blk * blkSize) buf 0 configDtbSize, tick := s.tick + 2 }) := by
  have hrounds : configDtbSize / blkSize / maxTransBlk = 2 := rfl
  have hnext : (blk + maxTransBlk) * blkSize = blk * blkSize + maxTransSize := Nat.add_mul ..
  have happend := memcpy_append s.card buf (blk * blkSize) 0 maxTransSize maxTransSize
  rw [Nat.zero_add, show maxTransSize + maxTransSize = configDtbSize from rfl] at happend
  rw [dtbWrite, hrounds, dtbWriteLoop, bind_run (write_run ..), if_neg Bool.false_ne_true, dtbWriteLoop,
    bind_run (write_run ..), if_neg Bool.false_ne_true, hnext]
  rw [happend]
  rfl

/-- The image that a write stores. -/
def DevWrite.image (w : DevWrite) (s : DtbDev) : Memory :=
  stamped (store w.heap w.pos w.bytes) (newTimestamp s.infos)

theorem dtbBlk_emmc (cpy : Nat) : dtbBlk emmc cpy * blkSize = mmcDtbPartOffset + cpy * configDtbSize := by
  rw [dtbBlk, Nat.add_mul, show (emmc.reservedOff + dtbReserveOffset) / blkSize * blkSize = mmcDtbPartOffset from rfl,
    Nat.mul_assoc]
  rfl

variable (w : DevWrite)

/-- The image in both copies. -/
abbrev DevWrite.card (s : DtbDev) : Memory :=
  memcpy (memcpy s.card mmcDtbPartOffset (w.image s) 0 configDtbSize) (mmcDtbPartOffset + configDtbSize) (w.image s) 0 configDtbSize

/-- Both copies are written; `dtb_infos` is not. -/
theorem exec_eq (s : DtbDev) : w.exec s = { s with card := w.card s, tick := s.tick + 4 } := by
  have hin := w.inside
  have hsize : configDtbSize = 0x40000 := rfl
  have hrun : amlmmcDtbWrite emmc (store w.heap w.pos (w.bytes.take w.bytes.length)) configDtbSize s =
      (0, { s with card := w.card s, tick := s.tick + 4 }) := by
    rw [amlmmcDtbWrite, if_neg (Nat.lt_irrefl _), get_bind, take_length, bind_run (dtbWrite_run _ _ _),
      bind_run (dtbWrite_run _ _ _), dtbBlk_emmc, dtbBlk_emmc, Nat.zero_mul, Nat.one_mul, Nat.add_zero]
    rfl
  rw [DevWrite.exec, mmcDtbWrite, if_neg (by omega), if_neg (by omega),
    if_neg (show ¬ w.pos + w.bytes.length > configDtbSize by omega), bind_run hrun]
  rfl

theorem exec_card (s : DtbDev) : (w.exec s).card = w.card s := by rw [exec_eq]

theorem stamped_data (buf : Memory) (t : UInt32) {i : Nat} (hi : i < configDtbSize - 16) : stamped buf t i = buf i := by
  have hsize : configDtbSize = 0x40000 := rfl
  have hmagic : magicAt = 0x3fff0 := rfl
  have hversion : versionAt = 0x3fff4 := rfl
  have htime : timestampAt = 0x3fff8 := rfl
  have hsum : checksumAt = 0x3fffc := rfl
  rw [stamped, storeU32_outside (by omega), storeU32_outside (by omega), storeU32_outside (by omega), storeU32_outside (by omega)]

theorem stamped_timestamp (buf : Memory) (t : UInt32) : loadU32 (stamped buf t) timestampAt = t := by
  have hmagic : magicAt = 0x3fff0 := rfl
  have hversion : versionAt = 0x3fff4 := rfl
  have htime : timestampAt = 0x3fff8 := rfl
  have hsum : checksumAt = 0x3fffc := rfl
  rw [stamped, loadU32_congr fun i hi => storeU32_outside (by omega), loadU32_congr fun i hi => storeU32_outside (by omega),
    loadU32_congr fun i hi => storeU32_outside (by omega), loadU32_storeU32]

theorem exec_storedByte (s : DtbDev) {i : Nat} (hi : i < configDtbSize - 16) :
    storedByte (w.exec s) i = store w.heap w.pos w.bytes i := by
  rw [storedByte, exec_card, DevWrite.card, memcpy_outside (by omega), memcpy_inside (by omega) (by omega),
    show 0 + (mmcDtbPartOffset + i - mmcDtbPartOffset) = i by omega]
  exact stamped_data _ _ hi

theorem exec_storedStamp (s : DtbDev) {cpy : Nat} (hcpy : cpy < 2) :
    storedStamp (w.exec s) cpy = newTimestamp s.infos := by
  have htime : timestampAt + 8 = configDtbSize := rfl
  have hword : load (w.exec s).card (dtbBlk emmc cpy * blkSize + timestampAt) 4 = load (w.image s) timestampAt 4 := by
    apply ext_getElem (by rw [load_length, load_length])
    intro i hi _
    rw [load_length] at hi
    rw [load_getElem, load_getElem, exec_card, DevWrite.card, dtbBlk_emmc]
    obtain rfl | rfl : cpy = 0 ∨ cpy = 1 := by omega
    · rw [memcpy_outside (by omega), memcpy_inside (by omega) (by omega)]
      exact congrArg _ (by omega)
    · rw [memcpy_inside (by omega) (by omega)]
      exact congrArg _ (by omega)
  rw [storedStamp, loadU32, hword]
  exact stamped_timestamp _ _

/-! ## Runs -/

theorem stampAfter_self (a : UInt32) : stampAfter a a = false := by
  rw [stampAfter, Int32.sub_self]
  rfl

variable (writes : List DevWrite)

theorem stampsGrow_iff (s : DtbDev) : StampsGrow writes s ↔ writes.length ≤ 1 := by
  match writes with
  | [] => exact ⟨fun _ => Nat.zero_le 1, fun _ => trivial⟩
  | [w] => exact ⟨fun _ => Nat.le_refl 1, fun _ => trivial⟩
  | w :: w' :: rest =>
    refine ⟨fun hgrow => ?_, fun hle => absurd hle (by simp)⟩
    have hfirst := hgrow.1 0 (by decide)
    rw [exec_storedStamp w' _ (by decide), exec_storedStamp w _ (by decide), exec_eq, stampAfter_self] at hfirst
    exact Bool.noConfusion hfirst

theorem run_concat (w : DevWrite) (s : DtbDev) : run (writes ++ [w]) s = w.exec (run writes s) := by
  rw [run, foldl_append]
  rfl

theorem expected_concat (original : Nat → UInt8) (writes : List DevWrite) (w : DevWrite) :
    expected original (writes ++ [w]) = store (expected original writes) w.pos w.bytes := by
  rw [expected, foldl_append]
  rfl

theorem readsBack_run_iff (s : DtbDev) :
    ReadsBack (storedByte s) writes (run writes s) ↔ HeapMatches (storedByte s) writes := by
  rw [readsBack_iff]
  rcases eq_nil_or_concat writes with rfl | ⟨front, w, rfl⟩
  · exact ⟨fun _ w hw => absurd hw (Option.not_mem_none w), fun _ i _ => rfl⟩
  rw [concat_eq_append, run_concat, expected_concat, HeapMatches, getLast?_concat, dropLast_concat]
  constructor
  · intro hall w' hw' i hi hout
    cases hw'
    have hbyte := hall i hi
    rwa [exec_storedByte w _ hi, store_outside hout, store_outside hout] at hbyte
  · intro hheap i hi
    rw [exec_storedByte w _ hi]
    by_cases hin : w.pos ≤ i ∧ i < w.pos + w.bytes.length
    · rw [store_inside hin.1 hin.2, store_inside hin.1 hin.2]
    · rw [store_outside (by omega), store_outside (by omega), hheap w rfl i hi (by omega)]

/-- For every card, whatever `dtb_infos` the driver found on it, and every sequence of writes. -/
theorem dtb_device_keeps_bytes_iff (s : DtbDev) (writes : List DevWrite) :
    (ReadsBack (storedByte s) writes (run writes s) ∧ StampsGrow writes s) ↔
      (HeapMatches (storedByte s) writes ∧ writes.length ≤ 1) := by
  rw [readsBack_run_iff, stampsGrow_iff]

/-! ### A single byte -/

/-- One byte at position 0; the heap is full of 0xaa. -/
def oneByte : DevWrite := ⟨fun _ => 0xaa, 0, [0x55], by decide⟩

/-- A card of zeros, which has two valid copies. -/
def blank : DtbDev := ⟨zeroed, ⟨0, 0, true, true⟩, 0⟩

theorem oneByte_spoils_the_rest :
    storedByte blank 1 = 0 ∧ (mmcDtbRead emmc zeroed zeroed 1 1 (oneByte.exec blank)).1.1 = [0xaa] ∧
    ¬ ReadsBack (storedByte blank) [oneByte] (run [oneByte] blank) ∧ ¬ StampsGrow [oneByte, oneByte] blank := by
  have hread : (mmcDtbRead emmc zeroed zeroed 1 1 (oneByte.exec blank)).1.1 = [0xaa] := by
    rw [mmcDtbRead_bytes zeroed zeroed (by decide)]
    show [storedByte (oneByte.exec _) 1] = _
    rw [exec_storedByte oneByte _ (by decide)]
    rfl
  refine ⟨rfl, hread, fun hback => ?_, fun hgrow => ?_⟩
  · have hbyte : (0xaa : UInt8) = 0 := (readsBack_run_iff _ _).mp hback oneByte rfl 1 (by decide) (.inr (by decide))
    exact nomatch hbyte
  · exact nomatch (stampsGrow_iff _ _).mp hgrow

end AmlogicV901d.Guarantees.DtbDeviceWrites
