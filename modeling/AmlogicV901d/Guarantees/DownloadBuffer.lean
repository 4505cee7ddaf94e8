import AmlogicV901d.Source.Optimus.BufferManager

/-!
# The download buffer hands over the received stream

The manager counts 64 KiB slots and hands the buffer to the consumer at every
`nextWriteBackSlot`. The invariant between two transfers: the stream is what was
consumed, then what is carried in front of the buffer, then what has arrived in the
buffer since the last write back, then what is still to come.

The size of a write back is the whole unit whenever the transfer was a full slot,
also for the last one, and offsets in the buffer are taken from 32 bits of the
transferred size. Each of these limits the commands for which the invariant holds.
-/
namespace AmlogicV901d.Guarantees.DownloadBuffer
open Lib.ByteMemory Source.Optimus List

open UInt32 (ofNat toNat_toUInt64 toNat_ofNat' toNat_add le_iff_toNat_le lt_iff_toNat_lt toNat_inj toNat_div toNat_mod ofNat_add)

variable {rest : List (List UInt8)} {cmd : TplCmd} {m0 : BufManager}

/-! ## What the consumer sees -/

/-- Bytes disposed of by a list of calls. -/
def consumed (calls : List DownloadCall) : Nat := (calls.map (·.burnSz.toNat)).sum

theorem consumed_append_single (calls : List DownloadCall) (c : DownloadCall) :
    consumed (calls ++ [c]) = consumed calls + c.burnSz.toNat := by
  simp [consumed]

/-- Every buffer is the stream from where the calls before it stopped. -/
def Presents (stream : List UInt8) (calls : List DownloadCall) : Prop :=
  ∀ before c after, calls = before ++ c :: after → c.data = (stream.drop (consumed before)).take c.data.length

/-- Where in the stream the last buffer ends. -/
def handedOver (calls : List DownloadCall) : Nat :=
  match calls.getLast? with
  | none => 0
  | some c => consumed calls.dropLast + c.data.length

theorem handedOver_append_single (calls : List DownloadCall) (c : DownloadCall) :
    handedOver (calls ++ [c]) = consumed calls + c.data.length := by
  simp [handedOver]

/-- The buffers are the stream, each unconsumed tail at the head of the next one, and
the last buffer ends with the stream. -/
structure Delivered (stream : List UInt8) (calls : List DownloadCall) : Prop where
  presents : Presents stream calls
  complete : handedOver calls = stream.length

/-- What the consumer promises: it consumes more than the carried bytes and leaves at
most 2 MiB, a multiple of 4. -/
structure Promised (c : DownloadCall) : Prop where
  progress : c.leftSz < c.burnSz
  consumes : c.burnSz.toNat ≤ c.data.length
  leaves : c.size.toNat - c.burnSz.toNat ≤ leftDataMaxSz.toNat
  aligned : (c.size.toNat - c.burnSz.toNat) % 4 = 0

theorem Presents.snoc {stream : List UInt8} {calls : List DownloadCall} {c : DownloadCall} (h : Presents stream calls)
    (hc : c.data = (stream.drop (consumed calls)).take c.data.length) : Presents stream (calls ++ [c]) := by
  intro before d after hsplit
  obtain rfl | ⟨init, x, rfl⟩ := eq_nil_or_concat after
  · obtain ⟨rfl, hd⟩ := append_inj' hsplit rfl
    obtain ⟨rfl, _⟩ := cons_eq_cons.mp hd
    exact hc
  · have hlast : calls ++ [c] = (before ++ d :: init) ++ [x] := by
      rw [hsplit, concat_eq_append, append_assoc, cons_append]
    exact h before d init (append_inj' hlast rfl).1

theorem Presents.nil (stream : List UInt8) : Presents stream [] := by
  intro before c after hsplit
  exact absurd hsplit.symm (by simp)

/-! ## Conditions -/

/-- The commands the manager can serve. -/
structure Deliverable (m : BufManager) : Prop where
  nonempty : 0 < m.tplcmdTotalSz.toNat ∨ m.itemOffsetNotAlignClusterSz.toNat = 0
  lastUnit : m.tplcmdTotalSz.toNat % 0x10000 ≠ 0 ∨ m.tplcmdTotalSz.toNat % m.writeBackUnitSz.toNat = 0
  slots : m.tplcmdTotalSz.toNat ≤ 2 ^ 48
  offsets : m.tplcmdTotalSz.toNat < 2 ^ 32 ∨ m.writeBackUnitSz.toNat ∣ 2 ^ 32
  first : m.itemOffsetNotAlignClusterSz.toNat + min m.tplcmdTotalSz.toNat m.writeBackUnitSz.toNat < 2 ^ 32
  later : m.tplcmdTotalSz.toNat ≤ m.writeBackUnitSz.toNat ∨ leftDataMaxSz.toNat + m.writeBackUnitSz.toNat < 2 ^ 32

/-- A command that was accepted for download. -/
structure Accepted (m : BufManager) : Prop where
  unit : m.writeBackUnitSz.toNat % 0x10000 = 0
  unitPos : 0 < m.writeBackUnitSz.toNat
  download : m.isUpload = false

/-- The slot at which the bytes up to `boundary` plus one unit are there. -/
def slotAt (m : BufManager) (boundary : Nat) : Nat :=
  (min (boundary + m.writeBackUnitSz.toNat) m.tplcmdTotalSz.toNat + 0xffff) / 0x10000

/-- What a command fixes in the manager. -/
structure Serves (m mgr : BufManager) : Prop where
  unit : mgr.writeBackUnitSz = m.writeBackUnitSz
  total : mgr.tplcmdTotalSz = m.tplcmdTotalSz
  upload : mgr.isUpload = m.isUpload
  item : mgr.itemOffsetNotAlignClusterSz = m.itemOffsetNotAlignClusterSz
  base : mgr.bufBase = m.bufBase

/-- Between two transfers, with `n` slots received and write backs up to `boundary`. -/
structure Buffering (m : BufManager) (stream : List UInt8) (n boundary : Nat)
    (taken carried fresh fut : List UInt8) (s : TransferState) : Prop where
  serves : Serves m s.mgr
  slotNum : s.mgr.totalSlotNum = UInt32.ofNat n
  nextSlot : s.mgr.nextWriteBackSlot = UInt32.ofNat (slotAt m boundary)
  leftSz : s.mgr.leftDataSz.toNat = carried.length
  split : stream = taken ++ (carried ++ fresh) ++ fut
  mem : load s.mem (m.bufBase - carried.length) (carried ++ fresh).length = carried ++ fresh
  units : boundary % m.writeBackUnitSz.toNat = 0
  filled : boundary + fresh.length = n * 0x10000
  room : fresh.length < m.writeBackUnitSz.toNat
  coming : n * 0x10000 + fut.length = m.tplcmdTotalSz.toNat
  reserved : m.itemOffsetNotAlignClusterSz.toNat ≤ carried.length
  left : boundary = 0 ∧ carried.length = m.itemOffsetNotAlignClusterSz.toNat ∨
    0 < boundary ∧ carried.length ≤ leftDataMaxSz.toNat
  position : consumed s.calls = taken.length
  presents : Presents stream s.calls

variable {m : BufManager}

theorem unit_mod {boundary f : Nat} (hunits : boundary % m.writeBackUnitSz.toNat = 0)
    (hf : f < m.writeBackUnitSz.toNat) : (boundary + f) % m.writeBackUnitSz.toNat = f := by
  rw [Nat.add_mod, hunits, Nat.zero_add, Nat.mod_mod, Nat.mod_eq_of_lt hf]

theorem offset_mod (hd : Deliverable m) {total boundary f : Nat} (htotal : total ≤ m.tplcmdTotalSz.toNat)
    (hunits : boundary % m.writeBackUnitSz.toNat = 0) (hf : f < m.writeBackUnitSz.toNat) (hsum : boundary + f = total) :
    total % 2 ^ 32 % m.writeBackUnitSz.toNat = f := by
  have hmod : total % m.writeBackUnitSz.toNat = f := by
    rw [← hsum, unit_mod hunits hf]
  obtain hsmall | hdvd := hd.offsets
  · rw [@Nat.mod_eq_of_lt total (2 ^ 32) (by omega), hmod]
  · rw [Nat.mod_mod_of_dvd _ hdvd, hmod]

/-! ## One transfer -/

theorem slotBytes_toNat {n : Nat} (hn : n < 2 ^ 32) :
    ((ofNat n).toUInt64 * transferUnitSz.toUInt64).toNat = n * 0x10000 := by
  have hunit : transferUnitSz.toUInt64.toNat = 0x10000 := rfl
  rw [UInt64.toNat_mul, hunit, toNat_toUInt64, toNat_ofNat', Nat.mod_eq_of_lt hn]
  omega

theorem leftPktSz_toNat {m mgr : BufManager} (hm : Serves m mgr) {total : UInt64}
    (h : total.toNat ≤ m.tplcmdTotalSz.toNat) : (leftPktSz mgr total).toNat = m.tplcmdTotalSz.toNat - total.toNat := by
  rw [← hm.total] at h ⊢
  have hle : total ≤ mgr.tplcmdTotalSz := UInt64.le_iff_toNat_le.mpr h
  rw [leftPktSz, if_neg (UInt64.not_lt.mpr hle), UInt64.toNat_sub_of_le _ _ hle]

/-! ## One write back -/

/-- The call a write back makes. -/
def called (env : TransferEnv) (total : UInt64) (w : UInt32) (s : TransferState) : DownloadCall :=
  let leftSz := s.mgr.leftDataSz
  let size := leftSz + w
  let reserve := if leftPktSz s.mgr total ≠ 0 then s.mgr.itemOffsetNotAlignClusterSz else 0
  let handed := load s.mem (s.mgr.bufBase - leftSz.toNat) (size - reserve).toNat
  ⟨handed, leftSz, size, env.downloadImgData s.calls.length handed⟩

/-- The slot of the next write back. -/
def nextAfter (m : BufManager) (left : UInt64) : UInt32 :=
  if left ≥ m.writeBackUnitSz.toUInt64 then m.nextWriteBackSlot + m.writeBackUnitSz / transferUnitSz
  else m.nextWriteBackSlot + slotCount left.toUInt32

/-- The manager and the memory with `leftSz` bytes carried over after a call. -/
def carryOver (s : TransferState) (c : DownloadCall) (left : UInt64) (leftSz : UInt32) : TransferState where
  mgr := { s.mgr with leftDataSz := leftSz, nextWriteBackSlot := nextAfter s.mgr left }
  mem := if leftSz ≠ 0 then
      memcpy s.mem (s.mgr.bufBase - leftSz.toNat) s.mem
        (s.mgr.bufBase - c.leftSz.toNat + c.burnSz.toNat) leftSz.toNat
    else s.mem
  calls := s.calls ++ [c]

theorem writeBack_eq (env : TransferEnv) (total : UInt64) (w : UInt32) (s : TransferState) : writeBack env total w s =
      let c := called env total w s
      let left := leftPktSz s.mgr total
      let reserve := if left ≠ 0 then s.mgr.itemOffsetNotAlignClusterSz else 0
      let refused := (1, { s with calls := s.calls ++ [c] })
      if c.burnSz ≤ c.leftSz ∨ c.burnSz = 0 then refused
      else if c.size - reserve < c.burnSz then refused
      else if c.size - c.burnSz ≠ 0 ∧ (total ≥ s.mgr.tplcmdTotalSz ∨
          c.size - c.burnSz > leftDataMaxSz ∨ c.size - c.burnSz &&& 3 ≠ 0) then refused
      else (0, carryOver s c left (c.size - c.burnSz)) := rfl

theorem writeBack_calls (env : TransferEnv) (total : UInt64) (w : UInt32) (s : TransferState) :
    (writeBack env total w s).2.calls = s.calls ++ [called env total w s] := by
  rw [writeBack_eq]
  dsimp only
  split_ifs <;> rfl

/-- The buffer `buf` is there, its first bytes carried over, and `fut` is to come. -/
structure AtWriteBack (m : BufManager) (stream taken carried buf fut : List UInt8) (total : UInt64)
    (w : UInt32) (s : TransferState) : Prop where
  serves : Serves m s.mgr
  leftSz : s.mgr.leftDataSz.toNat = carried.length
  split : stream = taken ++ buf ++ fut
  mem : load s.mem (m.bufBase - carried.length) buf.length = buf
  size : carried.length + w.toNat = buf.length
  small : buf.length < 2 ^ 32
  coming : total.toNat + fut.length = m.tplcmdTotalSz.toNat
  reserved : m.itemOffsetNotAlignClusterSz.toNat ≤ carried.length
  position : consumed s.calls = taken.length
  presents : Presents stream s.calls

section WriteBack
variable {m : BufManager} {stream taken carried buf fut : List UInt8} {total : UInt64} {w : UInt32}
  {s : TransferState} (h : AtWriteBack m stream taken carried buf fut total w s) (env : TransferEnv)
include h

theorem AtWriteBack.left_toNat : (leftPktSz s.mgr total).toNat = fut.length := by
  have hcoming := h.coming
  rw [leftPktSz_toNat h.serves (by omega)]
  omega

theorem AtWriteBack.left_eq_zero : leftPktSz s.mgr total = 0 ↔ fut = [] := by
  rw [← length_eq_zero_iff, ← h.left_toNat, ← UInt64.toNat_inj]
  rfl

theorem AtWriteBack.size_toNat : (s.mgr.leftDataSz + w).toNat = buf.length := by
  have hsize := h.size
  have hsmall := h.small
  rw [toNat_add, h.leftSz, hsize, Nat.mod_eq_of_lt hsmall]

theorem AtWriteBack.handed_toNat : (s.mgr.leftDataSz + w -
      if leftPktSz s.mgr total ≠ 0 then s.mgr.itemOffsetNotAlignClusterSz else 0).toNat =
    buf.length - if fut = [] then 0 else m.itemOffsetNotAlignClusterSz.toNat := by
  have hreserved := h.reserved
  have hsize := h.size
  by_cases hfut : fut = []
  · rw [if_neg fun hne => hne (h.left_eq_zero.mpr hfut), if_pos hfut, UInt32.sub_zero, h.size_toNat, Nat.sub_zero]
  · rw [if_pos fun hz => hfut (h.left_eq_zero.mp hz), if_neg hfut, h.serves.item,
      UInt32.toNat_sub_of_le _ _ (le_iff_toNat_le.mpr (by rw [h.size_toNat]; omega)),
      h.size_toNat]

variable {c : DownloadCall} (hc : called env total w s = c)
include hc

theorem AtWriteBack.data_eq :
    c.data = buf.take (buf.length - if fut = [] then 0 else m.itemOffsetNotAlignClusterSz.toNat) := by
  have hload : c.data = load s.mem (m.bufBase - carried.length)
      (buf.length - if fut = [] then 0 else m.itemOffsetNotAlignClusterSz.toNat) := by
    rw [← h.handed_toNat, ← h.serves.base, ← h.leftSz, ← hc]
    rfl
  rw [hload]
  nth_rewrite 3 [← h.mem]
  rw [load_take, Nat.min_eq_left (Nat.sub_le _ _)]

omit hc in
theorem AtWriteBack.presents_next : Presents stream (writeBack env total w s).2.calls := by
  rw [writeBack_calls]
  refine h.presents.snoc ?_
  rw [h.position, h.split, append_assoc, drop_left, h.data_eq env rfl, length_take,
    Nat.min_eq_left (Nat.sub_le _ _), take_append_of_le_length (Nat.sub_le _ _)]

omit hc in
theorem AtWriteBack.delivered (hfut : fut = []) : Delivered stream (writeBack env total w s).2.calls := by
  refine ⟨h.presents_next env, ?_⟩
  rw [writeBack_calls, handedOver_append_single, h.position, h.data_eq env rfl, if_pos hfut, h.split, hfut]
  simp

theorem AtWriteBack.size_eq : c.size.toNat = buf.length := hc ▸ h.size_toNat

variable (hp : Promised c)
include hp

theorem AtWriteBack.burn_le : c.burnSz.toNat ≤ buf.length - if fut = [] then 0 else m.itemOffsetNotAlignClusterSz.toNat := by
  refine hp.consumes.trans ?_
  rw [h.data_eq env hc, length_take]
  exact Nat.min_le_left _ _

theorem AtWriteBack.kept_toNat : (c.size - c.burnSz).toNat = buf.length - c.burnSz.toNat := by
  have hburn := h.burn_le env hc hp
  have hsize := h.size_eq env hc
  rw [UInt32.toNat_sub_of_le _ _ (le_iff_toNat_le.mpr (by omega)), hsize]

/-- A consumer that keeps its promise is not refused before the end. -/
theorem AtWriteBack.goes_on (hfut : fut ≠ []) :
    writeBack env total w s = (0, carryOver s c (leftPktSz s.mgr total) (c.size - c.burnSz)) := by
  have hcoming := h.coming
  have hfutPos := length_pos_iff.mpr hfut
  have hkept := h.kept_toNat env hc hp
  have hsize := h.size_eq env hc
  have hhanded : ¬ c.size - (if leftPktSz s.mgr total ≠ 0 then s.mgr.itemOffsetNotAlignClusterSz else 0) < c.burnSz :=
    UInt32.not_lt.mpr (le_iff_toNat_le.mpr ((h.burn_le env hc hp).trans_eq (hc ▸ h.handed_toNat.symm)))
  rw [writeBack_eq, hc]
  have hprogress : ¬ (c.burnSz ≤ c.leftSz ∨ c.burnSz = 0) := by
    have hlt := lt_iff_toNat_lt.mp hp.progress
    rintro (hle | hzero)
    · exact Nat.not_lt.mpr (le_iff_toNat_le.mp hle) hlt
    · rw [hzero] at hlt
      exact Nat.not_lt_zero _ hlt
  have hleaves : ¬ (total ≥ s.mgr.tplcmdTotalSz ∨ c.size - c.burnSz > leftDataMaxSz ∨ c.size - c.burnSz &&& 3 ≠ 0) := by
    rintro (hend | hmany | hodd)
    · have hle := UInt64.le_iff_toNat_le.mp hend
      rw [h.serves.total] at hle
      omega
    · have hlt := lt_iff_toNat_lt.mp hmany
      have hleaves := hp.leaves
      omega
    · refine hodd (toNat_inj.mp ?_)
      have haligned := hp.aligned
      rw [hsize] at haligned
      rw [UInt32.toNat_and, hkept]
      exact (Nat.and_two_pow_sub_one_eq_mod _ 2).trans haligned
  rw [if_neg hprogress, if_neg hhanded, if_neg fun hbad => hleaves hbad.2]

/-- The bytes the consumer left are in front of the buffer. -/
theorem AtWriteBack.carryOver_mem (left : UInt64) : load (carryOver s c left (c.size - c.burnSz)).mem
      (m.bufBase - (buf.drop c.burnSz.toNat).length) (buf.drop c.burnSz.toNat).length = buf.drop c.burnSz.toNat := by
  have hburn := h.burn_le env hc hp
  have hkept := h.kept_toNat env hc hp
  have hleftSz : c.leftSz = s.mgr.leftDataSz := hc ▸ rfl
  have hfront : (buf.take c.burnSz.toNat).length = c.burnSz.toNat := by
    rw [length_take]
    omega
  rw [← length_drop] at hkept
  dsimp only [carryOver]
  split_ifs with hleft
  · have hmem := h.mem
    rw [← take_append_drop c.burnSz.toNat buf] at hmem
    have hrest := load_behind hmem
    rw [hfront, ← h.leftSz, ← hleftSz] at hrest
    rw [hkept, h.serves.base]
    exact (congrArg (load · _ _) (memcpy_of_load hrest)).trans (load_store _ _ _)
  · have hnil : buf.drop c.burnSz.toNat = [] := by
      rw [← length_eq_zero_iff, ← hkept, not_not.mp hleft]
      rfl
    rw [hnil]
    rfl

end WriteBack

theorem slotCount_toNat {size : UInt32} (h : size.toNat + 0xffff < 2 ^ 32) :
    (slotCount size).toNat = (size.toNat + 0xffff) / 0x10000 := by
  have hunit : transferUnitSz.toNat = 0x10000 := rfl
  have hone : (1 : UInt32).toNat = 1 := rfl
  rw [slotCount, toNat_div, UInt32.toNat_sub, toNat_add, hunit, hone]
  omega

theorem nextAfter_eq {m mgr : BufManager} (ha : Accepted m) (hm : Serves m mgr) {n boundary : Nat}
    {left : UInt64} (hnext : mgr.nextWriteBackSlot = ofNat (n + 1))
    (hboundary : boundary + m.writeBackUnitSz.toNat = (n + 1) * 0x10000)
    (hleft : (n + 1) * 0x10000 + left.toNat = m.tplcmdTotalSz.toNat) :
    nextAfter mgr left = ofNat (slotAt m (boundary + m.writeBackUnitSz.toNat)) := by
  have hunit := ha.unit
  have hlt := m.writeBackUnitSz.toNat_lt
  have hslot : transferUnitSz.toNat = 0x10000 := rfl
  rw [nextAfter, hnext, hm.unit, ← toNat_inj, slotAt, toNat_ofNat']
  split_ifs with hwhole
  · have hle := UInt64.le_iff_toNat_le.mp hwhole
    rw [toNat_toUInt64] at hle
    rw [toNat_add, toNat_ofNat', toNat_div, hslot]
    omega
  · have hrest := UInt64.lt_iff_toNat_lt.mp (UInt64.not_le.mp hwhole)
    rw [toNat_toUInt64] at hrest
    have hcut : left.toUInt32.toNat = left.toNat := by
      exact Nat.mod_eq_of_lt (by omega)
    rw [toNat_add, toNat_ofNat', slotCount_toNat (by omega), hcut]
    omega

theorem bulkTransfer_of_getBuf {env : TransferEnv} {bytes : List UInt8} {s s' : TransferState} {pBuf : Nat}
    (hget : optimusBufManagerGetBufForBulkTransfer env (ofNat bytes.length) s = (0, pBuf, s')) :
    bulkTransfer env bytes s = optimusBufManagerReportTransferComplete env (ofNat bytes.length)
      { s' with mem := store s'.mem pBuf bytes } := by
  rw [bulkTransfer, hget]
  rfl

section Transfer
variable {m : BufManager} (ha : Accepted m) (hd : Deliverable m) {stream : List UInt8} {n boundary : Nat}
  {taken carried fresh piece fut : List UInt8} {s : TransferState} (env : TransferEnv)
  (h : Buffering m stream n boundary taken carried fresh (piece ++ fut) s)
  (hlen : piece.length = min 0x10000 (piece ++ fut).length) (hpos : 0 < piece.length)
include ha hd h hlen hpos

omit ha hlen in
theorem slots_lt : n < 2 ^ 32 := by
  have hcoming := h.coming
  have hslots := hd.slots
  rw [length_append] at hcoming
  omega

omit ha hd h hpos in
theorem piece_toNat : (ofNat piece.length).toNat = piece.length := by
  rw [toNat_ofNat', Nat.mod_eq_of_lt (by omega)]

/-- The piece goes right behind what has arrived. -/
theorem getBuf_spec : ∃ sta, optimusBufManagerGetBufForBulkTransfer env (ofNat piece.length) s =
      (0, m.bufBase + fresh.length, { s with mgr := { s.mgr with pktTransferSta := sta } }) := by
  have hcoming := h.coming
  have htotal := slotBytes_toNat (slots_lt hd h hpos)
  have hpiece := piece_toNat hlen
  unfold optimusBufManagerGetBufForBulkTransfer
  dsimp only
  rw [h.slotNum, h.serves.unit, h.serves.base]
  have hoffset : (((ofNat n).toUInt64 * transferUnitSz.toUInt64).toUInt32 %
      m.writeBackUnitSz).toNat = fresh.length := by
    rw [toNat_mod, UInt64.toNat_toUInt32, htotal]
    exact offset_mod hd (by omega) h.units h.room h.filled
  -- a piece below 64 KiB is all that is left
  have hlast : ¬ (ofNat piece.length < transferUnitSz ∧
      leftPktSz s.mgr ((ofNat n).toUInt64 * transferUnitSz.toUInt64) ≠
        (ofNat piece.length).toUInt64) := by
    rintro ⟨hshort, hne⟩
    have hshort' : piece.length < 0x10000 := by
      rw [← hpiece]
      exact lt_iff_toNat_lt.mp hshort
    refine hne (UInt64.toNat_inj.mp ?_)
    rw [leftPktSz_toNat h.serves (by omega), htotal, toNat_toUInt64, hpiece]
    omega
  have hdownload : ¬ s.mgr.isUpload = true := by
    rw [h.serves.upload, ha.download]
    exact Bool.false_ne_true
  rw [if_neg hlast, if_neg fun hup => hdownload hup.2, hoffset]
  exact ⟨.working, rfl⟩

/-- The state in which a transfer is reported. -/
def received (m : BufManager) (fresh piece : List UInt8) (sta : PktTransferSta) (s : TransferState) :
    TransferState :=
  { s with
    mgr := { s.mgr with pktTransferSta := sta }
    mem := store s.mem (m.bufBase + fresh.length) piece }

variable (sta : PktTransferSta)

omit ha hd hlen hpos in
theorem received_mem : load (received m fresh piece sta s).mem (m.bufBase - carried.length)
      (carried ++ fresh ++ piece).length = carried ++ fresh ++ piece := by
  have hbase : carried.length ≤ m.bufBase := by
    rw [← h.leftSz]
    exact s.mgr.leftDataSz.toNat_lt.le.trans (Nat.le_add_right _ _)
  have hpos : m.bufBase + fresh.length = m.bufBase - carried.length + (carried ++ fresh).length := by
    rw [length_append]
    omega
  rw [received, hpos]
  exact load_store_behind h.mem piece

/-- `totalTransferSz` behind the piece. -/
def totalBehind (n : Nat) (piece : List UInt8) : UInt64 :=
  (UInt32.ofNat n).toUInt64 * transferUnitSz.toUInt64 + (UInt32.ofNat piece.length).toUInt64

omit ha in
theorem totalBehind_toNat : (totalBehind n piece).toNat = n * 0x10000 + piece.length := by
  have hcoming := h.coming
  have htotal := m.tplcmdTotalSz.toNat_lt
  rw [totalBehind, UInt64.toNat_add, slotBytes_toNat (slots_lt hd h hpos), toNat_toUInt64,
    piece_toNat hlen, Nat.mod_eq_of_lt (by omega)]

omit ha hd hlen in
theorem lt_slotAt : n < slotAt m boundary := by
  have hcoming := h.coming
  have hfilled := h.filled
  have hroom := h.room
  rw [length_append] at hcoming
  unfold slotAt
  omega

omit ha hlen in
theorem isNextSlot_iff : ofNat n + 1 = ofNat (slotAt m boundary) ↔ n + 1 = slotAt m boundary := by
  have hlt := lt_slotAt h hpos
  have hle : slotAt m boundary ≤ 2 ^ 32 := by
    have hslots := hd.slots
    unfold slotAt
    omega
  rw [← toNat_inj, toNat_add, toNat_ofNat', toNat_ofNat',
    show (1 : UInt32).toNat = 1 from rfl]
  omega

omit ha hd in
theorem short_of_slot (hslot : n + 1 < slotAt m boundary) :
    piece.length = 0x10000 ∧ fresh.length + piece.length < m.writeBackUnitSz.toNat := by
  have hcoming := h.coming
  have hfilled := h.filled
  unfold slotAt at hslot
  omega

omit hd hlen hpos in
theorem boundary_slots : boundary % 0x10000 = 0 :=
  Nat.mod_eq_zero_of_dvd ((Nat.dvd_of_mod_eq_zero ha.unit).trans (Nat.dvd_of_mod_eq_zero h.units))

section
variable (hslot : n + 1 = slotAt m boundary)
include hslot

/-- A write back comes at the end of a unit or at the end of the stream. -/
theorem at_slot : piece.length = 0x10000 ∧ boundary + m.writeBackUnitSz.toNat = (n + 1) * 0x10000 ∨
      fut = [] ∧ piece.length < 0x10000 ∧ fresh.length + piece.length < m.writeBackUnitSz.toNat := by
  have hcoming := h.coming
  have hfilled := h.filled
  have hunit := ha.unit
  have hboundary := boundary_slots ha h
  rw [length_append] at hcoming hlen
  unfold slotAt at hslot
  by_cases hwhole : boundary + m.writeBackUnitSz.toNat ≤ m.tplcmdTotalSz.toNat
  · exact .inl ⟨by omega, by omega⟩
  right
  have hfut : fut = [] := length_eq_zero_iff.mp (by omega)
  -- a full last slot would end a unit
  have hshort : piece.length ≠ 0x10000 := by
    intro hfull
    have htotal : m.tplcmdTotalSz.toNat = boundary + (fresh.length + piece.length) := by
      omega
    have hmod := unit_mod h.units (f := fresh.length + piece.length) (by omega)
    rw [← htotal] at hmod
    have hlast := hd.lastUnit
    omega
  exact ⟨hfut, by omega, by omega⟩

/-- The size of a write back. -/
def unitBehind (m : BufManager) (n : Nat) (piece : List UInt8) : UInt32 :=
  if transferUnitSz = UInt32.ofNat piece.length then m.writeBackUnitSz
  else (totalBehind n piece).toUInt32 % m.writeBackUnitSz

theorem unitBehind_toNat : (unitBehind m n piece).toNat = fresh.length + piece.length := by
  have hcoming := h.coming
  have hfilled := h.filled
  have hpiece := piece_toNat hlen
  have hfull : transferUnitSz = ofNat piece.length ↔ piece.length = 0x10000 := by
    rw [← toNat_inj, hpiece, show transferUnitSz.toNat = 0x10000 from rfl]
    exact eq_comm
  rw [unitBehind]
  obtain ⟨hslotFull, hboundary⟩ | ⟨hfut, hshort, hroom⟩ := at_slot ha hd h hlen hpos hslot
  · rw [if_pos (hfull.mpr hslotFull)]
    omega
  · rw [if_neg fun heq => Nat.ne_of_lt hshort (hfull.mp heq), toNat_mod,
      UInt64.toNat_toUInt32, totalBehind_toNat hd h hlen hpos]
    exact offset_mod hd (by omega) h.units hroom (by omega)

/-- The transfer counted. -/
def counted (m : BufManager) (fresh piece : List UInt8) (sta : PktTransferSta) (s : TransferState) :
    TransferState :=
  { received m fresh piece sta s with
    mgr := { s.mgr with pktTransferSta := sta, totalSlotNum := s.mgr.totalSlotNum + 1 } }

omit ha hlen hslot in
theorem report_eq : optimusBufManagerReportTransferComplete env (ofNat piece.length)
        (received m fresh piece sta s) = if n + 1 = slotAt m boundary then
        writeBack env (totalBehind n piece) (unitBehind m n piece) (counted m fresh piece sta s)
      else (0, counted m fresh piece sta s) := by
  have hnext : s.mgr.totalSlotNum + 1 = s.mgr.nextWriteBackSlot ↔ n + 1 = slotAt m boundary := by
    rw [h.slotNum, h.nextSlot]
    exact isNextSlot_iff hd h hpos
  rw [unitBehind, totalBehind, ← h.slotNum, ← h.serves.unit]
  by_cases hslot : n + 1 = slotAt m boundary
  · rw [if_pos hslot]
    exact if_pos (hnext.mpr hslot)
  · rw [if_neg hslot]
    exact if_neg fun heq => hslot (hnext.mp heq)

omit ha hlen hpos hd hslot in
theorem counted_serves : Serves m (counted m fresh piece sta s).mgr :=
  ⟨h.serves.unit, h.serves.total, h.serves.upload, h.serves.item, h.serves.base⟩

omit ha hd hslot in
theorem counted_buffering (hslot : n + 1 < slotAt m boundary) :
    Buffering m stream (n + 1) boundary taken carried (fresh ++ piece) fut (counted m fresh piece sta s) := by
  obtain ⟨hfull, hroom⟩ := short_of_slot h hlen hpos hslot
  have hcoming := h.coming
  have hfilled := h.filled
  rw [length_append] at hcoming
  refine ⟨counted_serves h sta, ?_, h.nextSlot, h.leftSz, ?_, ?_, h.units, ?_, ?_, ?_, h.reserved,
    h.left, h.position, h.presents⟩
  · rw [ofNat_add, ← h.slotNum]
    rfl
  · rw [h.split]
    simp only [append_assoc]
  · rw [← append_assoc]
    exact received_mem h sta
  · rw [length_append]
    omega
  · rw [length_append]
    exact hroom
  · rw [← hcoming, hfull, Nat.add_mul, Nat.one_mul, Nat.add_assoc]

theorem buffered_lt : carried.length + (fresh.length + piece.length) < 2 ^ 32 := by
  have hcoming := h.coming
  have hfilled := h.filled
  have hunit : fresh.length + piece.length ≤ m.writeBackUnitSz.toNat := by
    obtain ⟨_, hboundary⟩ | ⟨_, _, hroom⟩ := at_slot ha hd h hlen hpos hslot
    · omega
    · exact hroom.le
  obtain ⟨rfl, hcarried⟩ | ⟨hboundary, hcarried⟩ := h.left
  · have hfirst := hd.first
    omega
  · have hle := Nat.le_of_dvd hboundary (Nat.dvd_of_mod_eq_zero h.units)
    have hlater := hd.later
    omega

theorem counted_atWriteBack : AtWriteBack m stream taken carried (carried ++ fresh ++ piece) fut (totalBehind n piece)
      (unitBehind m n piece) (counted m fresh piece sta s) := by
  have hcoming := h.coming
  have hunit := unitBehind_toNat ha hd h hlen hpos hslot
  rw [length_append] at hcoming
  refine ⟨counted_serves h sta, h.leftSz, ?_, received_mem h sta, ?_, ?_, ?_, h.reserved, h.position, h.presents⟩
  · rw [h.split]
    simp only [append_assoc]
  · rw [hunit, append_assoc, length_append, length_append]
  · rw [append_assoc, length_append, length_append]
    exact buffered_lt ha hd h hlen hpos hslot
  · rw [totalBehind_toNat hd h hlen hpos, ← hcoming, Nat.add_assoc]

/-- After a write back before the end the next unit begins. -/
theorem carryOver_buffering (hfut : fut ≠ []) {c : DownloadCall} (hp : Promised c)
    (hc : called env (totalBehind n piece) (unitBehind m n piece) (counted m fresh piece sta s) = c) :
    ∃ taken' carried', Buffering m stream (n + 1) (boundary + m.writeBackUnitSz.toNat) taken' carried' []
      fut (writeBack env (totalBehind n piece) (unitBehind m n piece) (counted m fresh piece sta s)).2 := by
  have hat := counted_atWriteBack ha hd h hlen hpos sta hslot
  obtain ⟨hfull, hboundary⟩ | ⟨hnil, _⟩ := at_slot ha hd h hlen hpos hslot
  case inr => exact absurd hnil hfut
  have hcoming := h.coming
  have hkept := hat.kept_toNat env hc hp
  have hburn := hat.burn_le env hc hp
  have hreserved := h.reserved
  have hpresents := hat.presents_next env
  have hsize := hat.size_eq env hc
  rw [writeBack_calls, hc] at hpresents
  rw [if_neg hfut] at hburn
  rw [length_append] at hcoming
  rw [hat.goes_on env hc hp hfut]
  refine ⟨taken ++ (carried ++ fresh ++ piece).take c.burnSz.toNat, (carried ++ fresh ++ piece).drop c.burnSz.toNat, ?_⟩
  constructor
  case serves => exact ⟨h.serves.unit, h.serves.total, h.serves.upload, h.serves.item, h.serves.base⟩
  case slotNum =>
    rw [ofNat_add, ← h.slotNum]
    rfl
  case nextSlot =>
    refine nextAfter_eq ha (counted_serves h sta) ?_ hboundary ?_
    · rw [hslot]
      exact h.nextSlot
    · rw [hat.left_toNat, ← hcoming, hfull, Nat.add_mul, Nat.one_mul, Nat.add_assoc]
  case leftSz =>
    rw [length_drop]
    exact hkept
  case split =>
    rw [append_nil, append_assoc taken, take_append_drop]
    exact hat.split
  case mem =>
    rw [append_nil]
    exact hat.carryOver_mem env hc hp _
  case units => rw [Nat.add_mod_right, h.units]
  case filled => exact hboundary
  case room => exact ha.unitPos
  case coming => rw [← hcoming, hfull, Nat.add_mul, Nat.one_mul, Nat.add_assoc]
  case reserved =>
    rw [length_drop]
    simp only [length_append] at hburn ⊢
    omega
  case left =>
    right
    have hleaves := hp.leaves
    rw [length_drop]
    exact ⟨by omega, by omega⟩
  case position =>
    have hposition : consumed (counted m fresh piece sta s).calls = taken.length := h.position
    rw [length_append, length_take, Nat.min_eq_left (by omega), ← hposition]
    exact consumed_append_single _ c
  case presents => exact hpresents

end

theorem bulkTransfer_cases : ∃ sta, bulkTransfer env piece s = if n + 1 = slotAt m boundary then
      writeBack env (totalBehind n piece) (unitBehind m n piece) (counted m fresh piece sta s)
    else (0, counted m fresh piece sta s) := by
  obtain ⟨sta, hget⟩ := getBuf_spec ha hd env h hlen hpos
  exact ⟨sta, (bulkTransfer_of_getBuf hget).trans (report_eq hd env h hpos sta)⟩

theorem bulkTransfer_last (hfut : fut = []) : Delivered stream (bulkTransfer env piece s).2.calls := by
  obtain ⟨sta, heq⟩ := bulkTransfer_cases ha hd env h hlen hpos
  have hslot : n + 1 = slotAt m boundary := by
    have hlt := lt_slotAt h hpos
    have hcoming := h.coming
    rw [hfut, append_nil] at hcoming hlen
    unfold slotAt at hlt ⊢
    omega
  rw [heq, if_pos hslot]
  exact (counted_atWriteBack ha hd h hlen hpos sta hslot).delivered env hfut

theorem bulkTransfer_goes_on (hfut : fut ≠ []) (hp : ∀ c ∈ (bulkTransfer env piece s).2.calls, Promised c) :
    (bulkTransfer env piece s).1 = 0 ∧ ∃ boundary' taken' carried' fresh',
      Buffering m stream (n + 1) boundary' taken' carried' fresh' fut (bulkTransfer env piece s).2 := by
  obtain ⟨sta, heq⟩ := bulkTransfer_cases ha hd env h hlen hpos
  rw [heq] at hp ⊢
  split_ifs at hp ⊢ with hslot
  · rw [writeBack_calls] at hp
    have hcall := hp _ (mem_append_right _ (mem_singleton_self _))
    obtain ⟨taken', carried', hnext⟩ :=
      carryOver_buffering ha hd env h hlen hpos sta hslot hfut hcall rfl
    refine ⟨?_, _, _, _, _, hnext⟩
    rw [(counted_atWriteBack ha hd h hlen hpos sta hslot).goes_on env rfl hcall hfut]
  · have hlt := lt_slotAt h hpos
    exact ⟨rfl, _, _, _, _, counted_buffering h hlen hpos sta (by omega)⟩

end Transfer

/-! ## A whole download -/

/-- Full slots, then a last transfer of at most one slot. -/
def Slotted : List (List UInt8) → Prop
  | [] => True
  | [piece] => 0 < piece.length ∧ piece.length ≤ 0x10000
  | piece :: next :: rest => piece.length = 0x10000 ∧ Slotted (next :: rest)

variable {piece : List UInt8}

theorem Slotted.tail (h : Slotted (piece :: rest)) : Slotted rest := by
  cases rest with
  | nil => trivial
  | cons next rest => exact h.2

theorem Slotted.pos (h : Slotted (piece :: rest)) : 0 < piece.length := by
  cases rest with
  | nil => exact h.1
  | cons next rest => rw [h.1]; decide

theorem Slotted.length_eq (h : Slotted (piece :: rest)) :
    piece.length = min 0x10000 (piece ++ rest.flatten).length := by
  rw [length_append]
  cases rest with
  | nil =>
    have hle := h.2
    simp only [flatten_nil, length_nil]
    omega
  | cons next rest =>
    have heq := h.1
    omega

section
variable (env : TransferEnv)
include env

theorem getBuf_calls (wantSz : UInt32) (s : TransferState) :
    (optimusBufManagerGetBufForBulkTransfer env wantSz s).2.2.calls = s.calls := by
  unfold optimusBufManagerGetBufForBulkTransfer
  dsimp only
  split_ifs <;> rfl

theorem report_calls (transferSz : UInt32) (s : TransferState) :
    s.calls <+: (optimusBufManagerReportTransferComplete env transferSz s).2.calls := by
  unfold optimusBufManagerReportTransferComplete
  dsimp only
  generalize (if transferUnitSz = transferSz then _ else _) = w
  split_ifs
  · rw [writeBack_calls]
    exact prefix_append _ _
  · exact prefix_rfl

variable (piece : List UInt8)

theorem bulkTransfer_calls (s : TransferState) : s.calls <+: (bulkTransfer env piece s).2.calls := by
  have hget := getBuf_calls env (ofNat piece.length) s
  rw [bulkTransfer]
  split
  next pBuf s' heq =>
    rw [heq] at hget
    exact hget ▸ report_calls env (ofNat piece.length) { s' with mem := store s'.mem pBuf piece }
  next heq =>
    rw [heq] at hget
    exact hget ▸ prefix_rfl

theorem bulkTransfers_cons (rest : List (List UInt8)) (s : TransferState) : bulkTransfers env (piece :: rest) s =
      if (bulkTransfer env piece s).1 = 0 then bulkTransfers env rest (bulkTransfer env piece s).2
      else bulkTransfer env piece s := by
  rw [bulkTransfers]
  split
  next s' heq => rw [heq, if_pos rfl]
  next ret s' hne heq =>
    rw [heq, if_neg]
    intro hz
    exact hne hz

theorem bulkTransfers_calls (pieces : List (List UInt8)) (s : TransferState) :
    s.calls <+: (bulkTransfers env pieces s).2.calls := by
  induction pieces generalizing s with
  | nil => exact prefix_rfl
  | cons piece rest ih =>
    have hstep := bulkTransfer_calls env piece s
    rw [bulkTransfers_cons]
    split_ifs with hok
    · exact hstep.trans (ih _)
    · exact hstep

theorem bulkTransfer_calls_of_run (rest : List (List UInt8)) (s : TransferState) :
    (bulkTransfer env piece s).2.calls <+: (bulkTransfers env (piece :: rest) s).2.calls := by
  rw [bulkTransfers_cons]
  split_ifs with hok
  · exact bulkTransfers_calls env rest _
  · exact prefix_rfl

end

/-- From any point of a download on, by induction over the transfers to come. -/
theorem bulkTransfers_delivered (ha : Accepted m) (hd : Deliverable m) (env : TransferEnv) {stream : List UInt8}
    (pieces : List (List UInt8)) (hne : pieces ≠ []) (hslotted : Slotted pieces) {n boundary : Nat}
    {taken carried fresh : List UInt8} {s : TransferState}
    (h : Buffering m stream n boundary taken carried fresh pieces.flatten s)
    (hp : ∀ c ∈ (bulkTransfers env pieces s).2.calls, Promised c) :
    Delivered stream (bulkTransfers env pieces s).2.calls := by
  induction pieces generalizing n boundary taken carried fresh s with
  | nil => exact absurd rfl hne
  | cons piece rest ih =>
    cases rest with
    | nil =>
      have hlast := bulkTransfer_last ha hd env h hslotted.length_eq hslotted.pos rfl
      rw [bulkTransfers_cons]
      split_ifs with hok
      all_goals exact hlast
    | cons next rest =>
      have hfut : (next :: rest).flatten ≠ [] := by
        intro hnil
        have hnext := hslotted.tail.pos
        rw [flatten_cons, append_eq_nil_iff] at hnil
        rw [hnil.1] at hnext
        exact nomatch hnext
      have hstep : ∀ c ∈ (bulkTransfer env piece s).2.calls, Promised c := fun c hc =>
        hp c ((bulkTransfer_calls_of_run env piece (next :: rest) s).subset hc)
      obtain ⟨hok, boundary', taken', carried', fresh', hnext⟩ :=
        bulkTransfer_goes_on ha hd env h hslotted.length_eq hslotted.pos hfut hstep
      rw [bulkTransfers_cons, if_pos hok] at hp ⊢
      exact ih (cons_ne_nil _ _) hslotted.tail hnext hp

/-! ## The start of a download -/

theorem slotsFor_slots (pktSz : UInt64) : (slotsFor pktSz).toNat % 0x10000 = 0 := by
  have h16 : (16 : UInt32).toNat % 32 = 16 := rfl
  rw [slotsFor, UInt32.toNat_shiftLeft, UInt32.toNat_shiftRight, h16, Nat.shiftLeft_eq]
  omega

theorem writeBackUnitSz_slots (cmd : TplCmd) : cmd.writeBackUnitSz.toNat % 0x10000 = 0 := by
  unfold TplCmd.writeBackUnitSz
  split_ifs
  · exact slotsFor_slots _
  · exact slotsFor_slots _
  · rfl
  · rfl

section
variable (hinit : optimusBufManagerTplcmdInit cmd m0 = (0, m))
include hinit

/-- What an accepted command leaves in the manager. -/
theorem tplcmdInit_ok : transferUnitSz ≤ cmd.writeBackUnitSz ∧ ∃ dest base,
      m = { writeBackUnitSz := cmd.writeBackUnitSz
            tplcmdTotalSz := cmd.pktSz
            totalSlotNum := 0
            nextWriteBackSlot :=
              if cmd.isUpload then 0
              else if cmd.pktSz < cmd.writeBackUnitSz.toUInt64 then slotCount cmd.pktSz.toUInt32
              else cmd.writeBackUnitSz / transferUnitSz
            leftDataSz := cmd.itemSizeNotAligned
            isUpload := cmd.isUpload
            pktTransferSta := .empty
            destMem := dest
            partBaseOffset := base
            itemOffsetNotAlignClusterSz := cmd.itemSizeNotAligned } := by
  have hrefused : ∀ m' : BufManager, ((1 : Int), m') ≠ (0, m) := fun m' heq =>
    absurd (Prod.mk.inj heq).1 (by decide)
  unfold optimusBufManagerTplcmdInit at hinit
  dsimp only at hinit
  generalize (if cmd.isUpload = true then (0 : UInt32) else _) = next at hinit ⊢
  generalize (if cmd.cacheAll2Mem = true then _ else _) = m1 at hinit
  split_ifs at hinit with hwhole hhigh hbuf hunit
  · exact absurd hinit (hrefused _)
  · exact absurd hinit (hrefused _)
  · exact absurd hinit (hrefused _)
  · exact absurd hinit (hrefused _)
  · exact ⟨UInt32.not_lt.mp hunit, _, _, (Prod.mk.inj hinit).2.symm⟩

theorem tplcmdInit_accepted (hdown : cmd.isUpload = false) : Accepted m := by
  obtain ⟨hunit, dest, base, rfl⟩ := tplcmdInit_ok hinit
  have hle := le_iff_toNat_le.mp hunit
  have hslot : transferUnitSz.toNat = 0x10000 := rfl
  exact ⟨writeBackUnitSz_slots cmd, by dsimp only; omega, hdown⟩

theorem tplcmdInit_nextSlot (hdown : cmd.isUpload = false) : m.nextWriteBackSlot = ofNat (slotAt m 0) := by
  have hunit := (tplcmdInit_accepted hinit hdown).unit
  have hlt := m.writeBackUnitSz.toNat_lt
  have hslot : transferUnitSz.toNat = 0x10000 := rfl
  obtain ⟨_, dest, base, rfl⟩ := tplcmdInit_ok hinit
  dsimp only [slotAt] at hunit hlt ⊢
  rw [if_neg (by rw [hdown]; exact Bool.false_ne_true), ← toNat_inj, toNat_ofNat']
  split_ifs with hshort
  · have hrest := UInt64.lt_iff_toNat_lt.mp hshort
    rw [toNat_toUInt64] at hrest
    have hcut : cmd.pktSz.toUInt32.toNat = cmd.pktSz.toNat := by
      exact Nat.mod_eq_of_lt (by omega)
    rw [slotCount_toNat (by omega), hcut]
    omega
  · have hle := UInt64.le_iff_toNat_le.mp (UInt64.not_lt.mp hshort)
    rw [toNat_toUInt64] at hle
    rw [toNat_div, hslot]
    omega

/-- The invariant right after an accepted command, the preloaded bytes in front of the
buffer. -/
theorem tplcmdInit_buffering (hdown : cmd.isUpload = false) {pre fut : List UInt8}
    (hpre : pre.length = m.itemOffsetNotAlignClusterSz.toNat) (hfut : fut.length = m.tplcmdTotalSz.toNat) {mem : Memory}
    (hmem : load mem (m.bufBase - pre.length) pre.length = pre) :
    Buffering m (pre ++ fut) 0 0 [] pre [] fut ⟨m, mem, []⟩ := by
  have hnext := tplcmdInit_nextSlot hinit hdown
  have hunit := (tplcmdInit_accepted hinit hdown).unitPos
  have hleft : m.leftDataSz = m.itemOffsetNotAlignClusterSz ∧ m.totalSlotNum = 0 := by
    obtain ⟨_, dest, base, rfl⟩ := tplcmdInit_ok hinit
    exact ⟨rfl, rfl⟩
  constructor
  case serves => exact ⟨rfl, rfl, rfl, rfl, rfl⟩
  case slotNum => exact hleft.2
  case nextSlot => exact hnext
  case leftSz => rw [hpre, ← hleft.1]
  case split => rw [nil_append, append_nil]
  case mem =>
    rw [append_nil]
    exact hmem
  case units => exact Nat.zero_mod _
  case filled => rfl
  case room => exact hunit
  case coming => rw [Nat.zero_mul, Nat.zero_add, hfut]
  case reserved => exact hpre.ge
  case left => exact .inl ⟨rfl, hpre⟩
  case position => rfl
  case presents => exact .nil _

end

/-- For a command the manager can serve, the consumer is handed the preloaded bytes and
the transferred ones, in order and with nothing behind them. -/
theorem download_delivers_stream {cmd : TplCmd} {m0 m : BufManager}
    (hinit : optimusBufManagerTplcmdInit cmd m0 = (0, m)) (hdown : cmd.isUpload = false) (hd : Deliverable m)
    {pre : List UInt8} (hpre : pre.length = m.itemOffsetNotAlignClusterSz.toNat) {mem : Memory}
    (hmem : load mem (m.bufBase - pre.length) pre.length = pre) {pieces : List (List UInt8)} (hslotted : Slotted pieces)
    (htotal : pieces.flatten.length = m.tplcmdTotalSz.toNat) (env : TransferEnv)
    (hp : ∀ c ∈ (bulkTransfers env pieces ⟨m, mem, []⟩).2.calls, Promised c) :
    Delivered (pre ++ pieces.flatten) (bulkTransfers env pieces ⟨m, mem, []⟩).2.calls := by
  by_cases hne : pieces = []
  · -- an empty packet: nothing to hand over
    subst hne
    have hempty : pre = [] := by
      have hnonempty := hd.nonempty
      rw [flatten_nil, length_nil] at htotal
      exact length_eq_zero_iff.mp (by omega)
    exact ⟨.nil _, by rw [hempty]; rfl⟩
  · exact bulkTransfers_delivered (tplcmdInit_accepted hinit hdown) hd env pieces hne hslotted
      (tplcmdInit_buffering hinit hdown hpre htotal hmem) hp

/-! ## Fixed commands -/

def idleManager : BufManager := ⟨0, 0, 0, 0, 0, false, .empty, false, 0, 0⟩

/-- A consumer that disposes of whatever it gets. -/
def consumeAll : TransferEnv where
  downloadImgData _ data := UInt32.ofNat data.length
  dumpStorageData mem _ size := (size, mem)

/-- Nine bytes of an image whose first four are not aligned to a cluster. -/
def unalignedItem : TplCmd := ⟨"store", "system", 0, "normal", 9, false, 4⟩

/-- A sparse image of one slot. -/
def sparseOfOneSlot : TplCmd := ⟨"store", "system", 0, "sparse", 0x10000, false, 0⟩

/-- The manager of an accepted command. -/
def managerOf (cmd : TplCmd) : BufManager := (optimusBufManagerTplcmdInit cmd idleManager).2

/-- Four bytes in front of the transfer buffer. -/
def preloaded : Memory := store zeroed (2 ^ 32 + transferBuf - 4) [1, 2, 3, 4]

theorem unalignedItem_delivered : Delivered ([1, 2, 3, 4] ++ [[5, 6, 7, 8, 9]].flatten)
      (bulkTransfers consumeAll [[5, 6, 7, 8, 9]] ⟨managerOf unalignedItem, preloaded, []⟩).2.calls := by
  refine @download_delivers_stream unalignedItem idleManager (managerOf unalignedItem) (by decide) rfl
    ?_ [1, 2, 3, 4] rfl preloaded (by decide +kernel) [[5, 6, 7, 8, 9]] ?_ rfl consumeAll ?_
  · constructor <;> decide
  · exact ⟨by decide, by decide⟩
  · intro c hc
    rw [mem_singleton.mp hc]
    constructor <;> decide

/-- The manager of that image, with its slot asked for and reported. -/
def slotAsked : BufManager := ⟨0x4000000, 0x10000, 0, 1, 0, false, .working, false, 0, 0⟩

def slotReported : BufManager := { slotAsked with totalSlotNum := 1 }

theorem sparseOfOneSlot_getBuf (mem : Memory) :
    optimusBufManagerGetBufForBulkTransfer consumeAll 0x10000 ⟨managerOf sparseOfOneSlot, mem, []⟩ =
      (0, 2 ^ 32 + transferBuf, ⟨slotAsked, mem, []⟩) := by
  unfold optimusBufManagerGetBufForBulkTransfer
  dsimp only
  rfl

theorem sparseOfOneSlot_transfer (hlen : piece.length = 0x10000) (mem : Memory) :
    bulkTransfer consumeAll piece ⟨managerOf sparseOfOneSlot, mem, []⟩ = writeBack consumeAll 0x10000 0x4000000
        ⟨slotReported, store mem (2 ^ 32 + transferBuf) piece, []⟩ := by
  have hsz : ofNat piece.length = 0x10000 := by
    rw [hlen]
    decide
  have hnext : slotAsked.totalSlotNum + 1 = slotAsked.nextWriteBackSlot := by decide
  have htotal : slotAsked.totalSlotNum.toUInt64 * transferUnitSz.toUInt64 +
      (0x10000 : UInt32).toUInt64 = 0x10000 := by decide
  have hfull : transferUnitSz = 0x10000 := rfl
  have hget := sparseOfOneSlot_getBuf mem
  rw [← hsz] at hget
  rw [bulkTransfer_of_getBuf hget, hsz]
  unfold optimusBufManagerReportTransferComplete
  rw [if_pos hnext, htotal, if_pos hfull]
  rfl

theorem sparseOfOneSlot_calls (hlen : piece.length = 0x10000) (mem : Memory) : ∃ data, data.length = 0x4000000 ∧
      (bulkTransfers consumeAll [piece] ⟨managerOf sparseOfOneSlot, mem, []⟩).2.calls =
        [⟨data, 0, 0x4000000, 0x4000000⟩] := by
  have hcalls := writeBack_calls consumeAll 0x10000 0x4000000
    ⟨slotReported, store mem (2 ^ 32 + transferBuf) piece, []⟩
  rw [← sparseOfOneSlot_transfer hlen] at hcalls
  have hsize : (slotReported.leftDataSz + 0x4000000 - if leftPktSz slotReported 0x10000 ≠ 0 then
      slotReported.itemOffsetNotAlignClusterSz else 0).toNat = 0x4000000 := by decide
  refine ⟨load (store mem (2 ^ 32 + transferBuf) piece) (2 ^ 32 + transferBuf) 0x4000000, load_length _ _ _, ?_⟩
  have hrun : (bulkTransfers consumeAll [piece] ⟨managerOf sparseOfOneSlot, mem, []⟩).2.calls =
      (bulkTransfer consumeAll piece ⟨managerOf sparseOfOneSlot, mem, []⟩).2.calls := by
    rw [bulkTransfers_cons]
    split_ifs <;> rfl
  have hbase : slotReported.bufBase - slotReported.leftDataSz.toNat = 2 ^ 32 + transferBuf := by decide
  have hsum : slotReported.leftDataSz + 0x4000000 = 0x4000000 := by decide
  have hburn : ∀ data : List UInt8, data.length = 0x4000000 → consumeAll.downloadImgData 0 data = 0x4000000 := by
    intro data hdata
    have hlength : consumeAll.downloadImgData 0 data = ofNat data.length := rfl
    rw [hlength, hdata]
    decide
  rw [hrun, hcalls, called]
  rw [hsize, hbase, hsum, length_nil, hburn _ (load_length _ _ _)]
  rfl

/-- The sparse image of one slot: the consumer keeps its promise and is handed 64 MiB. -/
theorem last_full_slot_overruns : (optimusBufManagerTplcmdInit sparseOfOneSlot idleManager).1 = 0 ∧
      (∀ c ∈ (bulkTransfers consumeAll [List.replicate 0x10000 0xa5]
        ⟨managerOf sparseOfOneSlot, zeroed, []⟩).2.calls, Promised c) ∧ ¬ Delivered (List.replicate 0x10000 0xa5)
        (bulkTransfers consumeAll [List.replicate 0x10000 0xa5] ⟨managerOf sparseOfOneSlot, zeroed, []⟩).2.calls := by
  obtain ⟨data, hdata, hcalls⟩ :=
    sparseOfOneSlot_calls (length_replicate) zeroed
  refine ⟨by decide, ?_, ?_⟩
  · rw [hcalls]
    intro c hc
    rw [mem_singleton.mp hc]
    have hprogress : (0 : UInt32) < 0x4000000 := by decide
    have hleaves : (0x4000000 : UInt32).toNat - (0x4000000 : UInt32).toNat = 0 := Nat.sub_self _
    exact ⟨hprogress, hdata.ge, hleaves.trans_le (Nat.zero_le _), congrArg (· % 4) hleaves⟩
  · rw [hcalls]
    intro hdelivered
    have hend := hdelivered.complete
    have hover := handedOver_append_single [] ⟨data, 0, 0x4000000, 0x4000000⟩
    rw [nil_append] at hover
    rw [hover, hdata, length_replicate] at hend
    exact nomatch hend

end AmlogicV901d.Guarantees.DownloadBuffer
