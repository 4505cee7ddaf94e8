import AmlogicV901d.Guarantees.SparseImage
import AmlogicV901d.Lib.Streaming

/-!
# Streaming burn of a sparse image

`optimus_simg_to_media` (optimus_simg2img.c:109-306) is called with what the call
before left over and the next part of the file. The invariant over the calls:
the chunks seen so far are expanded on the media except for a tail of the last
RAW chunk, and what is carried, followed by the rest of the file, is that tail
followed by the remaining chunks.

The product `chunk_sz * blk_sz` is a 32-bit one, addresses count sectors, and a FILL
value is read before the parser knows that it has arrived. Each of these limits
the images and the cuts for which the invariant holds.
-/
namespace AmlogicV901d.Guarantees.SparseBurn
open Lib.ByteMemory Lib.LittleEndian Lib.Streaming Source.Simg SparseImage List
open Chunk (expandAt totalSz_toNat payload WellFormed totalSz typeCode head_length)
open UInt32 (toNat_add le_iff_toNat_le lt_iff_toNat_lt toNat_sub_of_le)

variable {s' : BurnState} {w val : UInt32} {pend avail : List UInt8}

/-! ## Sizes -/

theorem wholeSlots_toNat (x : UInt32) : (wholeSlots x).toNat = x.toNat / 0x10000 * 0x10000 := by
  have hx := x.toNat_lt
  rw [wholeSlots, UInt32.toNat_shiftLeft, UInt32.toNat_shiftRight]
  simp only [UInt32.reduceToNat, Nat.reduceMod, Nat.shiftLeft_eq, Nat.shiftRight_eq_div_pow, Nat.reducePow]
  exact Nat.mod_eq_of_lt (by omega)

theorem sectors_toNat (x : UInt32) : (x >>> 9).toNat = x.toNat / 512 := by
  simp [Nat.shiftRight_eq_div_pow]

theorem words_toNat (x : UInt32) : (x >>> 2).toNat = x.toNat / 4 := by
  simp [Nat.shiftRight_eq_div_pow]

theorem nextSector_toNat {flash n : UInt32} {off : Nat} (hflash : 512 * flash.toNat = off) (hn : n.toNat % 512 = 0)
    (hoff : off + n.toNat < 2 ^ 40) : 512 * (flash + (n >>> 9)).toNat = off + n.toNat := by
  rw [toNat_add, sectors_toNat]
  omega

/-! ## The fill buffer -/

/-- Byte `i` of a repeated word. -/
def patternByte (w : UInt32) (i : Nat) : UInt8 := (leBytes 4 w.toNat).getD (i % 4) 0

/-- The valid part of the fill buffer repeats its first word. -/
structure FillReady (s : BurnState) : Prop where
  small : s.filledBufValidLen.toNat ≤ 0x10000
  words : s.filledBufValidLen.toNat % 4 = 0
  periodic : ∀ i, i < s.filledBufValidLen.toNat → s.info (fillValBuf + i) = patternByte (loadU32 s.info fillValBuf) i

variable {s : BurnState}

theorem FillReady.congr (h : FillReady s) (hvalid : s'.filledBufValidLen = s.filledBufValidLen)
    (hinfo : ∀ i, s'.info (fillValBuf + i) = s.info (fillValBuf + i)) : FillReady s' := by
  refine ⟨by rw [hvalid]; exact h.small, by rw [hvalid]; exact h.words, fun i hi => ?_⟩
  rw [hvalid] at hi
  rw [hinfo, loadU32_congr fun j _ => hinfo j]
  exact h.periodic i hi

theorem storeU32_eq_fillPattern (m : Memory) (p : Nat) (w : UInt32) : storeU32 m p w = fillPattern m p 4 w := by
  funext a
  by_cases ha : p ≤ a ∧ a < p + 4
  · rw [storeU32, store_inside ha.1 (by simpa using ha.2), fillPattern_inside ha.1 ha.2, Nat.mod_eq_of_lt (by omega)]
  · rw [storeU32_outside (by omega), fillPattern_outside (by omega)]

theorem fillWords_eq (w : UInt32) (n p : Nat) (m : Memory) : fillWords w n p m = fillPattern m p (4 * n) w := by
  induction n generalizing p m with
  | zero =>
    funext a
    rw [fillPattern_outside (by omega)]
    rfl
  | succ n ih =>
    rw [fillWords, ih, storeU32_eq_fillPattern, fillPattern_append _ _ _ _ _ (by decide)]
    congr 1
    omega

theorem loadU32_of_pattern {m : Memory} {p n : Nat} (hn : 4 ≤ n)
    (h : ∀ i, i < n → m (p + i) = patternByte w i) : loadU32 m p = w := by
  have hload : load m p 4 = leBytes 4 w.toNat := by
    apply ext_getElem (by simp)
    intro i hi hb
    have hi4 : i < 4 := by simpa using hi
    rw [load_getElem, h i (by omega), patternByte, Nat.mod_eq_of_lt hi4,
      getD_eq_getElem?_getD, getElem?_eq_getElem hb]
    rfl
  rw [loadU32, hload, leValue_leBytes_u32]

/-- What `prepareFillBuf` keeps as valid repeats the value of this chunk. -/
theorem keptFill_spec (hs : FillReady s) {valid : UInt32}
    (hvalid : (if w ≠ loadU32 s.info fillValBuf ∧ s.filledBufValidLen ≠ 0 then 0 else s.filledBufValidLen) = valid) :
    valid.toNat ≤ s.filledBufValidLen.toNat ∧ valid.toNat % 4 = 0 ∧
      ∀ i, i < valid.toNat → s.info (fillValBuf + i) = patternByte w i := by
  rw [← hvalid]
  split
  · exact ⟨Nat.zero_le _, rfl, nofun⟩
  rename_i hsame
  refine ⟨Nat.le_refl _, hs.words, fun i hi => ?_⟩
  have hne : s.filledBufValidLen ≠ 0 := by
    intro h0
    rw [h0] at hi
    exact nomatch hi
  have hw : w = loadU32 s.info fillValBuf := by
    by_contra hdiff
    exact hsame ⟨hdiff, hne⟩
  rw [hs.periodic i hi, ← hw]

/-- After `prepareFillBuf` the buffer holds the value in its first `len` bytes. -/
theorem prepareFillBuf_spec (hs : FillReady s) (w len : UInt32) (hlen : len.toNat ≤ 0x10000)
    (hwords : len.toNat % 4 = 0) : FillReady (prepareFillBuf w len s) ∧
      (∀ i, i < len.toNat → (prepareFillBuf w len s).info (fillValBuf + i) = patternByte w i) ∧
      (prepareFillBuf w len s).packet = s.packet ∧ (prepareFillBuf w len s).media = s.media := by
  unfold prepareFillBuf
  dsimp only
  generalize hvalid : (if w ≠ loadU32 s.info fillValBuf ∧ s.filledBufValidLen ≠ 0 then 0
    else s.filledBufValidLen) = valid
  obtain ⟨hle, hmod, hbytes⟩ := keptFill_spec hs hvalid
  by_cases hlt : valid < len
  · have hlt' := lt_iff_toNat_lt.mp hlt
    rw [if_pos hlt, words_toNat, words_toNat, fillWords_eq]
    have hfilled : ∀ i, i < len.toNat → fillPattern s.info (fillValBuf + 4 * (valid.toNat / 4))
          (4 * (len.toNat / 4 - valid.toNat / 4)) w (fillValBuf + i) = patternByte w i := by
      intro i hi
      by_cases hold : i < valid.toNat
      · rw [fillPattern_outside (by omega), hbytes i hold]
      · rw [fillPattern_inside (by omega) (by omega), patternByte]
        congr 1
        omega
    refine ⟨⟨hlen, hwords, fun i hi => ?_⟩, hfilled, rfl, rfl⟩
    rw [loadU32_of_pattern (by omega) hfilled]
    exact hfilled i hi
  · have hge : len.toNat ≤ valid.toNat := le_iff_toNat_le.mp (UInt32.not_lt.mp hlt)
    rw [if_neg hlt]
    refine ⟨⟨by have := hs.small; dsimp only; omega, hmod, fun i hi => ?_⟩, fun i hi => hbytes i (by omega), rfl, rfl⟩
    dsimp only at hi ⊢
    rw [loadU32_of_pattern (by omega) hbytes]
    exact hbytes i hi

/-! ## Images and states -/

/-- What the parser can burn: sizes of whole sectors below 4 GiB, together below
1 TiB, and heads that fit the area they are backed up in. -/
structure Burnable (f : SparseFile) : Prop where
  wellFormed : ∀ c ∈ f.chunks, c.WellFormed f.blkSz
  sectors : ∀ c ∈ f.chunks, c.size f.blkSz % 512 = 0
  chunkSizes : ∀ c ∈ f.chunks, c.size f.blkSz < 2 ^ 32
  total : expandedSize f.blkSz f.chunks < 2 ^ 40
  backed : 28 + 12 * f.chunks.length ≤ spsVerifyBackInfoSz

/-- Where the parser skips a FILL chunk, the erased media already holds its value. -/
def SkipsErased (env : BurnEnv) (f : SparseFile) (m0 : Memory) : Prop :=
  ∀ done c rest val, f.chunks = done ++ c :: rest → c.body = .fill val → needFillAsNotErasedYet env val = false →
    fillPattern m0 (expandedSize f.blkSz done) (c.size f.blkSz) val = m0

/-- A cut that leaves `rest` bytes of the file does not fall between the head of a
FILL chunk and the end of its value. -/
def CutOk (f : SparseFile) (rest : List UInt8) : Prop :=
  ∀ done c later val, f.chunks = done ++ c :: later → c.body = .fill val →
    ¬ ((encodeChunks later).length < rest.length ∧ rest.length ≤ (encodeChunks later).length + 4)

/-- The chunks `done` are on the media, except for the bytes `pend` at their end. -/
structure Burned (f : SparseFile) (m0 : Memory) (s : BurnState) (done : List Chunk) (pend : List UInt8) : Prop where
  blkSz : s.packet.sparseBlkSz = f.blkSz
  fillReady : FillReady s
  notWr : s.packet.notWrBackSz4LongChunk.toNat = pend.length
  next : pend ≠ [] → 512 * s.packet.nextFlashAddr4LastLongChunk.toNat + pend.length = expandedSize f.blkSz done
  media : store s.media (expandedSize f.blkSz done - pend.length) pend = expand f.blkSz done 0 m0

theorem store_nil (m : Memory) (p : Nat) : store m p [] = m := by
  funext a
  exact store_outside (by simp; omega)

variable {done : List Chunk}

section
variable {f : SparseFile} {m0 : Memory} (h : Burned f m0 s done [])
include h

theorem Burned.media_eq : s.media = expand f.blkSz done 0 m0 := by
  rw [← h.media, store_nil]

theorem Burned.complete {c : Chunk} (hpacket : s'.packet = s.packet) (hfill : FillReady s')
    (hmedia : s'.media = c.expandAt f.blkSz (expandedSize f.blkSz done) s.media) : Burned f m0 s' (done ++ [c]) [] := by
  refine ⟨by rw [hpacket]; exact h.blkSz, hfill, by rw [hpacket]; exact h.notWr, fun hne => absurd rfl hne, ?_⟩
  rw [store_nil, hmedia, h.media_eq, expand_append_single, Nat.zero_add]

/-- A RAW chunk whose data is on the media up to `pend`. -/
theorem Burned.started {c : Chunk} {written : List UInt8} (hbody : c.body = .raw (written ++ pend))
    (hsize : (written ++ pend).length = c.size f.blkSz) (hblk : s'.packet.sparseBlkSz = s.packet.sparseBlkSz)
    (hfill : FillReady s') (hnotWr : s'.packet.notWrBackSz4LongChunk.toNat = pend.length)
    (hnext : 512 * s'.packet.nextFlashAddr4LastLongChunk.toNat = expandedSize f.blkSz done + written.length)
    (hmedia : s'.media = store s.media (expandedSize f.blkSz done) written) : Burned f m0 s' (done ++ [c]) pend := by
  have hoff : expandedSize f.blkSz (done ++ [c]) - pend.length =
      expandedSize f.blkSz done + written.length := by
    rw [expandedSize_append_single, ← hsize, length_append]
    omega
  refine ⟨hblk.trans h.blkSz, hfill, hnotWr, fun _ => ?_, ?_⟩
  · rw [hnext, expandedSize_append_single, ← hsize, length_append]
    omega
  · rw [hoff, hmedia, ← store_append, expand_append_single, Nat.zero_add, ← h.media_eq, expandAt, hbody]

end

/-! ## Media writes -/

section Burn
variable {env : BurnEnv} (hok : ∀ n, env.writeOk n = true)
include hok

theorem writeMedia_ok (s : BurnState) (dest size : UInt32) (src : Memory) (pos : Nat) :
    optimusCbSimgWriteMedia env s dest size src pos = (size, { s with
        media := memcpy s.media (512 * dest.toNat) src pos size.toNat
        writes := s.writes + 1 }) := by
  rw [optimusCbSimgWriteMedia, if_pos (hok s.writes)]

/-- The write loop of a FILL chunk repeats the value over the whole range. -/
theorem fillMedia_spec {len : UInt32} (n : Nat) (flash left : UInt32) (s : BurnState)
    (hbuf : ∀ i, i < len.toNat → s.info (fillValBuf + i) = patternByte w i) (hrounds : left.toNat < 0x10000 * n)
    (hlen : left.toNat ≤ len.toNat ∨ len.toNat = 0x10000) (hflash : 512 * flash.toNat + left.toNat < 2 ^ 40) :
    ∃ writes, fillMedia env len n flash left s =
      { s with media := fillPattern s.media (512 * flash.toNat) left.toNat w, writes := writes } := by
  induction n generalizing flash left s with
  | zero => omega
  | succ n ih =>
    rw [fillMedia, writeMedia_ok hok]
    dsimp only
    rw [if_neg (not_not_intro rfl)]
    by_cases hlast : left.toNat ≤ len.toNat
    · have hthis : min left len = left := if_pos (le_iff_toNat_le.mpr hlast)
      rw [hthis, UInt32.sub_self, if_pos rfl, memcpy_pattern fun i hi => hbuf i (Nat.lt_of_lt_of_le hi hlast)]
      exact ⟨_, rfl⟩
    have hslot : len.toNat = 0x10000 := hlen.resolve_left hlast
    have hthis : min left len = len :=
      if_neg fun h => hlast (le_iff_toNat_le.mp h)
    have hleft : (left - len).toNat = left.toNat - 0x10000 := by
      rw [toNat_sub_of_le _ _ (le_iff_toNat_le.mpr (by omega)), hslot]
    have hnext : 512 * (flash + (len >>> 9)).toNat = 512 * flash.toNat + 0x10000 := by
      rw [nextSector_toNat rfl (by omega) (by omega), hslot]
    have hmore : left - len ≠ 0 := by
      intro h0
      have h0' := congrArg UInt32.toNat h0
      have hzero : (0 : UInt32).toNat = 0 := rfl
      omega
    rw [hthis, if_neg hmore, memcpy_pattern hbuf]
    obtain ⟨writes, hrest⟩ := ih (flash + (len >>> 9)) (left - len) { s with
        media := fillPattern s.media (512 * flash.toNat) len.toNat w
        writes := s.writes + 1 }
      hbuf (by omega) (.inr hslot) (by omega)
    refine ⟨writes, ?_⟩
    rw [hrest]
    rw [hnext, hslot, hleft, fillPattern_append _ _ _ _ _ (by decide), Nat.add_sub_cancel' (by omega)]

variable {f : SparseFile} {m0 : Memory} {s : BurnState} {done : List Chunk} {c : Chunk}
  {buf : Memory} {pos : Nat} {dataLen unParsedBufLen flash : UInt32}

/-- A RAW chunk that is complete in the buffer. -/
theorem burnRaw_full {data : List UInt8} (hs : Burned f m0 s done []) (hc : c.WellFormed f.blkSz)
    (hbody : c.body = .raw data) (hlen : dataLen.toNat = c.size f.blkSz)
    (hflash : 512 * flash.toNat = expandedSize f.blkSz done) (havail : 12 + data.length ≤ unParsedBufLen.toNat)
    (hload : load buf (pos + 12) data.length = data) :
    ∃ s', burnRaw env buf pos ⟨c.typeCode, c.chunkSz, c.totalSz⟩ dataLen unParsedBufLen flash s =
        .ok (dataLen, s') ∧ Burned f m0 s' (done ++ [c]) [] ∧ s'.packet = s.packet := by
  have htotal : c.totalSz.toNat = 12 + data.length := by
    rw [totalSz_toNat hc, payload, hbody]
  have hdata : data.length = dataLen.toNat := by
    rw [WellFormed, hbody] at hc
    rw [hlen, hc.1]
  have hexpand : c.expandAt f.blkSz (expandedSize f.blkSz done) s.media =
      store s.media (expandedSize f.blkSz done) data := by
    rw [expandAt, hbody]
  have hfits : ¬ c.totalSz > unParsedBufLen := by
    rw [UInt32.not_lt, le_iff_toNat_le]
    omega
  rw [burnRaw, if_neg (by dsimp only; omega), if_neg hfits]
  dsimp only
  by_cases hzero : dataLen = 0
  · have hnil : data = [] := length_eq_zero_iff.mp (by rw [hdata, hzero]; rfl)
    refine ⟨s, ?_, hs.complete rfl hs.fillReady (by rw [hexpand, hnil, store_nil]), rfl⟩
    rw [if_neg (not_not_intro hzero), hzero]
  refine ⟨{ s with media := store s.media (expandedSize f.blkSz done) data, writes := s.writes + 1 },
    ?_, hs.complete rfl (hs.fillReady.congr rfl fun _ => rfl) hexpand.symm, rfl⟩
  rw [if_pos hzero, writeMedia_ok hok]
  rw [if_neg (not_not_intro rfl), hflash, ← hdata, memcpy_of_load hload]

/-- A RAW chunk of which only `part` has arrived: whole slots of it are written. -/
theorem burnRaw_part {part more : List UInt8} (hs : Burned f m0 s done []) (hc : c.WellFormed f.blkSz)
    (hbody : c.body = .raw (part ++ more)) (hmore : more ≠ []) (hlen : dataLen.toNat = c.size f.blkSz)
    (htotal : expandedSize f.blkSz done + c.size f.blkSz < 2 ^ 40)
    (hflash : 512 * flash.toNat = expandedSize f.blkSz done) (havail : unParsedBufLen.toNat = 12 + part.length)
    (hload : load buf (pos + 12) part.length = part) :
    ∃ s' want rest, burnRaw env buf pos ⟨c.typeCode, c.chunkSz, c.totalSz⟩ dataLen
          unParsedBufLen flash s = .ok (want, s') ∧
      want.toNat ≤ part.length ∧ rest = part.drop want.toNat ∧ rest.length < 0x10000 ∧
      Burned f m0 s' (done ++ [c]) (rest ++ more) ∧ s'.packet.backChunkNum = s.packet.backChunkNum := by
  have hhead : chunkHeadSize.toNat = 12 := rfl
  have hdata : (part ++ more).length = dataLen.toNat := by
    rw [WellFormed, hbody] at hc
    rw [hlen, hc.1]
  have hsum : part.length + more.length = dataLen.toNat := by
    rw [← hdata, length_append]
  have hpos : 0 < more.length := length_pos_iff.mpr hmore
  have htotalSz : c.totalSz.toNat = 12 + dataLen.toNat := by
    rw [totalSz_toNat hc, payload, hbody, hdata]
  have hcut : c.totalSz > unParsedBufLen := by
    rw [gt_iff_lt, lt_iff_toNat_lt]
    omega
  have hpart : (unParsedBufLen - chunkHeadSize).toNat = part.length := by
    rw [toNat_sub_of_le _ _ (le_iff_toNat_le.mpr (by omega))]
    omega
  have hwant := wholeSlots_toNat (unParsedBufLen - chunkHeadSize)
  generalize hw : wholeSlots (unParsedBufLen - chunkHeadSize) = want at *
  have hsplit : part.take want.toNat ++ part.drop want.toNat = part := take_append_drop _ _
  have htake : (part.take want.toNat).length = want.toNat := by
    rw [length_take]
    omega
  have hburned : ∀ writes, Burned f m0
      { s with
        packet := { s.packet with
          notWrBackSz4LongChunk := dataLen - want
          nextFlashAddr4LastLongChunk := flash + (want >>> 9) }
        media := store s.media (expandedSize f.blkSz done) (part.take want.toNat)
        writes := writes } (done ++ [c]) (part.drop want.toNat ++ more) := by
    intro writes
    refine hs.started (by rw [← append_assoc, hsplit, hbody])
      (by rw [← append_assoc, hsplit, hdata, hlen]) rfl
      (hs.fillReady.congr rfl fun _ => rfl) ?_ ?_ rfl
    · rw [toNat_sub_of_le _ _ (le_iff_toNat_le.mpr (by omega)), length_append, length_drop]
      omega
    · rw [htake, nextSector_toNat hflash (by omega) (by omega)]
  rw [burnRaw, if_neg (by dsimp only; omega), if_pos hcut, hw]
  dsimp only
  by_cases hzero : want = 0
  · refine ⟨_, want, part.drop want.toNat, ?_, by omega, rfl, by rw [length_drop]; omega, hburned s.writes, rfl⟩
    have hnone : part.take want.toNat = [] := length_eq_zero_iff.mp (by rw [htake, hzero]; rfl)
    rw [if_neg (not_not_intro hzero), hnone, store_nil, hzero]
  refine ⟨_, want, part.drop want.toNat, ?_, by omega, rfl, by rw [length_drop]; omega,
    hburned (s.writes + 1), rfl⟩
  rw [if_pos hzero, writeMedia_ok hok]
  rw [if_neg (not_not_intro rfl), hflash, memcpy_take hload (by omega)]

/-- A FILL chunk whose value has arrived. -/
theorem burnFill_spec (hs : Burned f m0 s done []) (hbody : c.body = .fill val) (hlen : dataLen.toNat = c.size f.blkSz)
    (hsectors : c.size f.blkSz % 512 = 0) (htotal : expandedSize f.blkSz done + c.size f.blkSz < 2 ^ 40)
    (hflash : 512 * flash.toNat = expandedSize f.blkSz done) (hload : loadU32 buf (pos + 12) = val)
    (hskip : needFillAsNotErasedYet env val = false →
      fillPattern s.media (expandedSize f.blkSz done) (c.size f.blkSz) val = s.media) :
    ∃ s', burnFill env buf pos ⟨c.typeCode, c.chunkSz, c.totalSz⟩ dataLen flash s = .ok (4, s') ∧
      Burned f m0 s' (done ++ [c]) [] ∧ s'.packet = s.packet := by
  have htotalSz : c.totalSz = chunkHeadSize + 4 := by
    rw [totalSz, payload, hbody]
    rfl
  have hexpand : c.expandAt f.blkSz (expandedSize f.blkSz done) s.media =
      fillPattern s.media (expandedSize f.blkSz done) (c.size f.blkSz) val := by
    rw [expandAt, hbody]
  rw [burnFill, hload]
  rw [if_neg (not_not_intro htotalSz)]
  by_cases hneed : needFillAsNotErasedYet env val = true
  · rw [if_pos hneed]
    have hslot : fillBufSz.toNat = 0x10000 := rfl
    have hmin := UInt32.toNat_min dataLen fillBufSz
    obtain ⟨hready, hbuf, hpacket, hmedia⟩ :=
      prepareFillBuf_spec hs.fillReady val (min dataLen fillBufSz) (by omega) (by omega)
    obtain ⟨writes, hloop⟩ := fillMedia_spec hok (dataLen.toNat / 0x10000 + 1) flash dataLen
      (prepareFillBuf val (min dataLen fillBufSz) s) hbuf (by omega) (by omega) (by omega)
    rw [hloop, hflash, hlen, hmedia, ← hexpand]
    exact ⟨_, rfl, hs.complete hpacket (hready.congr rfl fun _ => rfl) rfl, hpacket⟩
  · rw [if_neg hneed]
    have hmedia := hskip (by simpa using hneed)
    exact ⟨s, rfl, hs.complete rfl hs.fillReady (by rw [hexpand, hmedia]), rfl⟩

/-! ## One chunk of a buffer -/

omit hok in
theorem Burned.backUp (h : Burned f m0 s done pend) (left : Nat)
    (hback : 28 + 12 * (s.packet.backChunkNum + 1) ≤ spsVerifyBackInfoSz) :
    Burned f m0 (backUpChunk buf pos left s) done pend := by
  refine { h with fillReady := h.fillReady.congr rfl fun i => memcpy_outside (.inr ?_) }
  simp only [fillValBuf]
  omega

/-- The parser stands in front of `rest`, with `avail` of it in the buffer. -/
structure Facing (f : SparseFile) (m0 : Memory) (l : ParsePos) (done rest : List Chunk)
    (pend avail fut : List UInt8) : Prop where
  split : f.chunks = done ++ rest
  burned : Burned f m0 l.state done pend
  left : l.state.packet.leftChunkNum = rest.length
  back : l.state.packet.backChunkNum = done.length
  length : l.unParsedBufLen.toNat = avail.length
  stream : avail ++ fut = pend ++ encodeChunks rest
  flash : 512 * l.flashAddrStart.toNat = expandedSize f.blkSz done

/-- What a chunk takes from the buffer: all of it, or a RAW chunk up to the whole
slots that have arrived. -/
structure ChunkTaken (f : SparseFile) (m0 : Memory) (s' : BurnState) (done rest : List Chunk)
    (c : Chunk) (taken : UInt32) (used left pend fut : List UInt8) : Prop where
  burned : Burned f m0 s' (done ++ [c]) pend
  back : s'.packet.backChunkNum = done.length
  length : used.length = 12 + taken.toNat
  stream : left ++ fut = pend ++ encodeChunks rest
  whole : pend = [] ∧ used.length = c.totalSz.toNat ∨ left.length < pend.length ∧ left.length < 0x10000

/-- The switch takes the chunk in front of the parser without an error. -/
def TakesChunk (env : BurnEnv) (buf : Memory) (f : SparseFile) (m0 : Memory) (l : ParsePos)
    (done rest : List Chunk) (c : Chunk) (chunkDataLen : UInt32) (avail fut : List UInt8) : Prop :=
  ∃ taken s' used left pend, burnChunk env buf l.pChunk ⟨c.typeCode, c.chunkSz, c.totalSz⟩ chunkDataLen l.unParsedBufLen
      l.flashAddrStart l.state = .ok (taken, s') ∧ avail = used ++ left ∧
    ChunkTaken f m0 s' done rest c taken used left pend fut

variable {rest : List Chunk} {l : ParsePos} {fut : List UInt8}

omit hok in
theorem Facing.mem (h : Facing f m0 l done (c :: rest) pend avail fut) : c ∈ f.chunks := by
  rw [h.split]
  exact mem_append_right _ (mem_cons_self ..)

omit hok in
theorem Facing.total (hf : Burnable f) (h : Facing f m0 l done (c :: rest) pend avail fut) :
    expandedSize f.blkSz done + c.size f.blkSz < 2 ^ 40 := by
  have htotal := hf.total
  rw [h.split, append_cons, expandedSize_append, expandedSize_append_single] at htotal
  omega

omit hok in
theorem Facing.bound (hf : Burnable f) (h : Facing f m0 l done rest pend avail fut) :
    expandedSize f.blkSz done < 2 ^ 40 := by
  have htotal := hf.total
  rw [h.split, expandedSize_append] at htotal
  omega

omit hok in
theorem Facing.next {used left fut : List UInt8} {taken : UInt32} (hf : Burnable f)
    (h : Facing f m0 l done (c :: rest) [] (used ++ left) fut)
    (ht : ChunkTaken f m0 s' done rest c taken used left pend fut) (hlen : dataLen.toNat = c.size f.blkSz) (p : Nat) :
    Facing f m0 ⟨p, l.unParsedBufLen - (chunkHeadSize + taken),
        l.flashAddrStart + (dataLen >>> 9), backUpChunk buf pos rest.length s'⟩ (done ++ [c]) rest pend left fut := by
  have hsplit : f.chunks = (done ++ [c]) ++ rest := by rw [h.split, append_assoc]; rfl
  have hcount : f.chunks.length = done.length + 1 + rest.length := by
    rw [hsplit, length_append, length_append]
    rfl
  have hbytes := h.length
  have hlt := l.unParsedBufLen.toNat_lt
  have hused := ht.length
  rw [length_append] at hbytes
  have hhead : (chunkHeadSize + taken).toNat = used.length := by
    have hsize : chunkHeadSize.toNat = 12 := rfl
    rw [toNat_add]
    omega
  refine ⟨hsplit, ht.burned.backUp _ ?_, rfl, ?_, ?_, ht.stream, ?_⟩
  · have hbacked := hf.backed
    rw [ht.back]
    omega
  · dsimp only [backUpChunk]
    rw [ht.back, length_append]
    rfl
  · rw [toNat_sub_of_le _ _ (le_iff_toNat_le.mpr (by omega)), hhead]
    omega
  · rw [nextSector_toNat h.flash (by rw [hlen]; exact hf.sectors c h.mem)
      (by rw [hlen]; exact h.total hf), expandedSize_append_single, hlen]

omit hok in
theorem Burned.skipped (hf : Burnable f) (hskip : SkipsErased env f m0) (hs : Burned f m0 s done [])
    (hsplit : f.chunks = done ++ c :: rest) (hbody : c.body = .fill val)
    (hneed : needFillAsNotErasedYet env val = false) :
    fillPattern s.media (expandedSize f.blkSz done) (c.size f.blkSz) val = s.media := by
  funext a
  by_cases ha : expandedSize f.blkSz done ≤ a ∧ a < expandedSize f.blkSz done + c.size f.blkSz
  · have herased := congrFun (hskip done c rest val hsplit hbody hneed) a
    have hdone : ∀ d ∈ done, d.WellFormed f.blkSz := fun d hd =>
      hf.wellFormed d (by rw [hsplit]; exact mem_append_left _ hd)
    rw [fillPattern_inside ha.1 ha.2] at herased ⊢
    rw [herased, hs.media_eq, expand_above hdone (by omega)]
  · exact fillPattern_outside (by omega)

section Chunk
variable {rest : List Chunk} {l : ParsePos} {tail fut : List UInt8} (hf : Burnable f)
  (h : Facing f m0 l done (c :: rest) [] (c.head ++ tail) fut)
  (hload : load buf l.pChunk (c.head ++ tail).length = c.head ++ tail)
  (hstream : tail ++ fut = c.payload ++ encodeChunks rest)
  (hlen : dataLen.toNat = c.size f.blkSz)
include hf h hload hstream hlen

theorem burnChunk_raw {data : List UInt8} (hbody : c.body = .raw data) :
    TakesChunk env buf f m0 l done rest c dataLen (c.head ++ tail) fut := by
  have hmem := h.mem
  have hc := hf.wellFormed c hmem
  have hpayload : c.payload = data := by rw [payload, hbody]
  have htype : c.typeCode = chunkTypeRaw := by rw [typeCode, hbody]
  have hdata : data.length = dataLen.toNat := by
    rw [WellFormed, hbody] at hc
    rw [hlen, hc.1]
  have hbytes := h.length
  have hdatas := load_behind hload
  rw [hpayload] at hstream
  rw [length_append, head_length] at hbytes
  unfold TakesChunk
  rw [burnChunk, if_pos htype]
  by_cases hfull : data.length ≤ tail.length
  · obtain ⟨left, htail, hleft⟩ := arrived hstream hfull
    rw [htail] at hdatas
    have hfits : 12 + data.length ≤ l.unParsedBufLen.toNat := by omega
    obtain ⟨s', hrun, hburned, hpacket⟩ := burnRaw_full hok h.burned hc hbody hlen h.flash hfits
      (load_front hdatas)
    refine ⟨_, s', c.head ++ data, left, [], hrun, by rw [htail, append_assoc], hburned,
      by rw [hpacket, h.back], ?_, hleft, .inl ⟨rfl, ?_⟩⟩
    · rw [length_append, head_length, hdata]
    · rw [totalSz_toNat hc, hpayload, length_append, head_length]
  · obtain ⟨more, hmore, hsplit, hfut⟩ := awaited hstream (by omega)
    rw [hsplit] at hbody
    obtain ⟨s', want, left, hrun, hwant, hleft, hsmall, hburned, hback⟩ := burnRaw_part hok h.burned hc
      hbody hmore hlen (h.total hf) h.flash hbytes hdatas
    have hpos : 0 < more.length := length_pos_iff.mpr hmore
    refine ⟨want, s', c.head ++ tail.take want.toNat, left, left ++ more, hrun, ?_, hburned,
      by rw [hback, h.back], ?_, by rw [hfut, append_assoc],
      .inr ⟨by rw [length_append]; omega, hsmall⟩⟩
    · rw [hleft, append_assoc, take_append_drop]
    · rw [length_append, head_length, length_take, Nat.min_eq_left hwant]

theorem burnChunk_fill (hskip : SkipsErased env f m0) (hcut : CutOk f fut) (hbody : c.body = .fill val) :
    TakesChunk env buf f m0 l done rest c dataLen (c.head ++ tail) fut := by
  have hmem := h.mem
  have hpayload : c.payload = leBytes 4 val.toNat := by rw [payload, hbody]
  have htype : c.typeCode = chunkTypeFill := by rw [typeCode, hbody]
  rw [hpayload] at hstream
  -- the head is there and the cut is not behind it, so the value is there as well
  have hvalue : (leBytes 4 val.toNat).length ≤ tail.length := by
    have hsum := congrArg List.length hstream
    have hnot := hcut done c rest val h.split hbody
    rw [length_append, length_append] at hsum
    rw [leBytes_length] at hsum ⊢
    omega
  obtain ⟨left, htail, hleft⟩ := arrived hstream hvalue
  have hval : loadU32 buf (l.pChunk + 12) = val := by
    have hvalues := load_behind hload
    rw [head_length, htail] at hvalues
    have hword := load_front hvalues
    rw [leBytes_length] at hword
    rw [loadU32, hword, leValue_leBytes_u32]
  obtain ⟨s', hrun, hburned, hpacket⟩ := burnFill_spec hok h.burned hbody hlen
    (hf.sectors c hmem) (h.total hf) h.flash hval (h.burned.skipped hf hskip h.split hbody)
  refine ⟨4, s', c.head ++ leBytes 4 val.toNat, left, [], ?_, by rw [htail, append_assoc], hburned,
    by rw [hpacket, h.back], ?_, hleft, .inl ⟨rfl, ?_⟩⟩
  · have hraw : chunkTypeFill ≠ chunkTypeRaw := by decide
    have hdontCare : chunkTypeFill ≠ chunkTypeDontCare := by decide
    rw [burnChunk, htype, if_neg hraw, if_neg hdontCare, if_pos rfl, ← htype, hrun]
  · rfl
  · rw [totalSz_toNat (hf.wellFormed c hmem), hpayload, length_append, head_length]

omit hok hf hload hlen in
theorem burnChunk_dontCare (hbody : c.body = .dontCare) :
    TakesChunk env buf f m0 l done rest c dataLen (c.head ++ tail) fut := by
  have hpayload : c.payload = [] := by rw [payload, hbody]
  have htype : c.typeCode = chunkTypeDontCare := by rw [typeCode, hbody]
  have htotal : c.totalSz = chunkHeadSize := by
    rw [totalSz, hpayload]
    rfl
  have hexpand : l.state.media = c.expandAt f.blkSz (expandedSize f.blkSz done) l.state.media := by
    rw [expandAt, hbody]
  rw [hpayload] at hstream
  refine ⟨0, l.state, c.head, tail, [], ?_, rfl, h.burned.complete rfl h.burned.fillReady hexpand,
    h.back, head_length c, hstream, .inl ⟨rfl, ?_⟩⟩
  · have hraw : chunkTypeDontCare ≠ chunkTypeRaw := by decide
    rw [burnChunk, htype, if_neg hraw, if_pos rfl]
    rw [if_neg (not_not_intro htotal)]
  · rw [htotal, head_length]
    rfl

end Chunk

/-- Every chunk whose head has arrived is taken without an error. -/
theorem burnChunk_spec (hf : Burnable f) (hskip : SkipsErased env f m0) (hcut : CutOk f fut)
    (h : Facing f m0 l done (c :: rest) [] avail fut) (hhead : 12 ≤ avail.length)
    (hload : load buf l.pChunk avail.length = avail) :
    ChunkHeader.loadAt buf l.pChunk = ⟨c.typeCode, c.chunkSz, c.totalSz⟩ ∧
      (c.chunkSz * l.state.packet.sparseBlkSz).toNat = c.size f.blkSz ∧
      TakesChunk env buf f m0 l done rest c (c.chunkSz * l.state.packet.sparseBlkSz) avail fut := by
  have hchunks : avail ++ fut = c.head ++ (c.payload ++ encodeChunks rest) := by
    rw [h.stream, nil_append, encodeChunks_cons, Chunk.encode, append_assoc]
  obtain ⟨tail, havail, hstream⟩ := arrived hchunks (by rw [head_length]; exact hhead)
  subst havail
  have hloaded := load_front hload
  -- the product does not wrap for a chunk below 4 GiB
  have hlen : (c.chunkSz * l.state.packet.sparseBlkSz).toNat = c.size f.blkSz := by
    have hsize := hf.chunkSizes c h.mem
    rw [h.burned.blkSz, UInt32.toNat_mul]
    exact Nat.mod_eq_of_lt hsize
  refine ⟨Chunk.loadAt_head hloaded, hlen, ?_⟩
  cases hbody : c.body with
  | raw data => exact burnChunk_raw hok hf h hload hstream hlen hbody
  | fill val => exact burnChunk_fill hok hf h hload hstream hlen hskip hcut hbody
  | dontCare => exact burnChunk_dontCare h hstream hbody

end Burn

end AmlogicV901d.Guarantees.SparseBurn
