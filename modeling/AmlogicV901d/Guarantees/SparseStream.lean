import AmlogicV901d.Guarantees.SparseBurn

/-!
# Sparse images over all cuts

The loop over the chunks of one buffer, one call of `optimus_simg_to_media`, and the
run of the caller over a file that arrives in pieces.
-/
namespace AmlogicV901d.Guarantees.SparseStream
open Lib.ByteMemory Lib.LittleEndian Lib.Streaming Source.Simg SparseImage SparseBurn List
open UInt32 (toNat_sub_of_le le_iff_toNat_le toNat_inj ofNat toNat_ofNat')

variable {l : ParsePos} {p : ImgBurnInfo}

/-- The parser has stopped: in front of a head that has not arrived, at the end of the
file, or inside a RAW chunk. -/
structure Paused (f : SparseFile) (m0 : Memory) (l : ParsePos) (done rest : List Chunk)
    (pend kept fut : List UInt8) : Prop extends Facing f m0 l done rest pend kept fut where
  small : kept.length < 0x10000
  stopped : pend = [] ∧ (rest = [] ∨ kept.length < 12) ∨ kept.length < pend.length

theorem parseChunks_outstanding {env : BurnEnv} {buf : Memory} (n : Nat)
    (h : l.state.packet.notWrBackSz4LongChunk ≠ 0) : parseChunks env buf n l = .ok l := by
  cases n with
  | zero => rfl
  | succ n => rw [parseChunks, if_pos h]

/-- A finished call: `kept` is what it reports as unparsed, and its value is how far the
address has moved. -/
def CallDone (f : SparseFile) (m0 : Memory) (flashAddrInSec : UInt32) (avail fut : List UInt8) (r : SimgCall) : Prop :=
  ∃ l done rest pend used kept, r = ⟨(l.flashAddrStart - flashAddrInSec).toBitVec.toInt, l.unParsedBufLen, l.state⟩ ∧
    avail = used ++ kept ∧ flashAddrInSec ≤ l.flashAddrStart ∧ l.state.packet.pktHeadLen = 0 ∧
    Paused f m0 l done rest pend kept fut

variable {f : SparseFile} {m0 : Memory} {avail fut : List UInt8}

theorem CallDone.behind {flash : UInt32} {r : SimgCall} (h : CallDone f m0 flash avail fut r) (written : List UInt8) :
    CallDone f m0 flash (written ++ avail) fut r := by
  obtain ⟨l, done, rest, pend, used, kept, hr, havail, hpaused⟩ := h
  exact ⟨l, done, rest, pend, written ++ used, kept, hr, by rw [havail, append_assoc], hpaused⟩

theorem Paused.headParsed {done rest : List Chunk} {pend kept fut : List UInt8}
    (h : Paused f m0 l done rest pend kept fut) : Paused f m0
      { l with state := { l.state with packet := { l.state.packet with pktHeadLen := 0 } } } done rest pend kept fut :=
  { h with burned := { h.burned with fillReady := h.burned.fillReady.congr rfl fun _ => rfl } }

theorem notWr_ne_zero {n : UInt32} {pend : List UInt8} (h : n.toNat = pend.length) (hpend : pend ≠ []) : n ≠ 0 := by
  intro hzero
  rw [hzero] at h
  exact hpend (length_eq_zero_iff.mp h.symm)

/-- The first `w` of the outstanding bytes are written. -/
theorem longWrite_burned {s : BurnState} {done : List Chunk} {avail more : List UInt8} {w : UInt32}
    (h : Burned f m0 s done (avail ++ more)) (hpend : avail ++ more ≠ [])
    (hbound : expandedSize f.blkSz done < 2 ^ 40) (hle : w.toNat ≤ avail.length)
    (hw : w.toNat = (avail ++ more).length ∨ w.toNat % 512 = 0) :
    Burned f m0
      { s with
        packet := { s.packet with
          notWrBackSz4LongChunk := s.packet.notWrBackSz4LongChunk - w
          nextFlashAddr4LastLongChunk := s.packet.nextFlashAddr4LastLongChunk + (w >>> 9) }
        media := store s.media (512 * s.packet.nextFlashAddr4LastLongChunk.toNat) (avail.take w.toNat)
        writes := s.writes + 1 } done (avail.drop w.toNat ++ more) := by
  have hnotWr := h.notWr
  have hnext := h.next hpend
  have htake : (avail.take w.toNat).length = w.toNat := by
    rw [length_take, Nat.min_eq_left hle]
  have hrest : (avail.drop w.toNat ++ more).length = (avail ++ more).length - w.toNat := by
    rw [length_append, length_append, length_drop]
    omega
  have hall : w.toNat ≤ (avail ++ more).length := by
    rw [length_append]
    omega
  refine ⟨h.blkSz, h.fillReady.congr rfl fun _ => rfl, ?_, fun hne => ?_, ?_⟩
  · rw [toNat_sub_of_le _ _ (le_iff_toNat_le.mpr (by omega)), hrest]
    omega
  · have hpos := length_pos_iff.mpr hne
    rw [nextSector_toNat rfl (by omega) (by omega), hrest]
    omega
  · have hoff : expandedSize f.blkSz done - (avail.drop w.toNat ++ more).length =
        512 * s.packet.nextFlashAddr4LastLongChunk.toNat + (avail.take w.toNat).length := by
      omega
    have hstart : 512 * s.packet.nextFlashAddr4LastLongChunk.toNat =
        expandedSize f.blkSz done - (avail ++ more).length := by omega
    rw [hoff, ← store_append, ← append_assoc, take_append_drop, hstart]
    exact h.media

theorem longWriteLen_spec {notWr pktLen w : UInt32} (h : notWr ≥ pktLen)
    (hw : (if notWr > pktLen then wholeSlots pktLen else pktLen) = w) :
    w.toNat ≤ pktLen.toNat ∧ (notWr.toNat = pktLen.toNat ∧ w.toNat = pktLen.toNat ∨
      pktLen.toNat < notWr.toNat ∧ w.toNat % 512 = 0 ∧ pktLen.toNat - w.toNat < 0x10000) := by
  have hge := le_iff_toNat_le.mp h
  by_cases hgt : notWr > pktLen
  · have hslots := wholeSlots_toNat pktLen
    rw [if_pos hgt] at hw
    rw [hw] at hslots
    exact ⟨by omega, .inr ⟨UInt32.lt_iff_toNat_lt.mp hgt, by omega, by omega⟩⟩
  · have hno := le_iff_toNat_le.mp (UInt32.not_lt.mp hgt)
    rw [if_neg hgt] at hw
    subst hw
    exact ⟨Nat.le_refl _, .inl ⟨by omega, rfl⟩⟩

section Burn
variable {env : BurnEnv} (hok : ∀ n, env.writeOk n = true) {f : SparseFile} (hf : Burnable f)
  {m0 : Memory} (hskip : SkipsErased env f m0) {buf : Memory} {fut : List UInt8} (hcut : CutOk f fut)
include hok hf hskip hcut

/-! ## The chunk loop -/

variable {rest done : List Chunk} {avail : List UInt8}

/-- Induction over the chunks that are left: each one is taken as a whole, or stops
the loop. -/
theorem parseChunks_spec (h : Facing f m0 l done rest [] avail fut) (hload : load buf l.pChunk avail.length = avail) :
    ∃ l' done' rest' pend' used left, parseChunks env buf rest.length l = .ok l' ∧
      avail = used ++ left ∧ l.flashAddrStart ≤ l'.flashAddrStart ∧ Paused f m0 l' done' rest' pend' left fut := by
  induction rest generalizing done l avail with
  | nil =>
    have hempty : avail = [] := (append_eq_nil_iff.mp h.stream).1
    refine ⟨l, done, [], [], [], avail, rfl, rfl, UInt32.le_refl _, h, ?_, .inl ⟨rfl, .inl rfl⟩⟩
    rw [hempty]
    decide
  | cons c rest ih =>
    have hnotWr : l.state.packet.notWrBackSz4LongChunk = 0 := toNat_inj.mp h.burned.notWr
    have hbytes := h.length
    have hsize : chunkHeadSize.toNat = 12 := rfl
    rw [length_cons, parseChunks, if_neg (not_not_intro hnotWr)]
    by_cases hhead : chunkHeadSize > l.unParsedBufLen
    · have hshort := UInt32.lt_iff_toNat_lt.mp hhead
      rw [if_pos hhead]
      exact ⟨l, done, c :: rest, [], [], avail, rfl, rfl, UInt32.le_refl _, h, by omega, .inl ⟨rfl, .inr (by omega)⟩⟩
    have hfits := le_iff_toNat_le.mp (UInt32.not_lt.mp hhead)
    obtain ⟨hloadAt, hlen, taken, s', used, left, pend, hrun, havail, htaken⟩ :=
      burnChunk_spec hok hf hskip hcut h (by omega) hload
    subst havail
    rw [if_neg hhead, hloadAt, hrun]
    dsimp only
    have hnext : Facing f m0
        ⟨l.pChunk + c.totalSz.toNat, l.unParsedBufLen - (chunkHeadSize + taken),
          l.flashAddrStart + ((c.chunkSz * l.state.packet.sparseBlkSz) >>> 9),
          backUpChunk buf l.pChunk rest.length s'⟩ (done ++ [c]) rest pend left fut :=
      h.next hf htaken hlen _
    generalize hl : ParsePos.mk (l.pChunk + c.totalSz.toNat) _ _ _ = next at hnext ⊢
    have hpos : next.pChunk = l.pChunk + c.totalSz.toNat := by rw [← hl]
    have hforward : l.flashAddrStart ≤ next.flashAddrStart := by
      have hthere := hnext.flash
      have hhere := h.flash
      rw [expandedSize_append_single] at hthere
      exact le_iff_toNat_le.mpr (by omega)
    obtain ⟨hpend, hused⟩ | ⟨hwait, hsmall⟩ := htaken.whole
    · subst hpend
      have hsuffix := load_behind hload
      rw [hused, ← hpos] at hsuffix
      obtain ⟨l', done', rest', pend', used', left', hrest, hleft, hmono, hpaused⟩ := ih hnext hsuffix
      refine ⟨l', done', rest', pend', used ++ used', left', hrest, ?_, UInt32.le_trans hforward hmono, hpaused⟩
      rw [hleft, append_assoc]
    · refine ⟨next, done ++ [c], rest, pend, used, left, ?_, rfl, hforward, hnext, hsmall, .inr hwait⟩
      -- the rest of this chunk is outstanding, so the loop ends here
      refine parseChunks_outstanding _ fun hzero => ?_
      have hcount := hnext.burned.notWr
      rw [hzero] at hcount
      have hnone : (0 : UInt32).toNat = 0 := rfl
      omega

/-! ## One call -/

theorem parseRest_spec (h : Facing f m0 l done rest [] avail fut) (hload : load buf l.pChunk avail.length = avail) :
    CallDone f m0 l.flashAddrStart avail fut (parseRest env buf l.flashAddrStart l) := by
  obtain ⟨l', done', rest', pend, used, left, hrun, havail, hforward, hpaused⟩ :=
    parseChunks_spec hok hf hskip hcut h hload
  refine ⟨{ l' with state := { l'.state with packet := { l'.state.packet with pktHeadLen := 0 } } },
    done', rest', pend, used, left, ?_, havail, hforward, rfl, hpaused.headParsed⟩
  rw [parseRest, h.left, hrun]

theorem simgToMedia_heads {s : BurnState} {pktLen flash headLen : UInt32} (hhead : s.packet.pktHeadLen = headLen)
    (h : Facing f m0 ⟨headLen.toNat, pktLen - headLen, flash, s⟩ done rest [] avail fut)
    (hload : load buf headLen.toNat avail.length = avail) :
    CallDone f m0 flash avail fut (optimusSimgToMedia env buf pktLen flash s) := by
  have hnotWr : s.packet.notWrBackSz4LongChunk = 0 := toNat_inj.mp h.burned.notWr
  unfold optimusSimgToMedia
  rw [if_neg fun hlong => hlong.1 hnotWr, hhead]
  exact parseRest_spec hok hf hskip hcut h hload

section Long
variable {rest done : List Chunk} {pend avail : List UInt8} {s : BurnState} {pktLen flash : UInt32}
  (h : Facing f m0 ⟨0, pktLen, flash, s⟩ done rest pend avail fut)
  (hload : load buf 0 avail.length = avail) (hhead : s.packet.pktHeadLen = 0) (hpend : pend ≠ [])
include h hload hhead hpend

omit hskip hcut in
/-- The outstanding bytes of a RAW chunk fill the whole buffer. -/
theorem simgToMedia_long (hlong : avail.length ≤ pend.length) :
    CallDone f m0 flash avail fut (optimusSimgToMedia env buf pktLen flash s) := by
  have hnotWr : s.packet.notWrBackSz4LongChunk.toNat = pend.length := h.burned.notWr
  have hbytes : pktLen.toNat = avail.length := h.length
  have hnonzero : s.packet.notWrBackSz4LongChunk ≠ 0 := notWr_ne_zero hnotWr hpend
  have hmore : s.packet.notWrBackSz4LongChunk ≥ pktLen := by
    rw [ge_iff_le, le_iff_toNat_le]
    omega
  obtain ⟨more, hsplit, hfut⟩ := arrived h.stream.symm hlong
  subst hsplit
  unfold optimusSimgToMedia
  dsimp only
  rw [if_pos ⟨hnonzero, hhead⟩, if_pos hmore]
  generalize hw : (if s.packet.notWrBackSz4LongChunk > pktLen then wholeSlots pktLen else pktLen) = w
  obtain ⟨hle, hcases⟩ := longWriteLen_spec hmore hw
  rw [hbytes] at hle hcases
  have hburned := longWrite_burned h.burned hpend (h.bound hf) hle (by omega)
  rw [length_append] at hnotWr
  have hdrop : (avail.drop w.toNat).length = avail.length - w.toNat := length_drop
  have hlen : (pktLen - w).toNat = (avail.drop w.toNat).length := by
    rw [toNat_sub_of_le _ _ (le_iff_toNat_le.mpr (by omega))]
    omega
  rw [writeMedia_ok hok]
  rw [if_neg (not_not_intro rfl), if_pos hmore, memcpy_take hload hle]
  refine ⟨⟨0, pktLen - w, flash, _⟩, done, rest, avail.drop w.toNat ++ more, avail.take w.toNat,
    avail.drop w.toNat, ?_, (take_append_drop _ _).symm, UInt32.le_refl _, ?_,
    ⟨h.split, hburned, h.left, h.back, hlen, by rw [← hfut, append_assoc], h.flash⟩, by omega, ?_⟩
  · dsimp only
    rw [UInt32.sub_self, hhead, UInt32.sub_zero]
    rfl
  · exact hhead
  · rw [length_append]
    obtain ⟨hsame, hall⟩ | ⟨hlt, _⟩ := hcases
    · refine .inl ⟨length_eq_zero_iff.mp ?_, .inr (by omega)⟩
      rw [length_append]
      omega
    · exact .inr (by omega)

/-- The outstanding bytes of a RAW chunk end inside the buffer. -/
theorem simgToMedia_tail (hshort : pend.length < avail.length) :
    CallDone f m0 flash avail fut (optimusSimgToMedia env buf pktLen flash s) := by
  have hnotWr : s.packet.notWrBackSz4LongChunk.toNat = pend.length := h.burned.notWr
  have hbytes : pktLen.toNat = avail.length := h.length
  have hnonzero : s.packet.notWrBackSz4LongChunk ≠ 0 := notWr_ne_zero hnotWr hpend
  have hless : ¬ s.packet.notWrBackSz4LongChunk ≥ pktLen := by
    rw [ge_iff_le, le_iff_toNat_le]
    omega
  have hnext : 512 * s.packet.nextFlashAddr4LastLongChunk.toNat + pend.length =
      expandedSize f.blkSz done := h.burned.next hpend
  have haddr : 512 * s.packet.nextFlashAddr4LastLongChunk.toNat =
      expandedSize f.blkSz done - pend.length := by omega
  obtain ⟨tail, havail, hstream⟩ := arrived h.stream (Nat.le_of_lt hshort)
  subst havail
  rw [length_append] at hbytes
  have hburned : Burned f m0
      { s with
        packet := { s.packet with pktHeadLen := 0, notWrBackSz4LongChunk := 0 }
        media := store s.media (expandedSize f.blkSz done - pend.length) pend
        writes := s.writes + 1 } done [] :=
    ⟨h.burned.blkSz, h.burned.fillReady.congr rfl fun _ => rfl, rfl, fun hne => absurd rfl hne,
      by rw [store_nil]; exact h.burned.media⟩
  have hunparsed : (pktLen - s.packet.notWrBackSz4LongChunk).toNat = tail.length := by
    rw [toNat_sub_of_le _ _ (le_iff_toNat_le.mpr (by omega))]
    omega
  have hfacing : Facing f m0 ⟨pend.length, pktLen - s.packet.notWrBackSz4LongChunk, flash, _⟩ done rest
      [] tail fut := ⟨h.split, hburned, h.left, h.back, hunparsed, hstream, h.flash⟩
  have hsuffix := load_behind hload
  rw [Nat.zero_add] at hsuffix
  unfold optimusSimgToMedia
  dsimp only
  rw [if_pos ⟨hnonzero, hhead⟩, if_neg hless, if_neg (UInt32.lt_irrefl _), writeMedia_ok hok]
  rw [if_neg (not_not_intro rfl), if_neg hless, hnotWr, memcpy_of_load (load_front hload), haddr,
    hhead, UInt32.sub_zero, UInt32.sub_self]
  exact (parseRest_spec hok hf hskip hcut hfacing hsuffix).behind pend

end Long

theorem simgToMedia_spec {pend avail : List UInt8} {s : BurnState} {pktLen flash : UInt32}
    (h : Facing f m0 ⟨0, pktLen, flash, s⟩ done rest pend avail fut) (hload : load buf 0 avail.length = avail)
    (hhead : s.packet.pktHeadLen = 0) : CallDone f m0 flash avail fut (optimusSimgToMedia env buf pktLen flash s) := by
  by_cases hpend : pend = []
  · subst hpend
    rw [← @UInt32.sub_zero pktLen] at h
    exact simgToMedia_heads hok hf hskip hcut hhead h hload
  · obtain hlong | hshort := Nat.lt_or_ge pend.length avail.length |>.symm
    · exact simgToMedia_long hok hf h hload hhead hpend hlong
    · exact simgToMedia_tail hok hf hskip hcut h hload hhead hpend hshort

end Burn

/-! ## The caller -/

theorem sectorOffset {offset : UInt64} {flash : UInt32} (h : offset.toNat = 512 * flash.toNat) :
    (offset >>> 9).toUInt32 = flash := by
  apply toNat_inj.mp
  have hflash := flash.toNat_lt
  rw [UInt64.toNat_toUInt32, UInt64.toNat_shiftRight]
  simp only [UInt64.reduceToNat, Nat.reduceMod, Nat.shiftRight_eq_div_pow, Nat.reducePow]
  omega

theorem sectorsMoved {a b : UInt32} (h : b ≤ a) (ha : a.toNat < 2 ^ 31) :
    (a - b).toBitVec.toInt = ((a.toNat - b.toNat : Nat) : Int) := by
  have hsub : (a - b).toBitVec.toNat = a.toNat - b.toNat := toNat_sub_of_le _ _ h
  rw [BitVec.toInt_eq_toNat_of_lt (by rw [hsub]; omega), hsub]

theorem nextOffset_toNat {offset : UInt64} {n : Nat} (h : offset.toNat + 512 * n < 2 ^ 64) :
    (offset + (UInt64.ofInt (n : Int) <<< 9)).toNat = offset.toNat + 512 * n := by
  have hword : ((n : Int) % 2 ^ 64).toNat = n := by omega
  have hn : (UInt64.ofInt (n : Int)).toNat = n := by
    rw [UInt64.ofInt, hword]
    exact UInt64.toNat_ofNat_of_lt' (by simp only [UInt64.size]; omega)
  rw [UInt64.toNat_add, UInt64.toNat_shiftLeft, hn]
  simp only [UInt64.reduceToNat, Nat.reduceMod, Nat.shiftLeft_eq, Nat.reducePow]
  omega

/-- One buffer through the caller, with `behind` in the memory behind its end. A
failed open, an error or more unparsed bytes than there were end the run. -/
def burnCall (env : BurnEnv) (behind : Memory) (p : ImgBurnInfo) (bytes : List UInt8) : Option (ImgBurnInfo × Nat) :=
  let buf := store behind 0 bytes
  let dataSz := UInt32.ofNat bytes.length
  match optimusStorageOpen buf dataSz p with
  | none => none
  | some p =>
    let call := optimusSimgToMedia env buf dataSz (p.nextMediaOffset >>> 9).toUInt32 p.burn
    if call.ret < 0 ∨ bytes.length < call.unParsedDataLen.toNat then none
    else some ((optimusDownloadSparseImage env buf dataSz p).2, call.unParsedDataLen.toNat)

/-- Before the first buffer. -/
structure Unopened (p : ImgBurnInfo) : Prop where
  opened : p.opened = false
  offset : p.nextMediaOffset = 0
  fillReady : FillReady p.burn

/-- Between two buffers, with `carry` left over. -/
structure Running (f : SparseFile) (m0 : Memory) (p : ImgBurnInfo) (carry fut : List UInt8) : Prop where
  opened : p.opened = true
  parsed : p.burn.packet.pktHeadLen = 0
  paused : ∃ l done rest pend, Paused f m0 l done rest pend carry fut ∧ p.burn = l.state ∧
    p.nextMediaOffset.toNat = 512 * l.flashAddrStart.toNat

/-- The invariant of the run. -/
def StreamInv (f : SparseFile) (m0 : Memory) (p : ImgBurnInfo) (carry fut : List UInt8) : Prop :=
  Unopened p ∧ p.burn.media = m0 ∧ carry = [] ∧ fut = f.encode ∨ Running f m0 p carry fut

/-- A cut behind the file header and not inside a FILL chunk behind its head. -/
def GoodCut (f : SparseFile) (rest : List UInt8) : Prop :=
  rest.length ≤ (encodeChunks f.chunks).length ∧ CutOk f rest

theorem CallDone.running {env : BurnEnv} (hf : Burnable f) {m0 buf : Memory} {dataSz flash : UInt32} {r : SimgCall}
    (hopened : p.opened = true) (hoffset : p.nextMediaOffset.toNat = 512 * flash.toNat)
    (hcall : optimusSimgToMedia env buf dataSz flash p.burn = r) (h : CallDone f m0 flash avail fut r) :
    ∃ used kept, avail = used ++ kept ∧ 0 ≤ r.ret ∧ r.unParsedDataLen.toNat = kept.length ∧
      Running f m0 (optimusDownloadSparseImage env buf dataSz p).2 kept fut := by
  obtain ⟨l, done, rest, pend, used, kept, hr, havail, hforward, hhead, hpaused⟩ := h
  have hbound := hpaused.bound hf
  have hflash := hpaused.flash
  have hle := le_iff_toNat_le.mp hforward
  rw [sectorsMoved hforward (by omega)] at hr
  subst hr
  refine ⟨used, kept, havail, Int.natCast_nonneg _, hpaused.length, ?_⟩
  unfold optimusDownloadSparseImage
  rw [sectorOffset hoffset, hcall]
  rw [if_neg (Int.not_lt.mpr (Int.natCast_nonneg _))]
  refine ⟨hopened, hhead, l, done, rest, pend, hpaused, rfl, ?_⟩
  rw [nextOffset_toNat (by omega)]
  omega

theorem Running.refill {carry piece fut : List UInt8} (h : Running f m0 p carry (piece ++ fut))
    (hfits : piece.length + 0x10000 ≤ 2 ^ 32) : ∃ flash done rest pend, p.nextMediaOffset.toNat = 512 * flash.toNat ∧
      Facing f m0 ⟨0, ofNat (carry ++ piece).length, flash, p.burn⟩ done rest pend (carry ++ piece) fut := by
  obtain ⟨l, done, rest, pend, hpaused, hburn, hoffset⟩ := h.paused
  have hsmall := hpaused.small
  refine ⟨l.flashAddrStart, done, rest, pend, hoffset, hpaused.split, ?_, ?_, ?_, ?_, ?_, hpaused.flash⟩
  · rw [hburn]
    exact hpaused.burned
  · rw [hburn]
    exact hpaused.left
  · rw [hburn]
    exact hpaused.back
  · rw [toNat_ofNat', Nat.mod_eq_of_lt]
    rw [length_append]
    omega
  · rw [append_assoc]
    exact hpaused.stream

/-- The first buffer: the image is opened and the parser stands behind the file header. -/
theorem Unopened.first (hf : Burnable f) (h : Unopened p) {buf : Memory} {dataSz : UInt32}
    (hlen : dataSz.toNat = (f.header ++ avail).length)
    (hload : load buf 0 (f.header ++ avail).length = f.header ++ avail)
    (hstream : avail ++ fut = encodeChunks f.chunks) :
    optimusStorageOpen buf dataSz p =
        some { p with opened := true, burn := optimusSimgParserInit buf p.burn } ∧
      (optimusSimgParserInit buf p.burn).packet.pktHeadLen = fileHeadSize ∧
      Facing f p.burn.media
        ⟨fileHeadSize.toNat, dataSz - fileHeadSize, 0, optimusSimgParserInit buf p.burn⟩ [] f.chunks []
        avail fut := by
  have hheader := load_front hload
  have hbacked := hf.backed
  have hcount : f.chunks.length < 2 ^ 32 := by
    simp only [spsVerifyBackInfoSz] at hbacked
    omega
  obtain ⟨hmagic, hmajor, hfileHdr, hchunkHdr, hblk, htotal⟩ := SparseFile.header_fields hcount hheader
  rw [length_append, SparseFile.header_length] at hlen
  have hsize : fileHeadSize.toNat = 28 := rfl
  have henough : fileHeadSize ≤ dataSz := le_iff_toNat_le.mpr (by omega)
  have hprobe : optimusSimgProbe buf dataSz = true := by
    rw [optimusSimgProbe, if_neg (UInt32.not_lt.mpr henough), if_neg (not_not_intro hmagic)]
    exact decide_eq_true ⟨hmajor, hfileHdr, hchunkHdr⟩
  -- the header is copied to the start of the info area, far below the fill buffer
  have hfill : FillReady (optimusSimgParserInit buf p.burn) := by
    refine h.fillReady.congr rfl fun i => memcpy_outside (.inr ?_)
    simp only [fillValBuf, spsVerifyBackInfoSz]
    omega
  refine ⟨?_, ?_, rfl, ⟨hblk, hfill, rfl, fun hne => absurd rfl hne, store_nil _ _⟩, htotal, rfl, ?_, hstream, rfl⟩
  · rw [optimusStorageOpen, h.opened, if_neg Bool.false_ne_true, if_pos hprobe]
  · dsimp only [optimusSimgParserInit]
    rw [hfileHdr]
    rfl
  · rw [toNat_sub_of_le _ _ henough]
    omega

section Run
variable {env : BurnEnv} {f : SparseFile} (hf : Burnable f) {m0 : Memory}
include hf

theorem burnCall_done {behind : Memory} {q : ImgBurnInfo} {bytes avail fut header : List UInt8} {flash : UInt32}
    (hopen : optimusStorageOpen (store behind 0 bytes) (ofNat bytes.length) p = some q)
    (hopened : q.opened = true) (hoffset : q.nextMediaOffset.toNat = 512 * flash.toNat)
    (hbytes : bytes = header ++ avail) (h : CallDone f m0 flash avail fut
      (optimusSimgToMedia env (store behind 0 bytes) (ofNat bytes.length) flash q.burn)) :
    ∃ p' n, burnCall env behind p bytes = some (p', n) ∧ StreamInv f m0 p' (unused bytes n) fut := by
  obtain ⟨used, kept, havail, hret, hn, hrunning⟩ := h.running hf hopened hoffset rfl
  rw [havail, ← append_assoc] at hbytes
  have hkept : unused bytes kept.length = kept := by rw [hbytes, unused_append]
  have hlen : kept.length ≤ bytes.length := by
    rw [hbytes, length_append]
    omega
  refine ⟨_, kept.length, ?_, .inr (by rw [hkept]; exact hrunning)⟩
  unfold burnCall
  dsimp only
  rw [hopen]
  dsimp only
  rw [sectorOffset hoffset, hn, if_neg (by omega)]

variable (hok : ∀ n, env.writeOk n = true) (hskip : SkipsErased env f m0)
include hok hskip

/-- One buffer keeps the invariant. -/
theorem burnCall_step (behind : Memory) (p : ImgBurnInfo) (carry piece fut : List UInt8)
    (hinv : StreamInv f m0 p carry (piece ++ fut)) (hfits : piece.length + 0x10000 ≤ 2 ^ 32) (hgood : GoodCut f fut) :
    ∃ p' n, burnCall env behind p (carry ++ piece) = some (p', n) ∧
      StreamInv f m0 p' (unused (carry ++ piece) n) fut := by
  have hload : load (store behind 0 (carry ++ piece)) 0 (carry ++ piece).length = carry ++ piece :=
    load_store _ _ _
  obtain ⟨hnew, hmedia, hcarry, hfile⟩ | hrunning := hinv
  · subst hcarry hmedia
    rw [SparseFile.encode] at hfile
    obtain ⟨avail, hpiece, hstream⟩ := arrived hfile (by
      have hsum := congrArg List.length hfile
      have hbehind := hgood.1
      rw [length_append, length_append] at hsum
      omega)
    subst hpiece
    rw [nil_append] at hload ⊢
    have hlen : (ofNat (f.header ++ avail).length).toNat = (f.header ++ avail).length := by
      rw [toNat_ofNat', Nat.mod_eq_of_lt (by omega)]
    obtain ⟨hopen, hhead, hfacing⟩ := hnew.first hf hlen hload hstream
    have hchunks := load_behind hload
    rw [SparseFile.header_length, Nat.zero_add] at hchunks
    have hoffset : p.nextMediaOffset.toNat = 512 * (0 : UInt32).toNat := by
      rw [hnew.offset]
      rfl
    exact burnCall_done hf hopen rfl hoffset rfl (simgToMedia_heads hok hf hskip hgood.2 hhead hfacing hchunks)
  · obtain ⟨flash, done, rest, pend, hoffset, hfacing⟩ := hrunning.refill hfits
    have hopen : optimusStorageOpen (store behind 0 (carry ++ piece))
        (ofNat (carry ++ piece).length) p = some p := by
      rw [optimusStorageOpen, if_pos hrunning.opened]
    exact burnCall_done hf hopen hrunning.opened hoffset (nil_append _).symm
      (simgToMedia_spec hok hf hskip hgood.2 hfacing hload hrunning.parsed)

end Run

/-- At the end of the file nothing is outstanding. -/
theorem StreamInv.finished {carry : List UInt8} (h : StreamInv f m0 p carry []) :
    carry = [] ∧ p.burn.media = expand f.blkSz f.chunks 0 m0 ∧ p.burn.packet.leftChunkNum = 0 := by
  obtain ⟨_, _, _, hfile⟩ | hrunning := h
  · have hlen := congrArg List.length hfile
    rw [SparseFile.encode, length_append, SparseFile.header_length, length_nil] at hlen
    omega
  obtain ⟨l, done, rest, pend, hpaused, hburn, _⟩ := hrunning.paused
  have hstream := hpaused.stream
  have hlen := congrArg List.length hstream
  rw [append_nil, length_append] at hlen
  have hpend : pend = [] := by
    obtain ⟨hnil, _⟩ | hwait := hpaused.stopped
    · exact hnil
    · omega
  have hrest : rest = [] := by
    obtain ⟨_, hnil | hshort⟩ | hwait := hpaused.stopped
    · exact hnil
    · cases rest with
      | nil => rfl
      | cons c rest =>
        rw [encodeChunks_cons, length_append, Chunk.encode_length] at hlen
        omega
    · omega
  subst hpend hrest
  have hdone : f.chunks = done := by rw [hpaused.split, append_nil]
  rw [hburn, hdone]
  exact ⟨by simpa [encodeChunks] using hstream, hpaused.burned.media_eq, hpaused.left⟩

/-! ## All cuts -/

/-- Every image the parser can burn, over every good cut and whatever lies behind each
buffer: no call fails or reports more than it got, and the media ends as the one-shot
expansion. -/
theorem sparse_burn_equals_expansion {env : BurnEnv} {f : SparseFile} {p : ImgBurnInfo}
    {pieces : List (List UInt8 × Memory)} (hok : ∀ n, env.writeOk n = true) (hf : Burnable f)
    (hskip : SkipsErased env f p.burn.media) (hnew : Unopened p) (hfile : joined pieces = f.encode)
    (hfits : ∀ q ∈ pieces, q.1.length + 0x10000 ≤ 2 ^ 32) (hcuts : CutsSatisfy (GoodCut f) pieces) :
    ∃ p', feed (burnCall env) p [] pieces = some (p', []) ∧ p'.burn.media = expand f.blkSz f.chunks 0 p.burn.media ∧
      p'.burn.packet.leftChunkNum = 0 := by
  have hinv : StreamInv f p.burn.media p [] (joined pieces) := .inl ⟨hnew, rfl, rfl, hfile⟩
  obtain ⟨p', carry, hrun, hend⟩ := feed_invariant (burnCall_step hf hok hskip) hinv hfits hcuts
  obtain ⟨hcarry, hmedia, hleft⟩ := hend.finished
  exact ⟨p', by rw [hrun, hcarry], hmedia, hleft⟩

/-- eMMC that was not erased before the burn, with every write succeeding. -/
def sampleEnv : BurnEnv := ⟨.emmc, false, fun _ => true⟩

def sampleStart : ImgBurnInfo := ⟨false, 0, ⟨⟨0, 0, 0, 0, 0, 0⟩, zeroed, 0, zeroed, 0⟩⟩

/-- A FILL and a RAW chunk of one block each. -/
def sampleImage : SparseFile :=
  ⟨0, 512, 2, 0, [⟨0, 1, .fill 0xaaaaaaaa⟩, ⟨0, 1, .raw (List.replicate 512 0x55)⟩]⟩

theorem sampleImage_burnable : Burnable sampleImage := by
  constructor <;> decide +kernel

theorem sampleStart_unopened : Unopened sampleStart :=
  ⟨rfl, rfl, by decide, by decide, nofun⟩

theorem sampleImage_cut : GoodCut sampleImage (sampleImage.encode.drop 268) := by
  refine ⟨by decide +kernel, fun done c later val hsplit hbody hcut => ?_⟩
  cases done with
  | nil =>
    obtain ⟨_, hlater⟩ := cons_eq_cons.mp hsplit
    rw [← hlater] at hcut
    exact absurd hcut (by decide +kernel)
  | cons d done =>
    -- the second chunk is a RAW chunk, and there is no third one
    obtain ⟨_, hsecond⟩ := cons_eq_cons.mp hsplit
    cases done with
    | nil =>
      obtain ⟨hraw, _⟩ := cons_eq_cons.mp hsecond
      rw [← hraw] at hbody
      cases hbody
    | cons e done =>
      obtain ⟨_, hthird⟩ := cons_eq_cons.mp hsecond
      simp at hthird

/-- The sample cut 212 bytes into its RAW data. -/
theorem sparse_burn_equals_expansion_sample : ∃ p', feed (burnCall sampleEnv) sampleStart []
        [(sampleImage.encode.take 268, zeroed), (sampleImage.encode.drop 268, zeroed)] = some (p', []) ∧
      p'.burn.media = expand 512 sampleImage.chunks 0 zeroed ∧ p'.burn.packet.leftChunkNum = 0 := by
  refine sparse_burn_equals_expansion (fun _ => rfl) sampleImage_burnable ?_ sampleStart_unopened ?_ ?_ ?_
  · intro done c rest val _ _ hneed
    rw [needFillAsNotErasedYet] at hneed
    simp [sampleEnv] at hneed
  · simp [joined]
  · decide +kernel
  · exact ⟨by simpa [joined] using sampleImage_cut, ⟨Nat.zero_le _, fun _ _ _ _ _ _ h => by simp [joined] at h⟩,
      trivial⟩

/-- A FILL chunk of one block. -/
def fillImage : SparseFile := ⟨0, 512, 1, 0, [⟨0, 1, .fill 0xaaaaaaaa⟩]⟩

/-- 4 GiB of DONT_CARE in front of a FILL chunk. -/
def gapImage : SparseFile :=
  ⟨0, 512, 0x800001, 0, [⟨0, 0x800000, .dontCare⟩, ⟨0, 1, .fill 0xaaaaaaaa⟩]⟩

/-- Two FILL chunks of half a sector. -/
def halfSectorImage : SparseFile :=
  ⟨0, 256, 2, 0, [⟨0, 1, .fill 0x11111111⟩, ⟨0, 1, .fill 0x22222222⟩]⟩

/-- Byte 0 of the media behind a burn in one buffer. -/
def firstByteAfter (f : SparseFile) : Option UInt8 :=
  (feed (burnCall sampleEnv) sampleStart [] [(f.encode, zeroed)]).map fun r => r.1.burn.media 0

/-- A buffer that ends behind the head of a FILL chunk makes the unparsed length wrap; 4 GiB
of one chunk and sizes below a sector move the chunks behind them to the wrong place. -/
theorem sparse_burn_diverges : (optimusSimgToMedia sampleEnv (store zeroed 0 (fillImage.encode.take 40)) 40 0
        (optimusSimgParserInit (store zeroed 0 (fillImage.encode.take 40))
          sampleStart.burn)).unParsedDataLen = 0xfffffffc ∧ (feed (burnCall sampleEnv) sampleStart []
        [(fillImage.encode.take 40, zeroed), (fillImage.encode.drop 40, zeroed)]).isNone ∧
      firstByteAfter gapImage = some 0xaa ∧ expand 512 gapImage.chunks 0 zeroed 0 = 0 ∧
      firstByteAfter halfSectorImage = some 0x22 ∧ expand 256 halfSectorImage.chunks 0 zeroed 0 = 0x11 := by
  decide +kernel

end AmlogicV901d.Guarantees.SparseStream
