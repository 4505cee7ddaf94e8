import AmlogicV901d.Lib.ByteMemory

/-!
# Burning a sparse image

`v2_burning/v2_common/optimus_simg2img.c:30-306`, `sparse_format.h`, and of
`optimus_download.c` the media write and the callers (250-287, 386-399).

A buffer is the memory from `simgPktHead` on: what lies behind `pktLen` is whatever
is there. The info area holds the backed-up headers; the fill buffer lies right
behind its 2 MiB. Sizes and addresses are the 32-bit values of the source. The outcome
of the n-th media write is a parameter; a failed write moves nothing.
-/
namespace AmlogicV901d.Source.Simg
open Lib.ByteMemory

/-- CHUNK_HEAD_SIZE -/
def chunkHeadSize : UInt32 := 12

/-- FILE_HEAD_SIZE -/
def fileHeadSize : UInt32 := 28

def sparseHeaderMagic : UInt32 := 0xed26ff3a

def chunkTypeRaw : UInt16 := 0xcac1

def chunkTypeFill : UInt16 := 0xcac2

def chunkTypeDontCare : UInt16 := 0xcac3

def chunkTypeCrc32 : UInt16 := 0xcac4

/-- OPTIMUS_DOWNLOAD_SPS_VERIFY_BACK_INFO_SZ -/
def spsVerifyBackInfoSz : Nat := 0x200000

/-- OPTIMUS_SPARSE_IMG_FILL_VAL_BUF, from the start of the info area -/
def fillValBuf : Nat := spsVerifyBackInfoSz

/-- OPTIMUS_SPARSE_IMG_FILL_BUF_SZ, one slot of 64 KiB -/
def fillBufSz : UInt32 := 0x10000

/-- `x >> OPTIMUS_DOWNLOAD_SLOT_SZ_SHIFT_BITS << OPTIMUS_DOWNLOAD_SLOT_SZ_SHIFT_BITS` -/
def wholeSlots (x : UInt32) : UInt32 := (x >>> 16) <<< 16

/-- What the parser reads of a `chunk_header_t`. -/
structure ChunkHeader where
  chunkType : UInt16
  chunkSz : UInt32
  totalSz : UInt32
  deriving DecidableEq, Repr

def ChunkHeader.loadAt (m : Memory) (p : Nat) : ChunkHeader :=
  ⟨loadU16 m p, loadU32 m (p + 4), loadU32 m (p + 8)⟩

/-- `_spPacketStates` without the fields that burning never reads. -/
structure SpPacketStates where
  leftChunkNum : Nat
  sparseBlkSz : UInt32
  pktHeadLen : UInt32
  notWrBackSz4LongChunk : UInt32
  nextFlashAddr4LastLongChunk : UInt32
  backChunkNum : Nat
  deriving DecidableEq, Repr

/-- The statics of the parser, the info area, the partition on the media and the
number of media writes so far. -/
structure BurnState where
  packet : SpPacketStates
  info : Memory
  filledBufValidLen : UInt32
  media : Memory
  writes : Nat

/-- `device_boot_flag` -/
inductive BootFlag
  | emmc
  | spiEmmc
  | nand
  | spiNand
  | other
  deriving DecidableEq, Repr

/-- `diskErased` is `is_optimus_storage_inited() >> 16` not 0; `writeOk n` the outcome of
the n-th media write. -/
structure BurnEnv where
  bootFlag : BootFlag
  diskErased : Bool
  writeOk : Nat → Bool

def optimusCbSimgWriteMedia (env : BurnEnv) (s : BurnState) (destAddrInSec dataSzInBy : UInt32)
    (src : Memory) (pos : Nat) : UInt32 × BurnState :=
  if env.writeOk s.writes then
    (dataSzInBy, { s with
      media := memcpy s.media (512 * destAddrInSec.toNat) src pos dataSzInBy.toNat
      writes := s.writes + 1 })
  else (0, { s with writes := s.writes + 1 })

/-! ## Probe and init -/

def optimusSimgProbe (source : Memory) (length : UInt32) : Bool :=
  if length < fileHeadSize then false
  else if loadU32 source 0 ≠ sparseHeaderMagic then false
  else loadU16 source 4 = 1 ∧ loadU16 source 8 = 28 ∧ loadU16 source 10 = 12

def optimusSimgParserInit (source : Memory) (s : BurnState) : BurnState :=
  { s with
    packet := ⟨(loadU32 source 20).toNat, loadU32 source 12, (loadU16 source 8).toUInt32, 0, 0, 0⟩
    info := memcpy s.info 0 source 0 28 }

/-! ## One chunk -/

/-- The value of the switch: the error, or the bytes it took behind the chunk head. -/
abbrev ChunkResult := Except (Int × BurnState) (UInt32 × BurnState)

def burnRaw (env : BurnEnv) (buf : Memory) (pos : Nat) (head : ChunkHeader)
    (chunkDataLen unParsedBufLen flashAddrStart : UInt32) (s : BurnState) : ChunkResult :=
  if 12 + chunkDataLen.toNat ≠ head.totalSz.toNat then .error (-176, s)
  else
    let (wantWrLen, s) :=
      if head.totalSz > unParsedBufLen then
        let wantWrLen := wholeSlots (unParsedBufLen - chunkHeadSize)
        (wantWrLen, { s with packet := { s.packet with
          notWrBackSz4LongChunk := chunkDataLen - wantWrLen
          nextFlashAddr4LastLongChunk := flashAddrStart + (wantWrLen >>> 9) } })
      else (chunkDataLen, s)
    if wantWrLen ≠ 0 then
      let (thisWriteLen, s) := optimusCbSimgWriteMedia env s flashAddrStart wantWrLen buf (pos + 12)
      if thisWriteLen ≠ wantWrLen then .error (-195, s) else .ok (thisWriteLen, s)
    else .ok (0, s)

/-- `_NeedFillAsNotErasedYet` -/
def needFillAsNotErasedYet (env : BurnEnv) (fillVal : UInt32) : Bool :=
  let differs :=
    match env.bootFlag with
    | .emmc | .spiEmmc => fillVal != 0
    | .nand | .spiNand => fillVal != 0xffffffff
    | .other => true
  differs || !env.diskErased

/-- `while (i++ < n) *temBuf++ = fillVal` -/
def fillWords (fillVal : UInt32) : Nat → Nat → Memory → Memory
  | 0, _, m => m
  | n + 1, p, m => fillWords fillVal n (p + 4) (storeU32 m p fillVal)

/-- The fill buffer keeps the words of the chunk before, if the value is the same. -/
def prepareFillBuf (fillVal thisChunkFilledLen : UInt32) (s : BurnState) : BurnState :=
  let valid :=
    if fillVal ≠ loadU32 s.info fillValBuf ∧ s.filledBufValidLen ≠ 0 then 0 else s.filledBufValidLen
  if valid < thisChunkFilledLen then
    let i := (valid >>> 2).toNat
    { s with
      info := fillWords fillVal ((thisChunkFilledLen >>> 2).toNat - i) (fillValBuf + 4 * i) s.info
      filledBufValidLen := thisChunkFilledLen }
  else { s with filledBufValidLen := valid }

/-- The write loop; a failed write ends it and is only reported. -/
def fillMedia (env : BurnEnv) (thisChunkFilledLen : UInt32) : Nat → UInt32 → UInt32 → BurnState → BurnState
  | 0, _, _, s => s
  | n + 1, flashAddr, leftDataLen, s =>
    let thisWriteLen := min leftDataLen thisChunkFilledLen
    let (actualWrLen, s) := optimusCbSimgWriteMedia env s flashAddr thisWriteLen s.info fillValBuf
    if actualWrLen ≠ thisWriteLen then s
    else
      let leftDataLen := leftDataLen - thisWriteLen
      if leftDataLen = 0 then s
      else fillMedia env thisChunkFilledLen n (flashAddr + (thisWriteLen >>> 9)) leftDataLen s

def burnFill (env : BurnEnv) (buf : Memory) (pos : Nat) (head : ChunkHeader)
    (chunkDataLen flashAddrStart : UInt32) (s : BurnState) : ChunkResult :=
  let fillVal := loadU32 buf (pos + 12)
  let thisChunkFilledLen := min chunkDataLen fillBufSz
  if head.totalSz ≠ chunkHeadSize + 4 then .error (-227, s)
  else if needFillAsNotErasedYet env fillVal then
    -- a round takes 64 KiB or ends the loop
    .ok (4, fillMedia env thisChunkFilledLen (chunkDataLen.toNat / 0x10000 + 1) flashAddrStart
      chunkDataLen (prepareFillBuf fillVal thisChunkFilledLen s))
  else .ok (4, s)

def burnChunk (env : BurnEnv) (buf : Memory) (pos : Nat) (head : ChunkHeader)
    (chunkDataLen unParsedBufLen flashAddrStart : UInt32) (s : BurnState) : ChunkResult :=
  if head.chunkType = chunkTypeRaw then
    burnRaw env buf pos head chunkDataLen unParsedBufLen flashAddrStart s
  else if head.chunkType = chunkTypeDontCare then
    if head.totalSz ≠ chunkHeadSize then .error (-206, s) else .ok (0, s)
  else if head.chunkType = chunkTypeFill then
    burnFill env buf pos head chunkDataLen flashAddrStart s
  else if head.chunkType = chunkTypeCrc32 then .error (-283, s)
  else .error (-286, s)

/-! ## The loop over the chunks of a buffer -/

structure ParsePos where
  pChunk : Nat
  unParsedBufLen : UInt32
  flashAddrStart : UInt32
  state : BurnState

/-- `memcpy(backChunkHead, pChunk, CHUNK_HEAD_SIZE)` and the counters. -/
def backUpChunk (buf : Memory) (pos left : Nat) (s : BurnState) : BurnState :=
  { s with
    info := memcpy s.info (28 + 12 * s.packet.backChunkNum) buf pos 12
    packet := { s.packet with
      backChunkNum := s.packet.backChunkNum + 1
      leftChunkNum := left } }

/-- The argument is `leftChunkNum`. -/
def parseChunks (env : BurnEnv) (buf : Memory) : Nat → ParsePos → Except (Int × BurnState) ParsePos
  | 0, l => .ok l
  | left + 1, l =>
    if l.state.packet.notWrBackSz4LongChunk ≠ 0 then .ok l
    else
      let head := ChunkHeader.loadAt buf l.pChunk
      let chunkDataLen := head.chunkSz * l.state.packet.sparseBlkSz
      if chunkHeadSize > l.unParsedBufLen then .ok l
      else
        match burnChunk env buf l.pChunk head chunkDataLen l.unParsedBufLen l.flashAddrStart
          l.state with
        | .error e => .error e
        | .ok (thisWriteLen, s) =>
          parseChunks env buf left
            ⟨l.pChunk + head.totalSz.toNat, l.unParsedBufLen - (chunkHeadSize + thisWriteLen),
              l.flashAddrStart + (chunkDataLen >>> 9), backUpChunk buf l.pChunk left s⟩

/-! ## The parser -/

/-- `unParsedDataLen` is 0 when the call fails, as the caller initialised it. -/
structure SimgCall where
  ret : Int
  unParsedDataLen : UInt32
  state : BurnState

/-- The loop and the end of the call. -/
def parseRest (env : BurnEnv) (buf : Memory) (flashAddrInSec : UInt32) (l : ParsePos) : SimgCall :=
  match parseChunks env buf l.state.packet.leftChunkNum l with
  | .error (ret, s) => ⟨ret, 0, s⟩
  | .ok l =>
    ⟨(l.flashAddrStart - flashAddrInSec).toBitVec.toInt, l.unParsedBufLen,
      { l.state with packet := { l.state.packet with pktHeadLen := 0 } }⟩

def optimusSimgToMedia (env : BurnEnv) (buf : Memory) (pktLen flashAddrInSec : UInt32) (s : BurnState) : SimgCall :=
  let notWrBack := s.packet.notWrBackSz4LongChunk
  let unParsedBufLen := pktLen - s.packet.pktHeadLen
  if notWrBack ≠ 0 ∧ s.packet.pktHeadLen = 0 then
    let thisWriteLen := if notWrBack ≥ pktLen then pktLen else notWrBack
    let thisWriteLen := if notWrBack > thisWriteLen then wholeSlots thisWriteLen else thisWriteLen
    let nextFlashAddr := s.packet.nextFlashAddr4LastLongChunk
    let (writeLen, s) := optimusCbSimgWriteMedia env s nextFlashAddr thisWriteLen buf 0
    if thisWriteLen ≠ writeLen then ⟨-138, 0, s⟩
    else
      let unParsedBufLen := unParsedBufLen - thisWriteLen
      let packet := { s.packet with notWrBackSz4LongChunk := notWrBack - thisWriteLen }
      if notWrBack ≥ pktLen then
        ⟨0, unParsedBufLen, { s with packet := { packet with
          nextFlashAddr4LastLongChunk := nextFlashAddr + (thisWriteLen >>> 9) } }⟩
      else
        parseRest env buf flashAddrInSec
          ⟨notWrBack.toNat, unParsedBufLen, flashAddrInSec, { s with packet := packet }⟩
  else
    parseRest env buf flashAddrInSec
      ⟨s.packet.pktHeadLen.toNat, unParsedBufLen, flashAddrInSec, s⟩

/-- What the caller keeps of an image: whether the device is open and the offset
behind the last chunk it saw. -/
structure ImgBurnInfo where
  opened : Bool
  nextMediaOffset : UInt64
  burn : BurnState

/-- `optimus_storage_open` for a sparse image: the first buffer must hold the file
header. -/
def optimusStorageOpen (buf : Memory) (dataSz : UInt32) (p : ImgBurnInfo) : Option ImgBurnInfo :=
  if p.opened then some p
  else if optimusSimgProbe buf dataSz then
    some { p with opened := true, burn := optimusSimgParserInit buf p.burn }
  else none

/-- Returns the data size disposed, 0 when the call fails. -/
def optimusDownloadSparseImage (env : BurnEnv) (buf : Memory) (dataSz : UInt32) (p : ImgBurnInfo) :
    UInt32 × ImgBurnInfo :=
  let call := optimusSimgToMedia env buf dataSz (p.nextMediaOffset >>> 9).toUInt32 p.burn
  if call.ret < 0 then (0, { p with burn := call.state })
  else
    (dataSz - call.unParsedDataLen, { p with
      nextMediaOffset := p.nextMediaOffset + (UInt64.ofInt call.ret <<< 9)
      burn := call.state })

end AmlogicV901d.Source.Simg
