import AmlogicV901d.Source.Simg.Sparse

/-!
# Installing the panel configuration package

`bl33/common/amzn_multiconfigs.c:42-337, 412-545`, `aboot.h:28-37` and `sparse_format.h`.

What the version files say, what of the package file was read, and the outcome of
decryption, decompression, erase and of every block write are inputs. The buffers at
FILE_READ_ADDR and FILE_UNZIP_ADDR are memories of which only the front is what was read or
decompressed. The device is a memory by byte address. A block write that is not accepted
returns another count than it was given and leaves anything in its range.
-/
namespace AmlogicV901d.Source.TvConfig
open Lib.ByteMemory
open Source.Simg (ChunkHeader sparseHeaderMagic chunkTypeRaw chunkTypeFill chunkTypeDontCare chunkTypeCrc32)

/-! ## Tables -/

/-- TVCONFIG_NUM -/
def tvconfigNum : Nat := 40

/-- GUNZIP_BUF_SIZE -/
def gunzipBufSize : Nat := 0x10000000

structure ModuleOemid where
  hwid : List Char
  oemId : UInt32
  config : List Char
  deriving DecidableEq

/-- `module_list` without its end mark, names and keys -/
def moduleList : List ModuleOemid :=
  [⟨['1', '1', '0', '0'], 1, ['_', 'A', 'M', 'A', 'Z', 'O', 'N']⟩, ⟨['1', '1', '0', '0'], 1, ['_', '2', 'R', 'G']⟩,
    ⟨['1', '1', '0', '0'], 1, ['_', '1', 'R', 'G']⟩,
    ⟨['1', '1', '0', '0'], 2, ['_', 'A', 'P', 'B', '6', 'C', '1', '3']⟩,
    ⟨['1', '1', '0', '0'], 3, ['_', 'A', 'K', 'A', 'I', '7', 'G', '2', '6']⟩]

/-- `strstr(s, t) != NULL` -/
def strstr (s t : List Char) : Bool := s.tails.any t.isPrefixOf

/-- The identity that `get_oem_index` finds. -/
def getOemIndex (modelName hwid : List Char) : Option UInt32 :=
  (moduleList.find? fun m => m.hwid = hwid ∧ strstr modelName m.config).map ModuleOemid.oemId

/-! ## Inputs -/

/-- What `update_tvconfig` finds before it changes anything. -/
structure Inputs where
  /-- normal boot mode, and the transition is done -/
  mayErase : Bool
  modelName : List Char
  hwid : List Char
  /-- VERSION of ready.ini -/
  currentVersion : Option (List Char)
  /-- VERSION of multi_oem.ini for an identity -/
  packageVersion : UInt32 → Option (List Char)
  packageExists : Bool
  /-- the bytes of final.img that were read -/
  read : List UInt8
  /-- what was at FILE_READ_ADDR before -/
  ram : Memory

/-- The tvconfig partition; its blocks have `2 ^ blkszLog` bytes. -/
structure PartInfo where
  blkszLog : Nat
  start : Nat
  size : Nat
  deriving DecidableEq

def PartInfo.blksz (info : PartInfo) : Nat := 2 ^ info.blkszLog

structure Outcomes where
  /-- first word of the decrypted entry -/
  dtMagic : UInt32
  /-- what `gunzip` gives -/
  image : Option (List UInt8)
  /-- what is at FILE_UNZIP_ADDR behind it -/
  behind : Memory
  /-- the device after the tvconfig partition was erased -/
  erased : Option Memory
  /-- the device and the partition are found -/
  part : Option PartInfo
  /-- for each block write, what it leaves where it is not accepted -/
  refused : Nat → Option Memory
  /-- for each chunk, whether `memalign` gives a buffer -/
  allocated : Nat → Bool

/-! ## Writing an image -/

structure WriteState where
  disk : Memory
  writes : Nat
  blk : Nat
  /-- position of `data` in the buffer -/
  pos : Nat
  chunk : Nat

/-- `block_write`; says whether it returned the count it was given. -/
def blockWrite (o : Outcomes) (info : PartInfo) (blkcnt : Nat) (src : Memory) (pos : Nat) (w : WriteState) :
    Bool × WriteState :=
  match o.refused w.writes with
  | none =>
    (true, { w with disk := memcpy w.disk (w.blk * info.blksz) src pos (blkcnt * info.blksz), writes := w.writes + 1 })
  | some left =>
    (false, { w with
      disk := memcpy w.disk (w.blk * info.blksz) left (w.blk * info.blksz) (blkcnt * info.blksz)
      writes := w.writes + 1 })

/-- `blk + n` in the 64 bits of `lbaint_t` -/
def lba (n : Nat) : Nat := n % 2 ^ 64

/-- The value of the switch for one chunk: the writer returns, or goes on. -/
abbrev ChunkResult := Except WriteState WriteState

def writeRaw (o : Outcomes) (info : PartInfo) (buf : Memory) (blkcnt dataSz : Nat) (w : WriteState) : ChunkResult :=
  if lba (w.blk + blkcnt) > lba (info.start + info.size) then .error w
  else
    let (accepted, w) := blockWrite o info blkcnt buf w.pos w
    if accepted then .ok { w with blk := lba (w.blk + blkcnt), pos := w.pos + dataSz } else .error w

/-- The loop over the blocks of a FILL chunk. -/
def fillBlocks (o : Outcomes) (info : PartInfo) (fillBuf : Memory) : Nat → WriteState → ChunkResult
  | 0, w => .ok w
  | n + 1, w =>
    let (accepted, w) := blockWrite o info 1 fillBuf 0 w
    if accepted then fillBlocks o info fillBuf n { w with blk := lba (w.blk + 1) } else .error w

def writeFill (o : Outcomes) (info : PartInfo) (buf : Memory) (blkcnt : Nat) (w : WriteState) : ChunkResult :=
  if o.allocated w.chunk = false then .error w
  else
    let fillBuf := fillPattern zeroed 0 (info.blksz / 4 * 4) (loadU32 buf w.pos)
    let w := { w with pos := w.pos + 4 }
    if lba (w.blk + blkcnt) > lba (info.start + info.size) then .error w else fillBlocks o info fillBuf blkcnt w

/-- One turn of the chunk loop. `chunkHdrSz` and `blkSz` are those of the file header. -/
def writeChunk (o : Outcomes) (info : PartInfo) (buf : Memory) (chunkHdrSz blkSz : Nat) (w : WriteState) : ChunkResult :=
  let head := ChunkHeader.loadAt buf w.pos
  let w := { w with pos := w.pos + 12 + (chunkHdrSz - 12) }
  let dataSz := blkSz * head.chunkSz.toNat
  let blkcnt := dataSz / info.blksz
  if head.chunkType = chunkTypeRaw then
    if head.totalSz.toNat ≠ chunkHdrSz + dataSz then .error w else writeRaw o info buf blkcnt dataSz w
  else if head.chunkType = chunkTypeFill then
    if head.totalSz.toNat ≠ chunkHdrSz + 4 then .error w else writeFill o info buf blkcnt w
  else if head.chunkType = chunkTypeDontCare then .ok { w with blk := lba (w.blk + blkcnt) }
  else if head.chunkType = chunkTypeCrc32 then
    if head.totalSz.toNat ≠ chunkHdrSz then .error w else .ok { w with pos := w.pos + dataSz }
  else .error w

def writeChunks (o : Outcomes) (info : PartInfo) (buf : Memory) (chunkHdrSz blkSz : Nat) : Nat → WriteState → WriteState
  | 0, w => w
  | n + 1, w =>
    match writeChunk o info buf chunkHdrSz blkSz w with
    | .error w => w
    | .ok w => writeChunks o info buf chunkHdrSz blkSz n { w with chunk := w.chunk + 1 }

/-- A header that is longer than expected is skipped, and its rest once more. -/
def tvconfigWriteSparseImage (o : Outcomes) (info : PartInfo) (buf disk : Memory) : Memory :=
  let fileHdrSz := (loadU16 buf 8).toNat
  let blkSz := (loadU32 buf 12).toNat
  if blkSz % info.blksz ≠ 0 then disk
  else
    (writeChunks o info buf (loadU16 buf 10).toNat blkSz (loadU32 buf 20).toNat
      ⟨disk, 0, info.start, fileHdrSz + (fileHdrSz - 28), 0⟩).disk

def tvconfigWriteRawImage (o : Outcomes) (info : PartInfo) (buf : Memory) (bytes : Nat) (disk : Memory) : Memory :=
  let blkcnt := (bytes + (info.blksz - 1)) / info.blksz
  if blkcnt > info.size then disk else (blockWrite o info blkcnt buf 0 ⟨disk, 0, info.start, 0, 0⟩).2.disk

def isSparseImage (buf : Memory) : Bool := loadU32 buf 0 = sparseHeaderMagic ∧ loadU16 buf 4 = 1

def tvconfigMmcFlashWrite (o : Outcomes) (buf : Memory) (bytes : Nat) (disk : Memory) : Memory :=
  match o.part with
  | none => disk
  | some info =>
    if isSparseImage buf then tvconfigWriteSparseImage o info buf disk
    else tvconfigWriteRawImage o info buf bytes disk

/-! ## The update -/

/-- The search in the table at the front of the package: size and offset of the entry. -/
def searchOem (m : Memory) (oemId : UInt32) : Nat → Nat → UInt32 × UInt32
  | 0, _ => (0, 0)
  | n + 1, i =>
    if loadU32 m (16 * i) = 0 then (0, 0)
    else if loadU32 m (16 * i) = oemId then (loadU32 m (16 * i + 8), loadU32 m (16 * i + 4))
    else searchOem m oemId n (i + 1)

structure Result where
  /-- the bytes at FILE_READ_ADDR that were decrypted: offset and number -/
  decrypted : Option (Nat × Nat)
  /-- the device, once tvconfig was erased -/
  disk : Option Memory
  oemErased : Bool

def isGzipFormat (word : UInt32) : Bool := word &&& 0xffff = 0x8b1f

/-- `gunzip` fails where its buffer is too small. -/
def gunzip (o : Outcomes) : Option (List UInt8) := o.image.filter fun image => image.length ≤ gunzipBufSize

/-- From the decrypted entry on. -/
def installEntry (mayErase : Bool) (decrypted : Nat × Nat) (o : Outcomes) : Result :=
  if isGzipFormat o.dtMagic then
    match gunzip o with
    | none => ⟨some decrypted, none, false⟩
    | some image =>
      match o.erased with
      | none => ⟨some decrypted, none, false⟩
      | some disk =>
        ⟨some decrypted, some (tvconfigMmcFlashWrite o (store o.behind 0 image) image.length disk), mayErase⟩
  else ⟨some decrypted, none, false⟩

/-- The two versions that are compared are there and equal. -/
def sameVersion (i : Inputs) (oemId : UInt32) : Bool :=
  i.currentVersion ≠ none ∧ i.currentVersion = i.packageVersion oemId

/-- Offset and size of the entry that is installed. -/
def findEntry (i : Inputs) (oemId : UInt32) : Option (Nat × Nat) :=
  let (size, offset) := searchOem (store i.ram 0 i.read) oemId tvconfigNum 0
  if size = 0 then none else some (offset.toNat, (size.toNat + 15) / 16 * 16)

/-- What the versions and the package lead to. -/
inductive Plan where
  | nothing
  | latest
  | install (entry : Nat × Nat)
  deriving DecidableEq

/-- The first part of `update_tvconfig`, up to the decryption. -/
def planUpdate (i : Inputs) : Plan :=
  match getOemIndex i.modelName i.hwid with
  | none => .nothing
  | some oemId =>
    if i.packageVersion oemId = none then .nothing
    else if sameVersion i oemId then .latest
    else if ¬ i.packageExists then .nothing
    else
      match findEntry i oemId with
      | none => .nothing
      | some entry => .install entry

def updateTvconfig (i : Inputs) (o : Outcomes) : Result :=
  match planUpdate i with
  | .nothing => ⟨none, none, false⟩
  | .latest => ⟨none, none, i.mayErase⟩
  | .install entry => installEntry i.mayErase entry o

end AmlogicV901d.Source.TvConfig
