import AmlogicV901d.Source.Simg.Sparse

/-!
# Sparse images and their expansion

The format of sparse_format.h as data: a file header and chunks, each with its head of
12 bytes and its payload. `expand` is the one-shot meaning of a list of chunks:
RAW data copied, a FILL value repeated, DONT_CARE ranges left alone, each chunk
behind the expanded size of those before it.
-/
namespace AmlogicV901d.Guarantees.SparseImage
open Lib.ByteMemory Lib.LittleEndian Source.Simg List

inductive ChunkBody
  | raw (data : List UInt8)
  | fill (val : UInt32)
  | dontCare
  deriving DecidableEq, Repr

structure Chunk where
  reserved1 : UInt16
  chunkSz : UInt32
  body : ChunkBody
  deriving DecidableEq, Repr

namespace Chunk

def payload (c : Chunk) : List UInt8 :=
  match c.body with
  | .raw data => data
  | .fill val => leBytes 4 val.toNat
  | .dontCare => []

def typeCode (c : Chunk) : UInt16 :=
  match c.body with
  | .raw _ => chunkTypeRaw
  | .fill _ => chunkTypeFill
  | .dontCare => chunkTypeDontCare

def totalSz (c : Chunk) : UInt32 := UInt32.ofNat (12 + c.payload.length)

def head (c : Chunk) : List UInt8 :=
  leBytes 2 c.typeCode.toNat ++ leBytes 2 c.reserved1.toNat ++ leBytes 4 c.chunkSz.toNat ++ leBytes 4 c.totalSz.toNat

def encode (c : Chunk) : List UInt8 := c.head ++ c.payload

/-- Expanded size in bytes. -/
def size (blkSz : UInt32) (c : Chunk) : Nat := c.chunkSz.toNat * blkSz.toNat

/-- A RAW chunk carries its blocks, and its total size has a 32-bit field. -/
def WellFormed (blkSz : UInt32) (c : Chunk) : Prop :=
  match c.body with
  | .raw data => data.length = c.size blkSz ∧ 12 + data.length < 2 ^ 32
  | _ => True

instance (blkSz : UInt32) : (c : Chunk) → Decidable (c.WellFormed blkSz)
  | ⟨_, _, .raw _⟩ => inferInstanceAs (Decidable (_ ∧ _))
  | ⟨_, _, .fill _⟩ => isTrue trivial
  | ⟨_, _, .dontCare⟩ => isTrue trivial

def expandAt (blkSz : UInt32) (c : Chunk) (off : Nat) (m : Memory) : Memory :=
  match c.body with
  | .raw data => store m off data
  | .fill val => fillPattern m off (c.size blkSz) val
  | .dontCare => m

@[simp] theorem head_length (c : Chunk) : c.head.length = 12 := by simp [head]

theorem encode_length (c : Chunk) : c.encode.length = 12 + c.payload.length := by
  simp [encode]

theorem totalSz_toNat {blkSz : UInt32} {c : Chunk} (h : c.WellFormed blkSz) :
    c.totalSz.toNat = 12 + c.payload.length := by
  refine Nat.mod_eq_of_lt ?_
  cases hbody : c.body with
  | raw data =>
    rw [WellFormed, hbody] at h
    rw [payload, hbody]
    exact h.2
  | fill val | dontCare => simp [payload, hbody]

theorem loadAt_head {buf : Memory} {pos : Nat} {c : Chunk} (h : load buf pos 12 = c.head) :
    ChunkHeader.loadAt buf pos = ⟨c.typeCode, c.chunkSz, c.totalSz⟩ := by
  have hsplit : load buf pos 12 =
      load buf pos 2 ++ load buf (pos + 2) 2 ++ load buf (pos + 4) 4 ++ load buf (pos + 8) 4 := by
    rw [← load_add, ← load_add, ← load_add]
  rw [hsplit, head] at h
  obtain ⟨h, htotal⟩ := append_inj h (by simp)
  obtain ⟨h, hblocks⟩ := append_inj h (by simp)
  obtain ⟨htype, _⟩ := append_inj h (by simp)
  rw [ChunkHeader.loadAt, loadU16, loadU32, loadU32, htype, hblocks, htotal, leValue_leBytes_u16,
    leValue_leBytes_u32, leValue_leBytes_u32]

theorem expandAt_outside {blkSz : UInt32} {c : Chunk} (hc : c.WellFormed blkSz) {off a : Nat}
    {m : Memory} (h : a < off ∨ off + c.size blkSz ≤ a) : c.expandAt blkSz off m a = m a := by
  cases hbody : c.body with
  | raw data =>
    rw [WellFormed, hbody] at hc
    rw [expandAt, hbody]
    exact store_outside (by rw [hc.1]; exact h)
  | fill val =>
    rw [expandAt, hbody]
    exact fillPattern_outside h
  | dontCare => rw [expandAt, hbody]

end Chunk

def encodeChunks (cs : List Chunk) : List UInt8 := cs.flatMap Chunk.encode

/-- Expanded size of a list of chunks. -/
def expandedSize (blkSz : UInt32) (cs : List Chunk) : Nat := (cs.map (Chunk.size blkSz)).sum

/-- The one-shot expansion from a media offset on. -/
def expand (blkSz : UInt32) : List Chunk → Nat → Memory → Memory
  | [], _, m => m
  | c :: cs, off, m => expand blkSz cs (off + c.size blkSz) (c.expandAt blkSz off m)

theorem encodeChunks_cons (c : Chunk) (cs : List Chunk) :
    encodeChunks (c :: cs) = c.encode ++ encodeChunks cs := rfl

theorem expandedSize_append_single (blkSz : UInt32) (cs : List Chunk) (c : Chunk) :
    expandedSize blkSz (cs ++ [c]) = expandedSize blkSz cs + c.size blkSz := by
  simp [expandedSize]

theorem expandedSize_append (blkSz : UInt32) (cs ds : List Chunk) :
    expandedSize blkSz (cs ++ ds) = expandedSize blkSz cs + expandedSize blkSz ds := by
  simp [expandedSize]

theorem expand_append_single (blkSz : UInt32) (cs : List Chunk) (c : Chunk) (off : Nat) (m : Memory) :
    expand blkSz (cs ++ [c]) off m = c.expandAt blkSz (off + expandedSize blkSz cs) (expand blkSz cs off m) := by
  induction cs generalizing off m with
  | nil => rfl
  | cons d cs ih =>
    rw [cons_append, expand, ih, expand]
    congr 1
    simp only [expandedSize, map_cons, sum_cons]
    omega

theorem expand_above {blkSz : UInt32} {cs : List Chunk} (hcs : ∀ c ∈ cs, c.WellFormed blkSz) {off a : Nat} {m : Memory}
    (h : off + expandedSize blkSz cs ≤ a) : expand blkSz cs off m a = m a := by
  induction cs generalizing off m with
  | nil => rfl
  | cons c cs ih =>
    simp only [expandedSize, map_cons, sum_cons] at h ih
    rw [expand, ih (fun d hd => hcs d (.tail _ hd)) (by omega),
      Chunk.expandAt_outside (hcs c (mem_cons_self ..)) (by omega)]

/-- A whole file; the block total and the checksum are not looked at. -/
structure SparseFile where
  minorVersion : UInt16
  blkSz : UInt32
  totalBlks : UInt32
  imageChecksum : UInt32
  chunks : List Chunk

def SparseFile.header (f : SparseFile) : List UInt8 :=
  leBytes 4 sparseHeaderMagic.toNat ++ leBytes 2 1 ++ leBytes 2 f.minorVersion.toNat ++
    leBytes 2 28 ++ leBytes 2 12 ++ leBytes 4 f.blkSz.toNat ++ leBytes 4 f.totalBlks.toNat ++
    leBytes 4 f.chunks.length ++ leBytes 4 f.imageChecksum.toNat

def SparseFile.encode (f : SparseFile) : List UInt8 := f.header ++ encodeChunks f.chunks

@[simp] theorem SparseFile.header_length (f : SparseFile) : f.header.length = 28 := by
  simp [SparseFile.header]

/-- The fields of the file header as probe and init read them. -/
theorem SparseFile.header_fields {f : SparseFile} {buf : Memory} (hcount : f.chunks.length < 2 ^ 32)
    (h : load buf 0 28 = f.header) : loadU32 buf 0 = sparseHeaderMagic ∧ loadU16 buf 4 = 1 ∧ loadU16 buf 8 = 28 ∧
      loadU16 buf 10 = 12 ∧ loadU32 buf 12 = f.blkSz ∧ (loadU32 buf 20).toNat = f.chunks.length := by
  have hsplit : load buf 0 28 = load buf 0 4 ++ load buf 4 2 ++ load buf 6 2 ++ load buf 8 2 ++ load buf 10 2 ++
        load buf 12 4 ++ load buf 16 4 ++ load buf 20 4 ++ load buf 24 4 := rfl
  rw [hsplit, SparseFile.header] at h
  obtain ⟨h, _⟩ := append_inj h (by simp)
  obtain ⟨h, hchunks⟩ := append_inj h (by simp)
  obtain ⟨h, _⟩ := append_inj h (by simp)
  obtain ⟨h, hblk⟩ := append_inj h (by simp)
  obtain ⟨h, hchunkHdr⟩ := append_inj h (by simp)
  obtain ⟨h, hfileHdr⟩ := append_inj h (by simp)
  obtain ⟨h, _⟩ := append_inj h (by simp)
  obtain ⟨hmagic, hmajor⟩ := append_inj h (by simp)
  refine ⟨?_, ?_, ?_, ?_, ?_, ?_⟩
  · rw [loadU32, hmagic, leValue_leBytes_u32]
  · rw [loadU16, hmajor]
    decide
  · rw [loadU16, hfileHdr]
    decide
  · rw [loadU16, hchunkHdr]
    decide
  · rw [loadU32, hblk, leValue_leBytes_u32]
  · rw [loadU32, hchunks, leValue_leBytes, UInt32.toNat_ofNat']
    omega

end AmlogicV901d.Guarantees.SparseImage
