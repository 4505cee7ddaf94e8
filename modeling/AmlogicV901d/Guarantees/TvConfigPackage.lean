import AmlogicV901d.Guarantees.SparseImage
import AmlogicV901d.Source.TvConfig

/-!
# The panel configuration package and what was installed of it

`update_tvconfig` erases the package after it called the writers, which report nothing: a
partition that is not found, an image that is too large or not well formed, and a block
write that is refused all end like a success. And the entry table at the front of the
package says which bytes are decrypted, whether or not they were read.
-/
namespace AmlogicV901d.Guarantees.TvConfigPackage
open Lib.ByteMemory
open Source.Simg (chunkTypeRaw chunkTypeFill chunkTypeDontCare ChunkHeader)
open Source.TvConfig
open Guarantees.SparseImage

variable {blkSz : UInt32} {c : Chunk} {image : List UInt8} {entry : Nat × Nat}

variable {i : Inputs} {o : Outcomes} {info : PartInfo} {buf disk : Memory} {w : WriteState}

/-! ## What is asked -/

/-- The recorded version is that of the package. -/
def Recorded (i : Inputs) : Prop :=
  ∃ oemId version, getOemIndex i.modelName i.hwid = some oemId ∧ i.currentVersion = some version ∧
    i.packageVersion oemId = some version

/-- A sparse image of the first revision of the format. -/
def IsSparse (f : SparseFile) (image : List UInt8) : Prop :=
  f.encode = image ∧ f.chunks.length < 2 ^ 32 ∧ ∀ c ∈ f.chunks, c.WellFormed f.blkSz

/-- The partition has the expansion of a sparse image, whatever is where the image does not
care, and any other image as it is. -/
def Holds (info : PartInfo) (image : List UInt8) (disk : Memory) : Prop :=
  (∃ f base, IsSparse f image ∧ ∀ a < expandedSize f.blkSz f.chunks,
      disk (info.start * info.blksz + a) = expand f.blkSz f.chunks 0 base a) ∨
    (¬ ∃ f, IsSparse f image) ∧ ∀ a < image.length, disk (info.start * info.blksz + a) = image.getD a 0

def Installed (r : Result) (o : Outcomes) : Prop :=
  ∃ info image disk, o.part = some info ∧ gunzip o = some image ∧ r.disk = some disk ∧ Holds info image disk

/-- Nothing but the package is decrypted, and it is erased only once it is of no use. -/
structure Safe (i : Inputs) (o : Outcomes) : Prop where
  erases : (updateTvconfig i o).oemErased = true → Recorded i ∨ Installed (updateTvconfig i o) o
  decrypts : ∀ offset n, (updateTvconfig i o).decrypted = some (offset, n) →
    ∀ a, offset ≤ a → a < offset + n → a < i.read.length

/-- The image fits the partition; if it looks like a sparse one it is one. -/
def Fits (info : PartInfo) (image : List UInt8) (behind : Memory) : Prop :=
  (∃ f, IsSparse f image ∧ f.blkSz.toNat % info.blksz = 0 ∧ expandedSize f.blkSz f.chunks ≤ info.size * info.blksz) ∨
    isSparseImage (store behind 0 image) = false ∧ (image.length + (info.blksz - 1)) / info.blksz ≤ info.size

/-- The partition is found, what was decompressed fits it, and every write is accepted. -/
def Accepted (o : Outcomes) : Prop :=
  ∃ info, o.part = some info ∧ 2 ≤ info.blkszLog ∧ info.start + info.size < 2 ^ 64 ∧
    (∀ n, o.refused n = none) ∧ (∀ n, o.allocated n = true) ∧ ∀ image, gunzip o = some image → Fits info image o.behind

/-! ## The writers -/

theorem lba_of_lt {n : Nat} (h : n < 2 ^ 64) : lba n = n := Nat.mod_eq_of_lt h

theorem blksz_pos (info : PartInfo) : 0 < info.blksz := Nat.two_pow_pos info.blkszLog

theorem blksz_mod_four (h : 2 ≤ info.blkszLog) : info.blksz % 4 = 0 := by
  obtain ⟨k, hk⟩ := Nat.exists_eq_add_of_le h
  rw [PartInfo.blksz, hk, Nat.pow_add]
  omega

theorem blockWrite_accepted (h : o.refused w.writes = none) (blkcnt : Nat) (src : Memory) (pos : Nat) :
    blockWrite o info blkcnt src pos w =
      (true, { w with disk := memcpy w.disk (w.blk * info.blksz) src pos (blkcnt * info.blksz), writes := w.writes + 1 }) := by
  rw [blockWrite, h]

/-- All writes and allocations succeed. -/
structure Ready (o : Outcomes) (info : PartInfo) : Prop where
  writes : ∀ n, o.refused n = none
  allocs : ∀ n, o.allocated n = true
  log : 2 ≤ info.blkszLog
  size : info.start + info.size < 2 ^ 64

section
variable (h : Ready o info)
include h

theorem fillBlocks_accepted (val : UInt32) (n : Nat) (w : WriteState) (hroom : w.blk + n < 2 ^ 64) :
    fillBlocks o info (fillPattern zeroed 0 info.blksz val) n w = .ok { w with
        disk := fillPattern w.disk (w.blk * info.blksz) (n * info.blksz) val
        writes := w.writes + n
        blk := w.blk + n } := by
  induction n generalizing w with
  | zero =>
    have hnone : fillPattern w.disk (w.blk * info.blksz) (0 * info.blksz) val = w.disk := by
      funext a
      rw [fillPattern_outside (by omega)]
    rw [fillBlocks, hnone]
    rfl
  | succ n ih =>
    have hlba : lba (w.blk + 1) = w.blk + 1 := lba_of_lt (by omega)
    have hrest := ih { w with
      disk := fillPattern w.disk (w.blk * info.blksz) info.blksz val, writes := w.writes + 1, blk := w.blk + 1 }
      (by dsimp only; omega)
    rw [Nat.succ_mul, fillPattern_append _ _ _ _ _ (blksz_mod_four h.log)] at hrest
    have hsize : info.blksz + n * info.blksz = (n + 1) * info.blksz := by rw [Nat.succ_mul, Nat.add_comm]
    have hwrite : w.writes + 1 + n = w.writes + (n + 1) := by omega
    have hblk : w.blk + 1 + n = w.blk + (n + 1) := by omega
    rw [hsize, hwrite, hblk] at hrest
    rw [fillBlocks, blockWrite_accepted (h.writes w.writes)]
    dsimp only
    rw [if_pos rfl, hlba, Nat.one_mul, memcpy_pattern fun i hi => by rw [fillPattern_inside (by omega) (by omega), Nat.zero_add]; rfl]
    exact hrest

/-- A chunk that is read from the buffer lands on the device. -/
structure Lands (w w' : WriteState) (blkSz : UInt32) (bs : Nat) (c : Chunk) : Prop where
  disk : w'.disk = c.expandAt blkSz (w.blk * bs) w.disk
  blk : w'.blk = w.blk + c.size blkSz / bs
  pos : w'.pos = w.pos + c.encode.length

section Lands
variable (hdvd : info.blksz ∣ c.size blkSz) (hroom : w.blk + c.size blkSz / info.blksz ≤ info.start + info.size)
include hdvd hroom

theorem writeRaw_lands {data : List UInt8}
    (hbody : c.body = .raw data) (hdata : data.length = c.size blkSz) (hload : load buf (w.pos + 12) data.length = data) :
    ∃ w', writeRaw o info buf (c.size blkSz / info.blksz) (c.size blkSz) { w with pos := w.pos + 12 } = .ok w' ∧
      Lands w w' blkSz info.blksz c := by
  have hsize := h.size
  have hlba : lba (w.blk + c.size blkSz / info.blksz) = w.blk + c.size blkSz / info.blksz := lba_of_lt (by omega)
  have hbytes : c.size blkSz / info.blksz * info.blksz = c.size blkSz := Nat.div_mul_cancel hdvd
  unfold writeRaw
  rw [blockWrite_accepted (h.writes _)]
  dsimp only
  rw [if_neg (by rw [hlba, lba_of_lt hsize]; omega), if_pos rfl, hlba, hbytes]
  refine ⟨_, rfl, ?_, rfl, ?_⟩
  · simp only [Chunk.expandAt, hbody]
    rw [memcpy_eq_store, ← hdata, hload]
  · simp only [Chunk.encode_length, Chunk.payload, hbody]
    omega

theorem writeFill_lands {val : UInt32} (hbody : c.body = .fill val) (hload : loadU32 buf (w.pos + 12) = val) :
    ∃ w', writeFill o info buf (c.size blkSz / info.blksz) { w with pos := w.pos + 12 } = .ok w' ∧
      Lands w w' blkSz info.blksz c := by
  have hsize := h.size
  have hlba : lba (w.blk + c.size blkSz / info.blksz) = w.blk + c.size blkSz / info.blksz := lba_of_lt (by omega)
  have hbytes : c.size blkSz / info.blksz * info.blksz = c.size blkSz := Nat.div_mul_cancel hdvd
  have hwords : info.blksz / 4 * 4 = info.blksz := Nat.div_mul_cancel (Nat.dvd_of_mod_eq_zero (blksz_mod_four h.log))
  unfold writeFill
  rw [if_neg (by simp [h.allocs]), if_neg (by rw [hlba, lba_of_lt hsize]; omega), hwords, hload,
    fillBlocks_accepted h _ _ _ (by dsimp only; omega), hbytes]
  refine ⟨_, rfl, ?_, rfl, ?_⟩
  · simp only [Chunk.expandAt, hbody]
  · simp [Chunk.encode_length, Chunk.payload, hbody]

end Lands

theorem writeChunk_lands (hc : c.WellFormed blkSz) (hload : load buf w.pos c.encode.length = c.encode)
    (hdvd : info.blksz ∣ blkSz.toNat) (hroom : w.blk + c.size blkSz / info.blksz ≤ info.start + info.size) :
    ∃ w', writeChunk o info buf 12 blkSz.toNat w = .ok w' ∧ Lands w w' blkSz info.blksz c := by
  have hhead : load buf w.pos 12 = c.head := by
    have hfront := load_front hload
    rwa [Chunk.head_length] at hfront
  have hpayload : load buf (w.pos + 12) c.payload.length = c.payload := by
    have hback := load_behind hload
    rwa [Chunk.head_length] at hback
  have hdvd' : info.blksz ∣ c.size blkSz := Nat.dvd_mul_left_of_dvd hdvd _
  have hdata : blkSz.toNat * c.chunkSz.toNat = c.size blkSz := Nat.mul_comm _ _
  have htotal := Chunk.totalSz_toNat hc
  unfold writeChunk
  rw [Chunk.loadAt_head hhead]
  dsimp only
  rw [hdata, htotal]
  cases hbody : c.body with
  | raw data =>
    have htype : c.typeCode = chunkTypeRaw := by rw [Chunk.typeCode, hbody]
    rw [Chunk.WellFormed, hbody] at hc
    have hlen : c.payload = data := by rw [Chunk.payload, hbody]
    rw [hlen] at hpayload ⊢
    rw [if_pos htype, if_neg (by omega)]
    exact writeRaw_lands h hdvd' hroom hbody hc.1 hpayload
  | fill val =>
    have htype : c.typeCode = chunkTypeFill := by rw [Chunk.typeCode, hbody]
    have hword : loadU32 buf (w.pos + 12) = val := by
      rw [Chunk.payload, hbody] at hpayload
      simp only [Lib.LittleEndian.leBytes_length] at hpayload
      rw [loadU32, hpayload, Lib.LittleEndian.leValue_leBytes_u32]
    have hlen : c.payload.length = 4 := by simp [Chunk.payload, hbody]
    rw [if_neg (by rw [htype]; decide), if_pos htype, if_neg (by omega)]
    exact writeFill_lands h hdvd' hroom hbody hword
  | dontCare =>
    have htype : c.typeCode = chunkTypeDontCare := by rw [Chunk.typeCode, hbody]
    rw [if_neg (by rw [htype]; decide), if_neg (by rw [htype]; decide), if_pos htype, lba_of_lt (hroom.trans_lt h.size)]
    refine ⟨_, rfl, ?_, rfl, ?_⟩
    · simp only [Chunk.expandAt, hbody]
    · simp [Chunk.encode_length, Chunk.payload, hbody]

/-- The writer expands the chunks it reads. -/
theorem writeChunks_expand (hdvd : info.blksz ∣ blkSz.toNat) (cs : List Chunk)
    (hcs : ∀ c ∈ cs, c.WellFormed blkSz) (w : WriteState)
    (hload : load buf w.pos (encodeChunks cs).length = encodeChunks cs)
    (hroom : w.blk * info.blksz + expandedSize blkSz cs ≤ (info.start + info.size) * info.blksz) :
    (writeChunks o info buf 12 blkSz.toNat cs.length w).disk = expand blkSz cs (w.blk * info.blksz) w.disk := by
  induction cs generalizing w with
  | nil => rfl
  | cons c cs ih =>
    have hpos := blksz_pos info
    have hdvd' : info.blksz ∣ c.size blkSz := Nat.dvd_mul_left_of_dvd hdvd _
    obtain ⟨k, hk⟩ := hdvd'
    have hdiv : c.size blkSz / info.blksz = k := by rw [hk, Nat.mul_div_cancel_left _ hpos]
    have hexpanded : expandedSize blkSz (c :: cs) = c.size blkSz + expandedSize blkSz cs := by
      simp [expandedSize]
    rw [hexpanded, hk, Nat.mul_comm info.blksz k, ← Nat.add_assoc, ← Nat.add_mul] at hroom
    have hblk : w.blk + k ≤ info.start + info.size := by
      apply Nat.le_of_mul_le_mul_right _ hpos
      omega
    obtain ⟨w', hstep, hlands⟩ := writeChunk_lands h (hcs c List.mem_cons_self) (load_front hload) hdvd
      (by rw [hdiv]; exact hblk)
    have hrest := ih (fun d hd => hcs d (List.mem_cons_of_mem c hd)) { w' with chunk := w'.chunk + 1 }
      (by dsimp only; rw [hlands.pos]; exact load_behind hload)
      (by dsimp only; rw [hlands.blk, hdiv]; exact hroom)
    rw [List.length_cons, writeChunks, hstep]
    rw [hrest, expand, hlands.disk, hlands.blk, hdiv, hk, Nat.add_mul, Nat.mul_comm k]

end

theorem expand_shift (blkSz : UInt32) (cs : List Chunk) (p off : Nat) (m : Memory) (a : Nat) :
    expand blkSz cs (p + off) m (p + a) = expand blkSz cs off (fun x => m (p + x)) a := by
  induction cs generalizing off m with
  | nil => rfl
  | cons c cs ih =>
    have hchunk : (fun x => c.expandAt blkSz (p + off) m (p + x)) = c.expandAt blkSz off fun x => m (p + x) := by
      funext x
      cases hbody : c.body with
      | raw data =>
        simp only [Chunk.expandAt, hbody, store, Nat.add_le_add_iff_left, Nat.add_assoc, Nat.add_lt_add_iff_left,
          Nat.add_sub_add_left]
      | fill val =>
        simp only [Chunk.expandAt, hbody, fillPattern, Nat.add_le_add_iff_left, Nat.add_assoc, Nat.add_lt_add_iff_left,
          Nat.add_sub_add_left]
      | dontCare => simp only [Chunk.expandAt, hbody]
    rw [expand, expand, Nat.add_assoc, ih, hchunk]

theorem isSparseImage_of_isSparse {f : SparseFile} (h : IsSparse f image) (behind : Memory) :
    isSparseImage (store behind 0 image) = true := by
  obtain ⟨rfl, hcount, -⟩ := h
  have hheader := load_front (load_store behind 0 f.encode)
  obtain ⟨hmagic, hmajor, -⟩ := SparseFile.header_fields hcount hheader
  simp [isSparseImage, hmagic, hmajor]

theorem sparse_holds {f : SparseFile} {behind : Memory} (h : IsSparse f image) (hready : Ready o info)
    (haligned : f.blkSz.toNat % info.blksz = 0) (hfits : expandedSize f.blkSz f.chunks ≤ info.size * info.blksz) :
    Holds info image (tvconfigWriteSparseImage o info (store behind 0 image) disk) := by
  obtain ⟨rfl, hcount, hcs⟩ := h
  have hwhole := load_store behind 0 f.encode
  have hheader := load_front hwhole
  have hchunks := load_behind hwhole
  obtain ⟨-, -, hfile, hchunk, hblk, htotal⟩ := SparseFile.header_fields hcount hheader
  have hexpand := writeChunks_expand hready (Nat.dvd_of_mod_eq_zero haligned) f.chunks hcs
    ⟨disk, 0, info.start, 28, 0⟩ hchunks (by dsimp only; rw [Nat.add_mul]; omega)
  left
  refine ⟨f, fun x => disk (info.start * info.blksz + x), ⟨rfl, hcount, hcs⟩, ?_⟩
  intro a _
  have hresult : tvconfigWriteSparseImage o info (store behind 0 f.encode) disk =
      expand f.blkSz f.chunks (info.start * info.blksz) disk := by
    rw [← hexpand]
    unfold tvconfigWriteSparseImage
    rw [hfile, hchunk, hblk, htotal]
    rw [if_neg (by omega)]
    rfl
  rw [hresult]
  exact expand_shift f.blkSz f.chunks (info.start * info.blksz) 0 disk a

theorem raw_holds {behind : Memory} (hplain : isSparseImage (store behind 0 image) = false)
    (hwrites : ∀ n, o.refused n = none) (hfits : (image.length + (info.blksz - 1)) / info.blksz ≤ info.size) :
    Holds info image (tvconfigWriteRawImage o info (store behind 0 image) image.length disk) := by
  right
  constructor
  · rintro ⟨f, hf⟩
    rw [isSparseImage_of_isSparse hf] at hplain
    exact nomatch hplain
  · intro a ha
    have hpos := blksz_pos info
    have hcover : image.length ≤ (image.length + (info.blksz - 1)) / info.blksz * info.blksz := by
      have hdiv := Nat.div_add_mod (image.length + (info.blksz - 1)) info.blksz
      have hmod := Nat.mod_lt (image.length + (info.blksz - 1)) hpos
      rw [Nat.mul_comm] at hdiv
      omega
    unfold tvconfigWriteRawImage
    rw [if_neg (by omega), blockWrite_accepted (hwrites _)]
    dsimp only
    rw [memcpy_inside (by omega) (by omega), store_inside (by omega) (by omega)]
    congr 1
    omega

/-! ## The update -/

theorem installEntry_decrypted (mayErase : Bool) (entry : Nat × Nat) (o : Outcomes) :
    (installEntry mayErase entry o).decrypted = some entry := by
  unfold installEntry
  split
  · split
    · rfl
    · split <;> rfl
  · rfl

theorem installEntry_erased {mayErase : Bool} (h : (installEntry mayErase entry o).oemErased = true) :
    mayErase = true ∧ ∃ image disk, gunzip o = some image ∧ (installEntry mayErase entry o).disk =
        some (tvconfigMmcFlashWrite o (store o.behind 0 image) image.length disk) := by
  unfold installEntry at h ⊢
  split at h
  · rename_i hgzip
    rw [if_pos hgzip]
    split at h
    · cases h
    rename_i image himage
    split at h
    · cases h
    · rename_i disk hdisk
      refine ⟨h, image, disk, himage, ?_⟩
      simp
  · cases h

theorem decrypts_iff (offset n length : Nat) (hn : 0 < n) :
    (∀ a, offset ≤ a → a < offset + n → a < length) ↔ offset + n ≤ length := by
  constructor
  · intro h
    have hlast := h (offset + n - 1) (by omega) (by omega)
    omega
  · intro h a _ ha
    omega

theorem findEntry_pos {oemId : UInt32} (h : findEntry i oemId = some entry) : 0 < entry.2 := by
  unfold findEntry at h
  dsimp only at h
  split at h
  · cases h
  rename_i hsize
  cases h
  have hnat : (searchOem (store i.ram 0 i.read) oemId tvconfigNum 0).1.toNat ≠ 0 := by
    intro hzero
    exact hsize (UInt32.toNat_inj.mp hzero)
  omega

/-- What a plan says of the versions and of the entry. -/
def Justified (i : Inputs) : Plan → Prop
  | .nothing => True
  | .latest => Recorded i
  | .install entry => ¬ Recorded i ∧ 0 < entry.2

theorem planUpdate_spec {plan : Plan} (h : planUpdate i = plan) : Justified i plan := by
  subst h
  fun_cases planUpdate i with
  | case1 | case2 | case4 | case5 => trivial
  | case3 oemId hoem _ hsame =>
    rw [sameVersion, decide_eq_true_eq] at hsame
    obtain ⟨version, hversion⟩ := Option.ne_none_iff_exists'.mp hsame.1
    exact ⟨oemId, version, hoem, hversion, hsame.2 ▸ hversion⟩
  | case6 oemId hoem _ hsame _ entry hentry =>
    refine ⟨?_, findEntry_pos hentry⟩
    rintro ⟨oemId', version, hoem', hcurrent, hpackage⟩
    obtain rfl := Option.some.inj (hoem.symm.trans hoem')
    exact hsame (decide_eq_true ⟨by simp [hcurrent], by rw [hcurrent, hpackage]⟩)

theorem safe_of_idle (h : ∀ entry, planUpdate i ≠ .install entry) : Safe i o := by
  cases hplan : planUpdate i with
  | nothing => exact ⟨by simp [updateTvconfig, hplan], by simp [updateTvconfig, hplan]⟩
  | latest => exact ⟨fun _ => .inl (planUpdate_spec hplan), by simp [updateTvconfig, hplan]⟩
  | install entry => exact absurd hplan (h entry)

theorem safe_of_install {offset n : Nat} (hplan : planUpdate i = .install (offset, n)) (hrange : offset + n ≤ i.read.length)
    (hok : (installEntry i.mayErase (offset, n) o).oemErased = true → Installed (installEntry i.mayErase (offset, n) o) o) :
    Safe i o := by
  have hupdate : updateTvconfig i o = installEntry i.mayErase (offset, n) o := by rw [updateTvconfig, hplan]
  constructor
  · intro herased
    rw [hupdate] at herased ⊢
    exact .inr (hok herased)
  · intro offset' n' hdecrypted
    rw [hupdate, installEntry_decrypted] at hdecrypted
    cases hdecrypted
    exact (decrypts_iff _ _ _ (planUpdate_spec hplan).2).mpr hrange

theorem installed_of_accepted {mayErase : Bool} (haccepted : Accepted o)
    (herased : (installEntry mayErase entry o).oemErased = true) : Installed (installEntry mayErase entry o) o := by
  obtain ⟨-, image, disk, himage, hdisk⟩ := installEntry_erased herased
  obtain ⟨info, hpart, hlog, hsize, hwrites, halloc, hfits⟩ := haccepted
  refine ⟨info, image, _, hpart, himage, hdisk, ?_⟩
  rw [tvconfigMmcFlashWrite, hpart]
  dsimp only
  rcases hfits image himage with ⟨f, hf, haligned, hroom⟩ | ⟨hplain, hroom⟩
  · rw [if_pos (isSparseImage_of_isSparse hf o.behind)]
    exact sparse_holds hf ⟨hwrites, halloc, hlog, hsize⟩ haligned hroom
  · rw [if_neg (by simp [hplain])]
    exact raw_holds hplain hwrites hroom

/-- One byte is decompressed, and the only block write is refused. -/
def refusedWrite : Outcomes where
  dtMagic := 0x8b1f
  image := some [1]
  behind := zeroed
  erased := some zeroed
  part := some ⟨9, 0, 8⟩
  refused := fun _ => some zeroed
  allocated := fun _ => true

theorem refusedWrite_not_installed (entry : Nat × Nat) :
    (installEntry true entry refusedWrite).oemErased = true ∧ ¬ Installed (installEntry true entry refusedWrite) refusedWrite := by
  have hgunzip : gunzip refusedWrite = some [1] := by decide
  have hresult : installEntry true entry refusedWrite =
      ⟨some entry, some (tvconfigMmcFlashWrite refusedWrite (store zeroed 0 [1]) 1 zeroed), true⟩ := rfl
  refine ⟨by rw [hresult], ?_⟩
  rintro ⟨info, image, disk, hpart, himage, hdisk, hholds⟩
  cases hpart
  obtain rfl := Option.some.inj (hgunzip.symm.trans himage)
  cases hdisk
  rcases hholds with ⟨f, -, ⟨hf, -⟩, -⟩ | ⟨-, hraw⟩
  · have hlength := congrArg List.length hf
    simp [SparseFile.encode] at hlength
    omega
  · have hfirst := hraw 0 (by decide)
    exact nomatch hfirst

/-- The entry of the package lies in what was read of it. -/
def InPackage (i : Inputs) : Prop := ∀ offset n, planUpdate i = .install (offset, n) → offset + n ≤ i.read.length

theorem safe_iff (i : Inputs) :
    (∀ o, Safe i o) ↔ InPackage i ∧ ∀ entry, planUpdate i = .install entry → i.mayErase = false := by
  constructor
  · intro h
    constructor
    · intro offset n hplan
      have hdecrypts := (h refusedWrite).decrypts offset n (by rw [updateTvconfig, hplan, installEntry_decrypted])
      exact (decrypts_iff _ _ _ (planUpdate_spec hplan).2).mp hdecrypts
    · intro entry hplan
      by_contra hmay
      have hmay' : i.mayErase = true := by simpa using hmay
      have hupdate : updateTvconfig i refusedWrite = installEntry true entry refusedWrite := by
        rw [updateTvconfig, hplan, hmay']
      obtain ⟨herased, hnot⟩ := refusedWrite_not_installed entry
      have herases := (h refusedWrite).erases
      rw [hupdate] at herases
      rcases herases herased with hrecorded | hinstalled
      · exact (planUpdate_spec hplan).1 hrecorded
      · exact hnot hinstalled
  · rintro ⟨hrange, hmay⟩ o
    cases hplan : planUpdate i with
    | nothing | latest => exact safe_of_idle (by simp [hplan])
    | install entry =>
      apply safe_of_install hplan (hrange _ _ hplan)
      intro herased
      exact nomatch (installEntry_erased herased).1.symm.trans (hmay _ hplan)

theorem safe_of_accepted (hrange : InPackage i) (haccepted : Accepted o) : Safe i o := by
  cases hplan : planUpdate i with
  | nothing | latest => exact safe_of_idle (by simp [hplan])
  | install entry => exact safe_of_install hplan (hrange _ _ hplan) (installed_of_accepted haccepted)

/-- Whatever happens the package is kept exactly if nothing is installed from it where it may be
erased, and its entry was read. Where it may be erased all goes well if the writes do. -/
theorem package_kept_iff (i : Inputs) :
    ((∀ o, Safe i o) ↔ InPackage i ∧ ∀ entry, planUpdate i = .install entry → i.mayErase = false) ∧
      ∀ o, InPackage i → Accepted o → Safe i o :=
  ⟨safe_iff i, fun _ hrange haccepted => safe_of_accepted hrange haccepted⟩

/-! ## A package that is lost -/

/-- Model 1100_AMAZON with no recorded version, and a package with one entry of 16 bytes
behind its table of two. -/
def freshInputs (read : List UInt8) : Inputs where
  mayErase := true
  modelName := ['X', '_', 'A', 'M', 'A', 'Z', 'O', 'N']
  hwid := ['1', '1', '0', '0']
  currentVersion := none
  packageVersion := fun _ => some ['2']
  packageExists := true
  read := read
  ram := zeroed

def entryTable : List UInt8 := [1, 0, 0, 0, 32, 0, 0, 0, 16, 0, 0, 0, 0, 0, 0, 0]

def wholePackage : Inputs := freshInputs (entryTable ++ List.replicate 32 0)

theorem wholePackage_plan : planUpdate wholePackage = .install (32, 16) := by decide

/-- The same image, and the write is accepted. -/
def acceptedWrite : Outcomes := { refusedWrite with refused := fun _ => none }

theorem acceptedWrite_accepted : Accepted acceptedWrite := by
  refine ⟨⟨9, 0, 8⟩, rfl, by decide, by decide, fun _ => rfl, fun _ => rfl, ?_⟩
  intro image himage
  have hgunzip : gunzip acceptedWrite = some [1] := by decide
  obtain rfl := Option.some.inj (hgunzip.symm.trans himage)
  exact .inr ⟨by decide, by decide⟩

theorem package_kept_accepted :
    (updateTvconfig wholePackage acceptedWrite).oemErased = true ∧ Safe wholePackage acceptedWrite := by
  refine ⟨by decide, (package_kept_iff wholePackage).2 acceptedWrite ?_ acceptedWrite_accepted⟩
  intro offset n hplan
  obtain ⟨rfl, rfl⟩ := Prod.mk.inj (Plan.install.inj hplan)
  decide

/-- The write of the image is refused and the package erased; and where the package was read only
as far as its table, what is decrypted was not read. -/
theorem package_lost :
    ((updateTvconfig wholePackage refusedWrite).oemErased = true ∧ ¬ Safe wholePackage refusedWrite) ∧
      (updateTvconfig (freshInputs entryTable) refusedWrite).decrypted = some (32, 16) ∧
      (freshInputs entryTable).read.length = 16 := by
  obtain ⟨herased, hnot⟩ := refusedWrite_not_installed (32, 16)
  have hupdate : updateTvconfig wholePackage refusedWrite = installEntry true (32, 16) refusedWrite := by
    rfl
  refine ⟨⟨by rw [hupdate]; exact herased, ?_⟩, by decide, rfl⟩
  intro hsafe
  have herases := hsafe.erases
  rcases herases herased with hrecorded | hinstalled
  · exact (planUpdate_spec wholePackage_plan).1 hrecorded
  · exact hnot hinstalled

end AmlogicV901d.Guarantees.TvConfigPackage
