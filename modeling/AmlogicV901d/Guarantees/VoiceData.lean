import Mathlib.Data.Int.ModEq
import Mathlib.Data.List.Nodup
import AmlogicV901d.Source.Vad

/-!
# The voice data that is handed to user space

The length is cut to the buffer and not to the ring in it, which is eight bytes shorter.
-/
namespace AmlogicV901d.Guarantees.VoiceData
open Source.Vad List

/-- The address of the next write is in the ring. -/
structure InRing (p : Vad) : Prop where
  room : 8 < p.dmaBytes
  size : p.dmaBytes < 0x80000000
  int : -0x80000000 ≤ p.dmaAddr
  start : p.dmaAddr ≤ p.addr
  within : p.addr ≤ p.endAddr

/-- The offsets right before a position of a ring. -/
def lastBytes (ring pos : Int) (n : Nat) : List Int := (List.range n).map fun i : Nat => (pos - n + i) % ring

/-- The bytes right before the next write, each of them once and all of them in the ring. -/
structure Recent (p : Vad) (t : Transfer) : Prop where
  inRing : ∀ o ∈ t.read, 0 ≤ o ∧ o < p.dmaBytes - 8
  before : t.read = lastBytes (p.dmaBytes - 8) (p.addr - p.dmaAddr) t.read.length
  once : t.read.Nodup
  frames : t.ret = some ((t.read.length : Int).tdiv p.frameBytes)

section Ring
variable {ring pos bytes : Int} {n : Nat}

theorem lastBytes_nodup (h : (n : Int) ≤ ring) : (lastBytes ring pos n).Nodup := by
  refine Nodup.map_on (fun i hi j hj heq => ?_) nodup_range
  have hmod := Int.ModEq.add_left_cancel' _ heq
  rw [Int.ModEq, Int.emod_eq_of_lt, Int.emod_eq_of_lt] at hmod <;> have := mem_range.mp hi <;> have := mem_range.mp hj <;> omega

/-- What the copies of a number of bytes read. -/
def copied (ring pos bytes : Int) : List Int :=
  if pos ≥ bytes then offsets (pos - bytes) bytes else offsets (ring - (bytes - pos)) (bytes - pos) ++ offsets 0 pos

theorem copied_length (hpos : 0 ≤ pos) : (copied ring pos bytes).length = bytes.toNat := by
  unfold copied
  split <;> simp only [offsets, length_append, length_map, length_range]
  omega

theorem copied_eq (hpos : 0 ≤ pos) (hin : pos ≤ ring) (hn : (n : Int) ≤ ring) : copied ring pos n = lastBytes ring pos n := by
  unfold copied lastBytes
  split
  · refine map_congr_left fun i hi => ?_
    have := mem_range.mp hi
    rw [Int.emod_eq_of_lt (by omega) (by omega)]
  · have hlen : n = ((n : Int) - pos).toNat + pos.toNat := by omega
    rw [hlen, range_add, map_append, map_map, ← hlen]
    refine congrArg₂ _ (map_congr_left fun i hi => ?_) (map_congr_left fun i hi => ?_)
    · have := mem_range.mp hi
      rw [← Int.add_emod_right, Int.emod_eq_of_lt (by omega) (by omega)]
      omega
    · have := mem_range.mp hi
      dsimp only [Function.comp]
      rw [Int.emod_eq_of_lt (by omega) (by omega)]
      omega

end Ring

variable {p : Vad} (h : InRing p) {frames : Int}
include h

theorem endAddr_eq : p.endAddr = p.dmaAddr + p.dmaBytes - 8 := by
  obtain ⟨hroom, hsize, hint, hstart, hwithin⟩ := h
  unfold Vad.endAddr Source.Vad.int at *
  rw [Int.bmod_def] at *
  split at hwithin <;> omega

theorem transfer_eq {bytes : Int} (hbytes : (if p.wanted frames < p.dmaBytes then p.wanted frames else p.dmaBytes) = bytes) :
    vadTransferChunkData p frames = if bytes < 0 then ⟨[], some 0⟩ else
      ⟨copied (p.dmaBytes - 8) (p.addr - p.dmaAddr) bytes, if p.frameBytes = 0 then none else some (bytes.tdiv p.frameBytes)⟩ := by
  have hend := endAddr_eq h
  obtain ⟨hroom, -, -, hstart, hwithin⟩ := h
  unfold vadTransferChunkData copied
  rw [if_neg (by omega)]
  dsimp only
  rw [hbytes]
  by_cases hge : p.addr - p.dmaAddr ≥ bytes
  · rw [if_pos hge, if_pos hge, sub_right_comm]
  · rw [if_neg hge, if_neg hge, if_neg (by omega : ¬ bytes < 0), hend]
    congr 3
    omega

/-- More bytes than the ring has are not all different. -/
theorem length_le {t : Transfer} (ht : Recent p t) : (t.read.length : Int) ≤ p.dmaBytes - 8 := by
  by_contra hlong
  have hroom := h.room
  have hring : ((p.dmaBytes - 8).toNat : Int) = p.dmaBytes - 8 := Int.toNat_of_nonneg (by omega)
  have hzero := inj_on_of_nodup_map (ht.before ▸ ht.once) (mem_range.mpr (by omega : 0 < t.read.length))
    (mem_range.mpr (by omega : (p.dmaBytes - 8).toNat < t.read.length)) (by rw [hring, Int.add_emod_right]; simp)
  omega

theorem voice_data_recent_iff : Recent p (vadTransferChunkData p frames) ↔
    p.wanted frames < 0 ∨ p.wanted frames ≤ p.dmaBytes - 8 ∧ p.frameBytes ≠ 0 := by
  have hend := endAddr_eq h
  obtain ⟨hroom, -, -, hstart, hwithin⟩ := id h
  obtain ⟨bytes, hbytes⟩ : ∃ bytes, (if p.wanted frames < p.dmaBytes then p.wanted frames else p.dmaBytes) = bytes := ⟨_, rfl⟩
  rw [transfer_eq h hbytes]
  by_cases hneg : p.wanted frames < 0
  · rw [if_pos (by omega : p.wanted frames < p.dmaBytes)] at hbytes
    rw [if_pos (hbytes ▸ hneg)]
    exact iff_of_true ⟨nofun, rfl, nodup_nil, by simp⟩ (.inl hneg)
  obtain ⟨n, rfl⟩ := Int.eq_ofNat_of_zero_le (by split at hbytes <;> omega : 0 ≤ bytes)
  have hlen : (copied (p.dmaBytes - 8) (p.addr - p.dmaAddr) n).length = n := copied_length (by omega)
  rw [or_iff_right hneg, if_neg (by omega)]
  constructor
  · intro hrecent
    have hle := length_le h hrecent
    rw [hlen] at hle
    refine ⟨by split at hbytes <;> omega, fun hzero => ?_⟩
    have hret := hrecent.frames
    rw [if_pos hzero] at hret
    cases hret
  · rintro ⟨hle, hframe⟩
    rw [if_pos (by omega)] at hbytes
    have heq := copied_eq (by omega : 0 ≤ p.addr - p.dmaAddr) (by omega) (hbytes ▸ hle)
    refine ⟨fun o ho => ?_, hlen.symm ▸ heq, heq ▸ lastBytes_nodup (hbytes ▸ hle), by rw [if_neg hframe, hlen]⟩
    obtain ⟨i, -, rfl⟩ := mem_map.mp (heq ▸ ho)
    exact ⟨Int.emod_nonneg _ (by omega), Int.emod_lt_of_pos _ (by omega)⟩

omit h

/-- A ring of eight bytes and one channel of 16 bits. -/
def sample : Vad := ⟨16, 0, 4, 1, 16⟩

theorem three_frames_recent : Recent sample (vadTransferChunkData sample 3) :=
  (voice_data_recent_iff ⟨by decide, by decide, by decide, by decide, by decide⟩).mpr (.inr ⟨by decide, by decide⟩)

-- the first copy starts four bytes before the buffer
theorem eight_frames_not_recent : ¬ Recent sample (vadTransferChunkData sample 8) := fun hrecent =>
  absurd (hrecent.inRing (-4) (by decide)).1 (by decide)

end AmlogicV901d.Guarantees.VoiceData
