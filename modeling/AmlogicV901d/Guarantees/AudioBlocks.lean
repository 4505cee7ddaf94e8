import AmlogicV901d.Source.HdmiRx.AudioBlock

/-!
# Composed audio data blocks

The descriptors of the first block are replaced by those of the second, and what is left of the
second comes behind them. If that is more than ten descriptors, none of the rest is copied, and
the length of all of it does not fit the five bits of the header.
-/
namespace AmlogicV901d.Guarantees.AudioBlocks
open Source.HdmiRx List

variable {audDb addBuf : AudioDb} {tmpBuf : List Sad}

/-- An audio data block of distinct formats. -/
structure WellFormed (db : AudioDb) : Prop where
  tag : db.tag = 1
  length : db.blkLength = 3 * db.sads.length
  fits : db.sads.length ≤ 10
  formats : (db.sads.map Sad.format).Nodup

/-- The descriptor of the same format in the second block, if there is one. -/
def replacement (addBuf : List Sad) (sad : Sad) : Sad := (addBuf.find? fun tmp => tmp.format = sad.format).getD sad

def composition (aud add : List Sad) : List Sad :=
  aud.map (replacement add) ++ add.filter fun tmp => tmp.format ∉ aud.map Sad.format

/-- The composed block has as many descriptors of the composition as fit. -/
def Composed (audDb addBuf : AudioDb) : Prop :=
  (composeAudioDb audDb addBuf).tag = 1 ∧
    (composeAudioDb audDb addBuf).blkLength = 3 * (composeAudioDb audDb addBuf).sads.length ∧
    (composeAudioDb audDb addBuf).blkLength ≤ 30 ∧
    (composeAudioDb audDb addBuf).sads = (composition audDb.sads addBuf.sads).take 10

theorem eraseP_eq_filter (h : (tmpBuf.map Sad.format).Nodup) (format : UInt8) :
    tmpBuf.eraseP (fun tmp => tmp.format = format) = tmpBuf.filter fun tmp => tmp.format ≠ format := by
  induction tmpBuf with
  | nil => rfl
  | cons tmp others ih =>
    obtain ⟨hnotin, hothers⟩ := nodup_cons.mp h
    by_cases heq : tmp.format = format
    · have hself : others.filter (fun x => x.format ≠ format) = others := by
        apply filter_eq_self.mpr
        intro x hx
        simp only [ne_eq, decide_not, Bool.not_eq_eq_eq_not, Bool.not_true, decide_eq_false_iff_not]
        rintro rfl
        exact hnotin (heq ▸ mem_map_of_mem hx)
      simpa [heq] using hself.symm
    · simpa [heq] using ih hothers

theorem composeSad_eq (h : (tmpBuf.map Sad.format).Nodup) (comAud : List Sad) (sad : Sad) :
    composeSad ⟨comAud, tmpBuf⟩ sad =
      ⟨comAud ++ [replacement tmpBuf sad], tmpBuf.filter fun tmp => tmp.format ≠ sad.format⟩ := by
  unfold composeSad replacement
  cases hfind : tmpBuf.find? fun tmp => tmp.format = sad.format with
  | some tmp => simp [eraseP_eq_filter h]
  | none =>
    have hself : tmpBuf.filter (fun tmp => tmp.format ≠ sad.format) = tmpBuf :=
      filter_eq_self.mpr (by simpa using hfind)
    rw [hself]
    rfl

/-- The loop over the descriptors of the first block. -/
theorem foldl_composeSad (aud comAud : List Sad) (haud : (aud.map Sad.format).Nodup) (h : (tmpBuf.map Sad.format).Nodup) :
    aud.foldl composeSad ⟨comAud, tmpBuf⟩ =
      ⟨comAud ++ aud.map (replacement tmpBuf), tmpBuf.filter fun tmp => tmp.format ∉ aud.map Sad.format⟩ := by
  induction aud generalizing comAud tmpBuf with
  | nil => simp
  | cons sad aud ih =>
    obtain ⟨hnotin, haud⟩ := nodup_cons.mp haud
    have hleft : ((tmpBuf.filter fun tmp => tmp.format ≠ sad.format).map Sad.format).Nodup :=
      (filter_sublist.map _).nodup h
    -- what was taken has another format than what comes
    have hsame : aud.map (replacement (tmpBuf.filter fun tmp => tmp.format ≠ sad.format)) = aud.map (replacement tmpBuf) := by
      apply map_congr_left
      intro other hother
      have hne : other.format ≠ sad.format := fun heq => hnotin (heq ▸ mem_map_of_mem hother)
      unfold replacement
      rw [find?_filter]
      congr 2
      funext tmp
      by_cases heq : tmp.format = other.format
      · simp [heq, hne]
      · simp [heq]
    rw [foldl_cons, composeSad_eq h, ih _ haud hleft, hsame, filter_filter]
    simp [Bool.and_comm]

/-- The header of `n` descriptors, of two blocks of ten at most. -/
theorem header_length (n : Nat) (h : n ≤ 20) : ((1 : UInt8) <<< 5 ||| UInt8.ofNat (3 * n)) >>> 5 = 1 ∧
    (((1 : UInt8) <<< 5 ||| UInt8.ofNat (3 * n)) &&& 0x1f).toNat = 3 * n % 32 := by
  revert n
  decide

theorem composeAudioDb_eq (haud : WellFormed audDb) (hadd : WellFormed addBuf) : composeAudioDb audDb addBuf =
      ⟨(1 : UInt8) <<< 5 ||| UInt8.ofNat (3 * (composition audDb.sads addBuf.sads).length),
        if audDb.sads.length < 10 ∧ (composition audDb.sads addBuf.sads).length ≤ 10
        then composition audDb.sads addBuf.sads else audDb.sads.map (replacement addBuf.sads)⟩ := by
  unfold composeAudioDb
  rw [take_of_length_le haud.fits, foldl_composeSad _ _ haud.formats hadd.formats]
  simp only [nil_append, length_map, composition, length_append]
  congr 1
  · congr 2
    omega
  · apply if_congr _ rfl rfl
    omega

/-- A block is composed exactly if the two have ten formats at most. -/
theorem composed_iff (haud : WellFormed audDb) (hadd : WellFormed addBuf) :
    Composed audDb addBuf ↔ (composition audDb.sads addBuf.sads).length ≤ 10 := by
  have hlength : (composition audDb.sads addBuf.sads).length = audDb.sads.length +
      (addBuf.sads.filter fun tmp => tmp.format ∉ audDb.sads.map Sad.format).length := by simp [composition]
  have hrest := addBuf.sads.length_filter_le fun tmp => decide (tmp.format ∉ audDb.sads.map Sad.format)
  have hfits := haud.fits
  have hfits' := hadd.fits
  obtain ⟨htag, hheader⟩ := header_length (composition audDb.sads addBuf.sads).length (by omega)
  unfold Composed AudioDb.tag AudioDb.blkLength
  rw [composeAudioDb_eq haud hadd]
  dsimp only
  rw [htag, hheader]
  constructor
  · rintro ⟨-, hblk, -, hsads⟩
    by_contra hmore
    omega
  · intro hten
    have hsads : (if audDb.sads.length < 10 ∧ (composition audDb.sads addBuf.sads).length ≤ 10
        then composition audDb.sads addBuf.sads else audDb.sads.map (replacement addBuf.sads)) =
        composition audDb.sads addBuf.sads := by
      split
      · rfl
      · have hnone : (addBuf.sads.filter fun tmp => tmp.format ∉ audDb.sads.map Sad.format) = [] :=
          length_eq_zero_iff.mp (by omega)
        simp only [composition, hnone, append_nil]
    rw [hsads]
    exact ⟨rfl, by omega, by omega, (take_of_length_le hten).symm⟩

/-- Two formats, of which the second block has one and another. -/
theorem composed_two :
    WellFormed ⟨0x26, [⟨0x09, 7, 7⟩, ⟨0x15, 7, 80⟩]⟩ ∧ Composed ⟨0x26, [⟨0x09, 7, 7⟩, ⟨0x15, 7, 80⟩]⟩ ⟨0x26, [⟨0x15, 7, 40⟩, ⟨0x57, 6, 3⟩]⟩ := by
  have haud : WellFormed ⟨0x26, [⟨0x09, 7, 7⟩, ⟨0x15, 7, 80⟩]⟩ := by constructor <;> decide
  have hadd : WellFormed ⟨0x26, [⟨0x15, 7, 40⟩, ⟨0x57, 6, 3⟩]⟩ := by constructor <;> decide
  exact ⟨haud, (composed_iff haud hadd).mpr (by decide)⟩

/-- A block of the formats 1 to 10. -/
def tenFormats : AudioDb := ⟨0x3e, (List.range 10).map fun i => ⟨UInt8.ofNat (8 * (i + 1)), 7, 7⟩⟩

/-- With an eleventh format the length of the block becomes 1. -/
theorem composed_eleven :
    WellFormed tenFormats ∧ WellFormed ⟨0x23, [⟨0x58, 7, 7⟩]⟩ ∧ (composeAudioDb tenFormats ⟨0x23, [⟨0x58, 7, 7⟩]⟩).blkLength = 1 ∧
      ¬ Composed tenFormats ⟨0x23, [⟨0x58, 7, 7⟩]⟩ := by
  refine ⟨by constructor <;> decide, by constructor <;> decide, by decide, ?_⟩
  unfold Composed
  decide

end AmlogicV901d.Guarantees.AudioBlocks
