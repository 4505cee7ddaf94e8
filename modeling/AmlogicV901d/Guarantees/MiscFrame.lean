import AmlogicV901d.Source.BootControl.Commands

/-!
# A/B commands and the rest of the misc partition

Every command writes back the 2080 bytes it has read, with the block replaced. The status of
the read is not looked at: what a failed read leaves in the buffer is written over the boot
message in front of the block, and a buffer without a valid block makes the command reset the
one in the partition.
-/
namespace AmlogicV901d.Guarantees.MiscFrame
open Lib.ByteMemory Source.BootControl

variable {io : StoreIo} {misc buf : Memory} {t : Session} {info : AvbABData}

/-! ## Commands -/

inductive Command where
  | resetAbMetadata
  | decrementRetryCount
  | markSlotSuccessful
  | setActiveSlot
  | getValidSlot
  deriving DecidableEq

def Command.exec (cfg : BootConfig) (io : StoreIo) (argv : List String) (s : BootState) : Command → BootState
  | .resetAbMetadata => (doResetAbMetadata io argv s).2
  | .decrementRetryCount => (doDecrementRetryCount io argv s).2
  | .markSlotSuccessful => (doMarkSlotSuccessful io argv s).2
  | .setActiveSlot => (doSetActiveSlot cfg io argv s).2
  | .getValidSlot => (doGetValidSlot cfg io argv s).2

/-- The command gets as far as reading the partition. -/
def Command.Opens (cfg : BootConfig) (argv : List String) : Command → Prop
  | .resetAbMetadata | .decrementRetryCount | .getValidSlot => argv.length = 1
  | .markSlotSuccessful => argv.length = 2
  | .setActiveSlot => argv.length = 2 ∧ cfg.hasBootSlot ≠ 0

/-- The block as it is read. -/
def loaded (io : StoreIo) (misc : Memory) : AvbABData := bootInfoLoad (bootInfoOpenPartition io misc).2

/-- What the command makes of a valid block and saves, if it does. -/
def Command.update (argv : List String) (info : AvbABData) : Command → Option AvbABData
  | .resetAbMetadata => some bootInfoReset
  | .decrementRetryCount => some (decrementRetry info)
  | .markSlotSuccessful => (slotArgument argv).map (bootInfoMarkSlotSuccessful info)
  | .setActiveSlot => (slotArgument argv).map (bootInfoSetActiveSlot info)
  | .getValidSlot => if (normalizeSlots info).1 then some (normalizeSlots info).2 else none

/-- With this block read, the command saves one. -/
def Command.Saves (argv : List String) (info : AvbABData) (c : Command) : Prop :=
  bootInfoValidate info = false ∨ c.update argv info ≠ none

/-! ## The property -/

/-- No byte outside of the block changes. -/
def Framed (misc misc' : Memory) : Prop := ∀ i, i < 2048 ∨ 2080 ≤ i → misc' i = misc i

/-- The start of a command, which resets an invalid block, leaves a valid one as it is. -/
def KeepsValid (io : StoreIo) (misc : Memory) : Prop :=
  bootInfoValidate (storedInfo misc) = true → storedInfo (openValidated io misc).misc = storedInfo misc

/-! ## Saving -/

theorem save_misc (hwrite : io.write = true) {i : Nat} :
    (i < 2048 → (t.save io info).misc i = t.miscbuf i) ∧ (2080 ≤ i → (t.save io info).misc i = t.misc i) := by
  constructor
  · intro hi
    simp only [Session.save, bootInfoSave, hwrite, if_true]
    rw [memcpy_start (by rw [miscbufSize]; omega), store_outside]
    exact .inl hi
  · intro hi
    simp only [Session.save, bootInfoSave, hwrite, if_true]
    exact memcpy_outside (.inr (by rw [miscbufSize]; omega))

theorem save_miscbuf {i : Nat} (hi : i < 2048) : (t.save io info).miscbuf i = t.miscbuf i := by
  exact store_outside (.inl hi)

theorem save_misc_of_failed (hwrite : io.write = false) : (t.save io info).misc = t.misc := by
  simp [Session.save, bootInfoSave, hwrite]

/-- The partition is the buffer in front of the block and otherwise as before. -/
def Written (misc buf misc' : Memory) : Prop := (∀ i < 2048, misc' i = buf i) ∧ ∀ i, 2080 ≤ i → misc' i = misc i

/-- What holds of a session that has saved nothing or something. -/
structure From (misc buf : Memory) (t : Session) : Prop where
  miscbuf : ∀ i < 2048, t.miscbuf i = buf i
  above : ∀ i, 2080 ≤ i → t.misc i = misc i

theorem From.save (h : From misc buf t) : From misc buf (t.save io info) := by
  constructor
  · intro i hi
    rw [save_miscbuf hi]
    exact h.miscbuf i hi
  · intro i hi
    cases hwrite : io.write with
    | true => exact ((save_misc hwrite).2 hi).trans (h.above i hi)
    | false =>
      rw [save_misc_of_failed hwrite]
      exact h.above i hi

theorem From.written (h : From misc buf t) (hwrite : io.write = true) : Written misc buf (t.save io info).misc := by
  constructor
  · intro i hi
    exact ((save_misc hwrite).1 hi).trans (h.miscbuf i hi)
  · intro i hi
    exact h.save.above i hi

/-! ## The partition after a command -/

/-- The buffer after `boot_info_open_partition`. -/
def opened (io : StoreIo) (misc : Memory) : Memory := (bootInfoOpenPartition io misc).2

theorem openValidated_eq : openValidated io misc = if bootInfoValidate (loaded io misc) then
      ⟨loaded io misc, opened io misc, misc⟩ else Session.save io ⟨loaded io misc, opened io misc, misc⟩ bootInfoReset := rfl

theorem from_opened : From misc (opened io misc) ⟨info, opened io misc, misc⟩ := ⟨fun _ _ => rfl, fun _ _ => rfl⟩

theorem openValidated_from : From misc (opened io misc) (openValidated io misc) := by
  rw [openValidated_eq]
  split
  · exact from_opened
  · exact from_opened.save

theorem openValidated_misc_of_failed (hwrite : io.write = false) : (openValidated io misc).misc = misc := by
  rw [openValidated_eq]
  split
  · rfl
  · exact save_misc_of_failed hwrite

theorem openValidated_written (hinvalid : bootInfoValidate (loaded io misc) = false) (hwrite : io.write = true) :
    Written misc (opened io misc) (openValidated io misc).misc := by
  rw [openValidated_eq, hinvalid]
  exact from_opened.written hwrite

/-! ## A command as a start and a save -/

/-- Only `reset_ab_metadata` does not look at the block it has read. -/
def Command.start (io : StoreIo) (misc : Memory) : Command → Session
  | .resetAbMetadata => ⟨loaded io misc, opened io misc, misc⟩
  | _ => openValidated io misc

def finish (io : StoreIo) (t : Session) : Option AvbABData → Session
  | none => t
  | some info => t.save io info

theorem normalize_eq :
    t.normalize io = finish io t (if (normalizeSlots t.info).1 then some (normalizeSlots t.info).2 else none) := by
  unfold Session.normalize
  obtain ⟨changed, info⟩ := normalizeSlots t.info
  cases changed <;> rfl

variable {cfg : BootConfig} {argv : List String} {s : BootState} {c : Command}

theorem exec_of_closed (hclosed : ¬ c.Opens cfg argv) : (c.exec cfg io argv s).misc = s.misc := by
  cases c with
  | setActiveSlot =>
    simp only [Command.exec, doSetActiveSlot]
    split
    · rfl
    have hslot : cfg.hasBootSlot = 0 := by
      by_contra hslot
      exact hclosed ⟨by omega, hslot⟩
    rw [if_pos hslot]
  | _ =>
    rw [Command.Opens] at hclosed
    simp only [Command.exec, doResetAbMetadata, doDecrementRetryCount, doMarkSlotSuccessful, doGetValidSlot, ne_eq,
      hclosed, not_false_eq_true, if_true]

theorem exec_of_opens (hopens : c.Opens cfg argv) :
    (c.exec cfg io argv s).misc = (finish io (c.start io s.misc) (c.update argv (c.start io s.misc).info)).misc := by
  cases c with
  | resetAbMetadata =>
    have hargc : argv.length = 1 := hopens
    rw [Command.exec, doResetAbMetadata, if_neg (not_not_intro hargc)]
    rfl
  | decrementRetryCount =>
    have hargc : argv.length = 1 := hopens
    rw [Command.exec, doDecrementRetryCount, if_neg (not_not_intro hargc)]
    rfl
  | markSlotSuccessful =>
    have hargc : argv.length = 2 := hopens
    rw [Command.exec, doMarkSlotSuccessful, if_neg (not_not_intro hargc)]
    simp only [Command.update, Command.start]
    cases slotArgument argv <;> rfl
  | setActiveSlot =>
    rw [Command.exec, doSetActiveSlot, if_neg (not_not_intro hopens.1), if_neg hopens.2]
    simp only [Command.update, Command.start]
    cases slotArgument argv <;> rfl
  | getValidSlot =>
    rw [Command.exec, doGetValidSlot_misc cfg io argv hopens, normalize_eq]
    rfl

theorem start_from : From misc (opened io misc) (c.start io misc) := by
  cases c with
  | resetAbMetadata => exact from_opened
  | _ => exact openValidated_from

theorem start_of_valid (hvalid : bootInfoValidate (loaded io misc) = true) :
    c.start io misc = ⟨loaded io misc, opened io misc, misc⟩ := by
  cases c with
  | resetAbMetadata => rfl
  | _ => exact if_pos hvalid

theorem start_misc_of_failed (hwrite : io.write = false) : (c.start io misc).misc = misc := by
  cases c with
  | resetAbMetadata => rfl
  | _ => exact openValidated_misc_of_failed hwrite

theorem finish_misc_of_failed (hwrite : io.write = false) (o : Option AvbABData) : (finish io t o).misc = t.misc := by
  cases o with
  | none => rfl
  | some info => exact save_misc_of_failed hwrite

theorem exec_of_idle (hidle : ¬ (c.Saves argv (loaded io s.misc) ∧ io.write = true)) (hopens : c.Opens cfg argv) :
    (c.exec cfg io argv s).misc = s.misc := by
  rw [exec_of_opens hopens]
  cases hwrite : io.write with
  | false => rw [finish_misc_of_failed hwrite, start_misc_of_failed hwrite]
  | true =>
    have hsaves : ¬ c.Saves argv (loaded io s.misc) := fun h => hidle ⟨h, hwrite⟩
    obtain ⟨hvalid, hupdate⟩ := not_or.mp hsaves
    rw [start_of_valid (by simpa using hvalid)]
    rw [not_not.mp hupdate]
    rfl

theorem exec_of_saves (hopens : c.Opens cfg argv) (hsaves : c.Saves argv (loaded io s.misc)) (hwrite : io.write = true) :
    Written s.misc (opened io s.misc) (c.exec cfg io argv s).misc := by
  rw [exec_of_opens hopens]
  cases hupdate : c.update argv (c.start io s.misc).info with
  | some info => exact start_from.written hwrite
  | none =>
    have hinvalid : bootInfoValidate (loaded io s.misc) = false := by
      rcases hsaves with hinvalid | hsome
      · exact hinvalid
      · by_contra hvalid
        rw [start_of_valid (by simpa using hvalid)] at hupdate
        exact hsome hupdate
    cases c with
    | resetAbMetadata => cases hupdate
    | _ => exact openValidated_written hinvalid hwrite

/-! ## The condition -/

theorem opened_failed {left : Memory} (hread : io.read = .failed left) {i : Nat} (hi : i < 2080) : opened io misc i = left i := by
  simp only [opened, bootInfoOpenPartition, hread]
  exact memcpy_start hi

theorem opened_ok (hread : io.read = .ok) {i : Nat} (hi : i < 2080) : opened io misc i = misc i := by
  simp only [opened, bootInfoOpenPartition, hread]
  exact memcpy_start hi

theorem loaded_ok (hread : io.read = .ok) : loaded io misc = storedInfo misc :=
  decodeAt_congr fun _ hi => opened_ok hread (by rw [abMetadataMiscPartitionOffset]; omega)

theorem loaded_failed {left : Memory} (hread : io.read = .failed left) : loaded io misc = storedInfo left :=
  decodeAt_congr fun _ hi => opened_failed hread (by rw [abMetadataMiscPartitionOffset]; omega)

theorem framed_of_written {misc' : Memory} (hwritten : Written misc buf misc') : Framed misc misc' ↔ ∀ i < 2048, buf i = misc i := by
  constructor
  · intro hframed i hi
    rw [← hwritten.1 i hi]
    exact hframed i (.inl hi)
  · rintro hbuf i (hi | hi)
    · rw [hwritten.1 i hi, hbuf i hi]
    · exact hwritten.2 i hi

theorem keepsValid_iff : KeepsValid io misc ↔ (bootInfoValidate (storedInfo misc) = true → io.write = true →
        bootInfoValidate (loaded io misc) = true ∨ storedInfo misc = bootInfoReset.seal) := by
  refine forall_congr' fun _ => ?_
  cases hwrite : io.write with
  | false => simp [openValidated_misc_of_failed hwrite]
  | true =>
    cases hvalid : bootInfoValidate (loaded io misc) with
    | true => simp [openValidated_eq, hvalid]
    | false =>
      have hsave : ∀ t : Session, t.save io bootInfoReset = t.save storeWorks bootInfoReset := by
        intro t
        simp [Session.save, bootInfoSave, hwrite, storeWorks]
      rw [openValidated_eq, hvalid, hsave, if_neg Bool.false_ne_true, storedInfo_save]
      simp [eq_comm]

/-- A failed read is harmless if nothing is written after it, or if it left in the buffer the bytes in front of the block, and
a valid block where the partition has one (or that one is as after a reset). -/
def Harmless (cfg : BootConfig) (io : StoreIo) (argv : List String) (misc : Memory) (c : Command) : Prop :=
  ∀ left, io.read = .failed left → io.write = true → c.Opens cfg argv →
    (c.Saves argv (storedInfo left) → ∀ i < 2048, left i = misc i) ∧
      (c ≠ .resetAbMetadata → bootInfoValidate (storedInfo misc) = true →
        bootInfoValidate (storedInfo left) = true ∨ storedInfo misc = bootInfoReset.seal)

theorem exec_framed_iff : Framed s.misc (c.exec cfg io argv s).misc ↔ (io.write = true → c.Opens cfg argv →
      c.Saves argv (loaded io s.misc) → ∀ i < 2048, opened io s.misc i = s.misc i) := by
  by_cases hopens : c.Opens cfg argv
  · by_cases hsaves : c.Saves argv (loaded io s.misc) ∧ io.write = true
    · rw [framed_of_written (exec_of_saves hopens hsaves.1 hsaves.2)]
      exact ⟨fun h _ _ _ => h, fun h => h hsaves.2 hopens hsaves.1⟩
    · rw [exec_of_idle hsaves hopens]
      exact ⟨fun _ hwrite _ hs => absurd ⟨hs, hwrite⟩ hsaves, fun _ _ _ => rfl⟩
  · rw [exec_of_closed hopens]
    exact ⟨fun _ _ h => absurd h hopens, fun _ _ _ => rfl⟩

theorem opened_failed_iff {left : Memory} (hread : io.read = .failed left) :
    (∀ i < 2048, opened io misc i = misc i) ↔ ∀ i < 2048, left i = misc i := by
  refine forall_congr' fun i => forall_congr' fun hi => ?_
  rw [opened_failed hread (by omega)]

/-- A command leaves all of misc but the block alone, and a valid block to its own update, exactly if a failed read is
harmless. -/
theorem misc_kept_iff (cfg : BootConfig) (io : StoreIo) (argv : List String) (s : BootState) (c : Command) :
    (Framed s.misc (c.exec cfg io argv s).misc ∧ (c ≠ .resetAbMetadata → c.Opens cfg argv → KeepsValid io s.misc)) ↔
      Harmless cfg io argv s.misc c := by
  cases hread : io.read with
  | ok =>
    constructor
    · intro _ left hleft
      rw [hread] at hleft
      cases hleft
    · intro _
      refine ⟨exec_framed_iff.mpr fun _ _ _ i hi => opened_ok hread (by omega), fun _ _ => ?_⟩
      rw [keepsValid_iff, loaded_ok hread]
      exact fun hvalid _ => .inl hvalid
  | failed left =>
    rw [exec_framed_iff, opened_failed_iff hread, keepsValid_iff, loaded_failed hread]
    constructor
    · rintro ⟨hframed, hkeeps⟩ left' hleft hwrite hopens
      obtain rfl : left = left' := by
        rw [hread] at hleft
        exact StoreRead.failed.inj hleft
      exact ⟨hframed hwrite hopens, fun hc hvalid => hkeeps hc hopens hvalid hwrite⟩
    · intro hharmless
      refine ⟨fun hwrite hopens => (hharmless left hread hwrite hopens).1, fun hc hopens hvalid hwrite => ?_⟩
      exact (hharmless left hread hwrite hopens).2 hc hvalid

/-! ## A read that fails -/

/-- A message in front of a valid block. -/
def bootedMisc : Memory :=
  store (fun _ => 0xFF) abMetadataMiscPartitionOffset (bootInfoMarkSlotSuccessful bootInfoReset .a).seal.encode

/-- The read fails with the buffer as it was, all zero; the write succeeds. -/
def deafIo : StoreIo := ⟨.failed zeroed, true⟩

/-- `get_valid_slot` then clears the message and resets the block. -/
theorem failed_read_clears_misc : bootInfoValidate (storedInfo bootedMisc) = true ∧ bootedMisc 0 = 0xFF ∧
      (Command.getValidSlot.exec ⟨1, false⟩ deafIo ["get_valid_slot"] ⟨bootedMisc, [], 'a'⟩).misc 0 = 0 ∧
      storedInfo (openValidated deafIo bootedMisc).misc = bootInfoReset.seal ∧
      storedInfo bootedMisc ≠ bootInfoReset.seal := by
  have hstored : storedInfo bootedMisc = (bootInfoMarkSlotSuccessful bootInfoReset .a).seal := decodeAt_store _ _ _
  have hinvalid : bootInfoValidate (loaded deafIo bootedMisc) = false := by
    rw [@loaded_failed deafIo bootedMisc zeroed rfl, Bool.eq_false_iff, Ne, bootInfoValidate_iff]
    have hmagic : (storedInfo zeroed).magic ≠ avbAbMagic := by decide
    exact fun hvalid => hmagic hvalid.2.1
  have hwritten : Written bootedMisc (opened deafIo bootedMisc)
      (Command.getValidSlot.exec ⟨1, false⟩ deafIo ["get_valid_slot"] ⟨bootedMisc, [], 'a'⟩).misc :=
    exec_of_saves rfl (.inl hinvalid) rfl
  refine ⟨?_, ?_, ?_, ?_, ?_⟩
  · rw [hstored]
    exact bootInfoValidate_seal _ rfl (by decide)
  · exact store_outside (.inl (by decide))
  · rw [hwritten.1 0 (by decide), opened_failed rfl (by decide)]
    rfl
  · rw [openValidated_eq, hinvalid]
    exact storedInfo_save _ _
  · intro heq
    have hslot := congrArg (fun info => (AvbABData.slot info .a).successfulBoot) heq
    revert hslot
    decide

end AmlogicV901d.Guarantees.MiscFrame
