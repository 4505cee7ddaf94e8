import AmlogicV901d.Source.BootControl.Commands

/-!
# A/B fallback over whole boot sequences

Each command of cmd_bootctl_avb.c:265-519 either leaves the stored block alone or
stores one of four updates of it, sealed with a fresh checksum (`Command.run_cases`).
Invariants of the block are therefore proved once for each update, and lifted to
every run of commands. The fallback bound is an induction on the tries left.
-/
namespace AmlogicV901d.Guarantees.SlotFallback
open Lib.ByteMemory Source.BootControl List

variable {info : AvbABData} {slot : Slot} {s : BootState}

inductive Command where
  | setActiveSlot (argv : List String)
  | markSlotSuccessful (argv : List String)
  | getValidSlot (argv : List String)
  | decrementRetryCount (argv : List String)

def Command.run (cfg : BootConfig) (c : Command) (s : BootState) : BootState :=
  match c with
  | .setActiveSlot argv => (doSetActiveSlot cfg storeWorks argv s).2
  | .markSlotSuccessful argv => (doMarkSlotSuccessful storeWorks argv s).2
  | .getValidSlot argv => (doGetValidSlot cfg storeWorks argv s).2
  | .decrementRetryCount argv => (doDecrementRetryCount storeWorks argv s).2

def runCommands (cfg : BootConfig) (cs : List Command) (s : BootState) : BootState :=
  cs.foldl (fun s c => c.run cfg s) s

theorem runCommands_cons (cfg : BootConfig) (c : Command) (cs : List Command) (s : BootState) :
    runCommands cfg (c :: cs) s = runCommands cfg cs (c.run cfg s) := rfl

def decrement : Command := .decrementRetryCount ["decrement_retry_count"]

/-- The updates a command makes to a valid block before it saves it. -/
inductive BlockStep (info : AvbABData) : AvbABData → Prop where
  | setActive (slot : Slot) : BlockStep info (bootInfoSetActiveSlot info slot)
  | markSuccessful (slot : Slot) : BlockStep info (bootInfoMarkSlotSuccessful info slot)
  | normalize : BlockStep info (normalizeSlots info).2
  | decrement : BlockStep info (decrementRetry info)

/-- This slot has the top priority and the other one a lower priority. -/
structure TopSlot (info : AvbABData) (slot : Slot) : Prop where
  priority : (info.slot slot).priority = avbAbMaxPriority
  below : (info.slot slot.other).priority < avbAbMaxPriority

/-- The part of the invariant that every slot update keeps. -/
structure Sane (info : AvbABData) : Prop where
  tries : ∀ slot, (info.slot slot).triesRemaining ≤ avbAbMaxTriesRemaining
  magic : info.magic = avbAbMagic
  version : info.versionMajor ≤ avbAbMajorVersion

/-- The invariant, apart from the checksum. -/
structure Healthy (info : AvbABData) : Prop extends Sane info where
  top : ∃ slot, TopSlot info slot

theorem TopSlot.le (h : TopSlot info slot) (t : Slot) : (info.slot t).priority ≤ avbAbMaxPriority := by
  by_cases ht : t = slot
  · rw [ht, h.priority]
    exact UInt8.le_refl _
  · have hother : t = slot.other := by cases t <;> cases slot <;> simp_all [Slot.other]
    rw [hother]
    exact UInt8.le_of_lt h.below

theorem TopSlot.active (h : TopSlot info slot) : getActiveSlot info = slot := by
  have hp := h.priority
  have hb := h.below
  unfold getActiveSlot
  cases slot with
  | a =>
    change info.slotA.priority = avbAbMaxPriority at hp
    rw [if_pos (by rw [hp]; exact hb)]
  | b =>
    change info.slotB.priority = avbAbMaxPriority at hp
    rw [if_neg (by rw [hp]; exact UInt8.not_lt.mpr (UInt8.le_of_lt hb))]

theorem Sane.setSlot (h : Sane info) (slot : Slot) (d : AvbABSlotData)
    (htries : d.triesRemaining ≤ avbAbMaxTriesRemaining) : Sane (info.setSlot slot d) := by
  refine ⟨fun t => ?_, ?_, ?_⟩
  · rw [slot_setSlot]
    split
    · exact htries
    · exact h.tries t
  · cases slot <;> exact h.magic
  · cases slot <;> exact h.version

theorem TopSlot.setSlot_same {top : Slot} (h : TopSlot info top) (slot : Slot) (d : AvbABSlotData)
    (hd : d.priority = (info.slot slot).priority) : TopSlot (info.setSlot slot d) top := by
  have hkeep : ∀ t, ((info.setSlot slot d).slot t).priority = (info.slot t).priority := by
    intro t
    rw [slot_setSlot]
    split
    · rename_i ht
      rw [ht, hd]
    · rfl
  exact ⟨(hkeep top).trans h.priority, by rw [hkeep]; exact h.below⟩

theorem zero_tries : (0 : UInt8) ≤ avbAbMaxTriesRemaining := by decide

theorem Healthy.setActive (h : Healthy info) (slot : Slot) : Healthy (bootInfoSetActiveSlot info slot) := by
  obtain ⟨top, htop⟩ := h.top
  unfold bootInfoSetActiveSlot
  dsimp only
  rw [slot_setSlot_other]
  generalize hd : AvbABSlotData.mk avbAbMaxPriority avbAbMaxTriesRemaining 0
    (info.slot slot).reserved = d
  have hprio : d.priority = avbAbMaxPriority := by rw [← hd]
  have hsane : Sane (info.setSlot slot d) :=
    h.toSane.setSlot slot d (by rw [← hd]; exact UInt8.le_refl _)
  split
  · -- the other slot steps down from the top priority
    refine ⟨?_, slot, ?_, ?_⟩
    · apply hsane.setSlot
      exact h.tries slot.other
    · rw [slot_setSlot, if_neg (Ne.symm slot.other_ne), slot_setSlot_self, hprio]
    · rw [slot_setSlot_self]
      exact (by decide : avbAbMaxPriority - 1 < avbAbMaxPriority)
  · rename_i hne
    refine ⟨hsane, slot, ?_, ?_⟩
    · rw [slot_setSlot_self, hprio]
    · rw [slot_setSlot_other]
      exact UInt8.lt_of_le_of_ne (htop.le slot.other) hne

theorem Healthy.markSuccessful (h : Healthy info) (slot : Slot) : Healthy (bootInfoMarkSlotSuccessful info slot) := by
  obtain ⟨top, htop⟩ := h.top
  exact ⟨h.toSane.setSlot slot _ zero_tries, top, htop.setSlot_same slot _ rfl⟩

theorem Healthy.normalizeSlot (h : Healthy info) (slot : Slot) : Healthy (bootInfoNormalize info slot).2 := by
  obtain ⟨top, htop⟩ := h.top
  unfold bootInfoNormalize
  dsimp only
  split
  · exact ⟨h.toSane.setSlot slot _ zero_tries, top, htop.setSlot_same slot _ rfl⟩
  · exact h

theorem Healthy.normalize (h : Healthy info) : Healthy (normalizeSlots info).2 := by
  have ha := h.normalizeSlot .a
  unfold normalizeSlots
  split
  · rename_i heq
    rw [heq] at ha
    exact ha
  · rename_i heq
    rw [heq] at ha
    exact ha.normalizeSlot .b

theorem toNat_pred_tries {t : UInt8} (h : t > 0) : (t - 1).toNat = t.toNat - 1 := by
  have hpos : 0 < t.toNat := UInt8.lt_iff_toNat_lt.mp h
  rw [UInt8.toNat_sub_of_le t 1 (UInt8.le_iff_toNat_le.mpr hpos)]
  rfl

/-- The slot is given up for the other one. -/
abbrev exhausted (info : AvbABData) (slot : Slot) : AvbABData :=
  (info.setSlot slot { info.slot slot with priority := 0, successfulBoot := 0 }).setSlot
    slot.other { info.slot slot.other with priority := avbAbMaxPriority }

theorem decrementRetry_exhausted (htop : TopSlot info slot) (hfail : (info.slot slot).successfulBoot ≠ 1)
    (htries : ¬ (info.slot slot).triesRemaining > 0) : decrementRetry info = exhausted info slot := by
  simp only [decrementRetry, htop.active, if_pos hfail, if_neg htries, slot_setSlot_other]

theorem topSlot_exhausted (info : AvbABData) (slot : Slot) : TopSlot (exhausted info slot) slot.other := by
  constructor
  · rw [slot_setSlot_self]
  · rw [slot_setSlot_other, Slot.other_other, slot_setSlot_self]
    exact (by decide : (0 : UInt8) < avbAbMaxPriority)

theorem Healthy.decrement (h : Healthy info) : Healthy (decrementRetry info) := by
  obtain ⟨top, htop⟩ := h.top
  by_cases hfail : (info.slot top).successfulBoot ≠ 1
  · by_cases htries : (info.slot top).triesRemaining > 0
    · rw [decrementRetry, htop.active, if_pos hfail, if_pos htries]
      refine ⟨?_, top, htop.setSlot_same top _ rfl⟩
      apply h.toSane.setSlot
      have hpred := toNat_pred_tries htries
      have hmax := UInt8.le_iff_toNat_le.mp (h.tries top)
      have hle : (info.slot top).triesRemaining - 1 ≤ avbAbMaxTriesRemaining :=
        UInt8.le_iff_toNat_le.mpr (by omega)
      exact hle
    · rw [decrementRetry_exhausted htop hfail htries]
      refine ⟨?_, top.other, topSlot_exhausted info top⟩
      apply Sane.setSlot
      · apply h.toSane.setSlot
        exact h.tries top
      · exact h.tries top.other
  · simp only [decrementRetry, htop.active, if_neg hfail]
    exact h

theorem Healthy.step {info' : AvbABData} (h : Healthy info) (hstep : BlockStep info info') : Healthy info' := by
  cases hstep with
  | setActive slot => exact h.setActive slot
  | markSuccessful slot => exact h.markSuccessful slot
  | normalize => exact h.normalize
  | decrement => exact h.decrement

theorem TopSlot.seal (h : TopSlot info slot) : TopSlot info.seal slot :=
  ⟨by rw [seal_slot]; exact h.priority, by rw [seal_slot]; exact h.below⟩

theorem Healthy.seal (h : Healthy info) : Healthy info.seal := by
  obtain ⟨top, htop⟩ := h.top
  exact ⟨⟨fun t => by rw [seal_slot]; exact h.tries t, h.magic, h.version⟩, top, htop.seal⟩

/-- What a command can do to a valid stored block. -/
theorem Command.run_cases (cfg : BootConfig) (c : Command) (s : BootState)
    (hvalid : bootInfoValidate (storedInfo s.misc) = true) : storedInfo (c.run cfg s).misc = storedInfo s.misc ∨
      ∃ info', BlockStep (storedInfo s.misc) info' ∧ storedInfo (c.run cfg s).misc = info'.seal := by
  obtain ⟨hinfo, hmisc⟩ := openValidated_valid s.misc hvalid
  cases c with
  | setActiveSlot argv =>
    simp only [Command.run, doSetActiveSlot]
    split
    · exact .inl rfl
    split
    · exact .inl rfl
    split
    · exact .inl (by rw [hmisc])
    · rename_i slot _
      exact .inr ⟨_, .setActive slot, by rw [storedInfo_save, hinfo]⟩
  | markSlotSuccessful argv =>
    simp only [Command.run, doMarkSlotSuccessful]
    split
    · exact .inl rfl
    split
    · exact .inl (by rw [hmisc])
    · rename_i slot _
      exact .inr ⟨_, .markSuccessful slot, by rw [storedInfo_save, hinfo]⟩
  | getValidSlot argv =>
    by_cases hargc : argv.length = 1
    · simp only [Command.run, doGetValidSlot_misc cfg storeWorks argv hargc s, Session.normalize, hinfo]
      split
      · rename_i info' heq
        refine .inr ⟨info', ?_, storedInfo_save _ info'⟩
        have hstep := @BlockStep.normalize (storedInfo s.misc)
        rwa [heq] at hstep
      · exact .inl (by rw [hmisc])
    · exact .inl (by simp only [Command.run, doGetValidSlot, if_pos hargc])
  | decrementRetryCount argv =>
    simp only [Command.run, doDecrementRetryCount]
    split
    · exact .inl rfl
    · exact .inr ⟨_, .decrement, by rw [storedInfo_save, hinfo]⟩

/-- The stored block is sound: the invariant and the checksum. -/
structure Sound (s : BootState) : Prop where
  healthy : Healthy (storedInfo s.misc)
  valid : bootInfoValidate (storedInfo s.misc) = true

theorem Sound.of_sealed (hinfo : Healthy info) (hs : storedInfo s.misc = info.seal) : Sound s :=
  ⟨by rw [hs]; exact hinfo.seal, by rw [hs]; exact bootInfoValidate_seal info hinfo.magic hinfo.version⟩

theorem Sound.run (h : Sound s) (cfg : BootConfig) (c : Command) : Sound (c.run cfg s) := by
  rcases Command.run_cases cfg c s h.valid with hsame | ⟨info', hstep, hseal⟩
  · exact ⟨by rw [hsame]; exact h.healthy, by rw [hsame]; exact h.valid⟩
  · exact .of_sealed (h.healthy.step hstep) hseal

theorem Sound.runCommands (h : Sound s) (cfg : BootConfig) (cs : List Command) : Sound (runCommands cfg cs s) := by
  induction cs generalizing s with
  | nil => exact h
  | cons c rest ih => exact ih (h.run cfg c)

theorem Sound.reset (s : BootState) :
    Sound (doResetAbMetadata storeWorks ["reset_ab_metadata"] s).2 := by
  have hreset : Healthy bootInfoReset := by
    refine ⟨⟨fun t => ?_, rfl, by decide⟩, .a, by decide, by decide⟩
    cases t <;> decide
  exact .of_sealed hreset (storedInfo_save _ bootInfoReset)

theorem storedInfo_decrement (h : Sound s) (cfg : BootConfig) :
    storedInfo (decrement.run cfg s).misc = (decrementRetry (storedInfo s.misc)).seal := by
  have hinfo := (openValidated_valid s.misc h.valid).1
  simp only [decrement, Command.run, doDecrementRetryCount]
  rw [if_neg (by decide), storedInfo_save, hinfo]

/-- With `n` tries left, the decrement after the last try switches the slot. -/
theorem decrements_switch (cfg : BootConfig) (slot : Slot) (n : Nat) (s : BootState) (h : Sound s)
    (htop : TopSlot (storedInfo s.misc) slot) (hfail : ((storedInfo s.misc).slot slot).successfulBoot ≠ 1)
    (htries : ((storedInfo s.misc).slot slot).triesRemaining.toNat = n) :
    getActiveSlot (storedInfo (runCommands cfg (List.replicate (n + 1) decrement) s).misc) = slot.other := by
  induction n generalizing s with
  | zero =>
    have hnone : ¬ ((storedInfo s.misc).slot slot).triesRemaining > 0 := by
      rw [gt_iff_lt, UInt8.lt_iff_toNat_lt, htries]
      exact Nat.lt_irrefl 0
    apply TopSlot.active
    rw [replicate_succ, runCommands_cons, replicate_zero, runCommands, foldl_nil,
      storedInfo_decrement h cfg, decrementRetry_exhausted htop hfail hnone]
    exact (topSlot_exhausted (storedInfo s.misc) slot).seal
  | succ n ih =>
    have hsome : ((storedInfo s.misc).slot slot).triesRemaining > 0 := by
      rw [gt_iff_lt, UInt8.lt_iff_toNat_lt, htries]
      exact Nat.succ_pos n
    have hpred := toNat_pred_tries hsome
    have hnext := storedInfo_decrement h cfg
    rw [decrementRetry, htop.active, if_pos hfail, if_pos hsome] at hnext
    rw [replicate_succ, runCommands_cons]
    apply ih (decrement.run cfg s) (h.run cfg decrement)
    · rw [hnext]
      apply TopSlot.seal
      apply htop.setSlot_same
      rfl
    · rw [hnext, seal_slot, slot_setSlot_self]
      exact hfail
    · rw [hnext, seal_slot, slot_setSlot_self]
      change (((storedInfo s.misc).slot slot).triesRemaining - 1).toNat = n
      omega

theorem Healthy.priorities (h : Healthy info) : info.slotA.priority ≠ info.slotB.priority ∧
      max info.slotA.priority.toNat info.slotB.priority.toNat = 15 := by
  obtain ⟨top, htop⟩ := h.top
  have hp : (info.slot top).priority.toNat = 15 := congrArg UInt8.toNat htop.priority
  have hb : (info.slot top.other).priority.toNat < 15 := UInt8.lt_iff_toNat_lt.mp htop.below
  constructor
  · intro heq
    have heq' := congrArg UInt8.toNat heq
    cases top <;> simp only [AvbABData.slot, Slot.other] at hp hb <;> omega
  · cases top <;> simp only [AvbABData.slot, Slot.other] at hp hb <;> omega

/-- After a reset, every run of commands keeps two different priorities with top
15, at most 7 tries and a block that validates, and a failing active slot is
given up after one decrement more than its tries. -/
theorem ab_fallback_over_runs (cfg : BootConfig) (s₀ s : BootState) (cs : List Command)
    (hrun : s = runCommands cfg cs (doResetAbMetadata storeWorks ["reset_ab_metadata"] s₀).2) :
    (storedInfo s.misc).slotA.priority ≠ (storedInfo s.misc).slotB.priority ∧
    max (storedInfo s.misc).slotA.priority.toNat (storedInfo s.misc).slotB.priority.toNat = 15 ∧
    (∀ slot, ((storedInfo s.misc).slot slot).triesRemaining.toNat ≤ 7) ∧
    bootInfoValidate (storedInfo s.misc) = true ∧
    ∀ active, getActiveSlot (storedInfo s.misc) = active → ((storedInfo s.misc).slot active).successfulBoot ≠ 1 →
      ∃ k, k ≤ ((storedInfo s.misc).slot active).triesRemaining.toNat + 1 ∧
        getActiveSlot (storedInfo (runCommands cfg (List.replicate k decrement) s).misc) =
          active.other := by
  have h : Sound s := hrun ▸ (Sound.reset s₀).runCommands cfg cs
  obtain ⟨hdiffer, hmax⟩ := h.healthy.priorities
  refine ⟨hdiffer, hmax, fun slot => UInt8.le_iff_toNat_le.mp (h.healthy.tries slot), h.valid, ?_⟩
  rintro active hactive hfail
  obtain ⟨top, htop⟩ := h.healthy.top
  obtain rfl : top = active := htop.active.symm.trans hactive
  exact ⟨_, Nat.le_refl _, decrements_switch cfg top _ s h htop hfail rfl⟩

/-- Slot B made active after a reset. -/
theorem ab_fallback_after_set_active :
    bootInfoValidate (storedInfo (runCommands ⟨1, false⟩ [.setActiveSlot ["set_active_slot", "b"]]
      (doResetAbMetadata storeWorks ["reset_ab_metadata"] ⟨zeroed, [], 'a'⟩).2).misc) = true :=
  (ab_fallback_over_runs ⟨1, false⟩ ⟨zeroed, [], 'a'⟩ _ [.setActiveSlot ["set_active_slot", "b"]] rfl).2.2.2.1

end AmlogicV901d.Guarantees.SlotFallback
