import AmlogicV901d.Source.BootControl.Commands

/-!
# Which slot `get_valid_slot` selects

do_GetValidSlot (cmd_bootctl_avb.c:377-454) computes whether each slot is
bootable but consults only the one of top priority. It selects the best bootable
slot exactly when the top-priority slot is itself bootable.
-/
namespace AmlogicV901d.Guarantees.SlotSelection
open Lib.ByteMemory Source.BootControl List

/-- The call chose this slot: the last `setenv` calls are the ones for it, and no
earlier one of the call touches `active_slot` or `boot_part`. -/
def Selects (cfg : BootConfig) (before after : BootState) (slot : Slot) : Prop :=
  ∃ status, after.env = before.env ++ status ++ selectEnv cfg slot ∧
    ∀ call ∈ status, call.1 ≠ .activeSlot ∧ call.1 ≠ .bootPart

def AnyBootable (info : AvbABData) : Prop := ∃ slot, slotIsBootable (info.slot slot) = true

/-- A bootable slot of highest priority among the bootable ones is selected. -/
def SelectsBest (cfg : BootConfig) (info : AvbABData) (before after : BootState) : Prop :=
  ∃ slot, slotIsBootable (info.slot slot) = true ∧ (∀ t, slotIsBootable (info.slot t) = true →
      (info.slot t).priority ≤ (info.slot slot).priority) ∧
    Selects cfg before after slot

variable (info : AvbABData)

theorem getActiveSlot_top (t : Slot) : (info.slot t).priority ≤ (info.slot (getActiveSlot info)).priority := by
  unfold getActiveSlot
  split
  · rename_i h
    cases t
    · exact UInt8.le_refl _
    · exact UInt8.le_of_lt h
  · rename_i h
    cases t
    · exact UInt8.not_lt.mp h
    · exact UInt8.le_refl _

/-- The fields that selection looks at. -/
structure SameChoice (info info' : AvbABData) : Prop where
  priority : ∀ t, (info'.slot t).priority = (info.slot t).priority
  bootable : ∀ t, slotIsBootable (info'.slot t) = slotIsBootable (info.slot t)

theorem SameChoice.refl : SameChoice info info := ⟨fun _ => rfl, fun _ => rfl⟩

theorem SameChoice.trans {a b c : AvbABData} (h : SameChoice a b) (h' : SameChoice b c) : SameChoice a c :=
  ⟨fun t => (h'.priority t).trans (h.priority t), fun t => (h'.bootable t).trans (h.bootable t)⟩

theorem SameChoice.active {info info' : AvbABData} (h : SameChoice info info') :
    getActiveSlot info' = getActiveSlot info := by
  have ha : info'.slotA.priority = info.slotA.priority := h.priority .a
  have hb : info'.slotB.priority = info.slotB.priority := h.priority .b
  rw [getActiveSlot, getActiveSlot, ha, hb]

theorem bootInfoNormalize_sameChoice (slot : Slot) : SameChoice info (bootInfoNormalize info slot).2 := by
  unfold bootInfoNormalize
  dsimp only
  split
  · rename_i h
    have hpos : (info.slot slot).priority > 0 := by
      rw [h.1]
      decide
    refine ⟨fun t => ?_, fun t => ?_⟩ <;> rw [slot_setSlot] <;> split
    · subst t
      rfl
    · rfl
    · subst t
      simp [slotIsBootable, hpos, h.2.2]
    · rfl
  · exact .refl info

theorem normalizeSlots_sameChoice : SameChoice info (normalizeSlots info).2 := by
  have ha := bootInfoNormalize_sameChoice info .a
  unfold normalizeSlots
  split
  · rename_i info' h
    rw [h] at ha
    exact ha
  · rename_i info' h
    rw [h] at ha
    exact ha.trans (bootInfoNormalize_sameChoice info' .b)

theorem normalize_sameChoice (io : StoreIo) (t : Session) : SameChoice t.info (t.normalize io).info := by
  have h := normalizeSlots_sameChoice t.info
  unfold Session.normalize
  split
  · rename_i info' heq
    rw [heq] at h
    exact ⟨h.priority, h.bootable⟩
  · exact .refl t.info

variable (cfg : BootConfig)

theorem statusEnv_untouched (info : AvbABData) :
    ∀ call ∈ statusEnv cfg info, call.1 ≠ .activeSlot ∧ call.1 ≠ .bootPart := by
  intro call hcall
  unfold statusEnv at hcall
  split at hcall <;> simp at hcall <;> rcases hcall with rfl | rfl | rfl <;> simp

theorem selectEnv_sets (slot : Slot) : ∃ value, (EnvVar.activeSlot, value) ∈ selectEnv cfg slot := by
  unfold selectEnv
  split
  · exact ⟨slotSuffix slot, .head _⟩
  · exact ⟨"normal", .head _⟩

theorem not_selects_of_status {cfg : BootConfig} {info : AvbABData} {before after : BootState}
    (henv : after.env = before.env ++ statusEnv cfg info) {slot : Slot} : ¬ Selects cfg before after slot := by
  rintro ⟨status, hlog, -⟩
  rw [henv, append_assoc, append_cancel_left_eq] at hlog
  obtain ⟨value, hset⟩ := selectEnv_sets cfg slot
  have hmem : (.activeSlot, value) ∈ statusEnv cfg info := by
    rw [hlog]
    exact mem_append_right _ hset
  exact (statusEnv_untouched cfg info _ hmem).1 rfl

theorem chosen_env (info : AvbABData) (s : BootState) :
    (if getActiveSlot info = .a ∧ slotIsBootable info.slotA = true then (0, selectSlot cfg .a s)
      else if getActiveSlot info = .b ∧ slotIsBootable info.slotB = true then (0, selectSlot cfg .b s)
      else ((0 : Int), s)) = if slotIsBootable (info.slot (getActiveSlot info)) = true then
        (0, selectSlot cfg (getActiveSlot info) s) else (0, s) := by
  cases getActiveSlot info with
  | a => by_cases hb : slotIsBootable info.slotA = true <;> simp [AvbABData.slot, hb]
  | b => by_cases hb : slotIsBootable info.slotB = true <;> simp [AvbABData.slot, hb]

/-- Outcome of `get_valid_slot` on a valid stored block. -/
theorem doGetValidSlot_spec (argv : List String) (hargc : argv.length = 1) (s : BootState)
    (hvalid : bootInfoValidate (storedInfo s.misc) = true) :
    ∃ s' info', doGetValidSlot cfg storeWorks argv s = (0, s') ∧ SameChoice (storedInfo s.misc) info' ∧
      s'.env = s.env ++ statusEnv cfg info' ++
        (if slotIsBootable ((storedInfo s.misc).slot (getActiveSlot (storedInfo s.misc))) then
          selectEnv cfg (getActiveSlot (storedInfo s.misc)) else []) := by
  have hchoice := normalize_sameChoice storeWorks (openValidated storeWorks s.misc)
  rw [(openValidated_valid s.misc hvalid).1] at hchoice
  unfold doGetValidSlot
  rw [if_neg (by omega)]
  generalize (openValidated storeWorks s.misc).normalize storeWorks = t at hchoice ⊢
  rw [chosen_env, hchoice.active, hchoice.bootable]
  split
  · exact ⟨_, t.info, rfl, hchoice, rfl⟩
  · exact ⟨_, t.info, rfl, hchoice, (append_nil _).symm⟩

/-- `get_valid_slot` selects the best bootable slot exactly when there is none,
or the slot of top priority is bootable. -/
theorem get_valid_slot_selects_iff (cfg : BootConfig) (argv : List String) (hargc : argv.length = 1) (s : BootState)
    (hvalid : bootInfoValidate (storedInfo s.misc) = true) : ((AnyBootable (storedInfo s.misc) →
        SelectsBest cfg (storedInfo s.misc) s (doGetValidSlot cfg storeWorks argv s).2) ↔
      ¬ AnyBootable (storedInfo s.misc) ∨
        slotIsBootable ((storedInfo s.misc).slot (getActiveSlot (storedInfo s.misc))) = true) := by
  obtain ⟨s', info', hrun, -, henv⟩ := doGetValidSlot_spec cfg argv hargc s hvalid
  rw [hrun]
  generalize storedInfo s.misc = info at henv ⊢
  constructor
  · intro hselect
    by_cases hany : AnyBootable info
    · right
      obtain ⟨slot, -, -, hselects⟩ := hselect hany
      by_contra hnot
      rw [if_neg hnot, append_nil] at henv
      exact not_selects_of_status henv hselects
    · exact .inl hany
  · rintro (hnone | hactive) hany
    · exact absurd hany hnone
    · refine ⟨getActiveSlot info, hactive, fun t _ => getActiveSlot_top info t,
        statusEnv cfg info', ?_, statusEnv_untouched cfg info'⟩
      rw [henv, if_pos hactive]

/-- The block after seven decrements of a reset one: slot A is on top with no
tries left, slot B has all of its tries. -/
def exhaustedInfo : AvbABData :=
  { bootInfoReset with slotA := ⟨avbAbMaxPriority, 0, 0, 0⟩ }

def stateOf (info : AvbABData) : BootState :=
  ⟨store zeroed abMetadataMiscPartitionOffset info.seal.encode, [], 'a'⟩

theorem storedInfo_stateOf : storedInfo (stateOf info).misc = info.seal :=
  decodeAt_store _ _ _

/-- Slot B could boot, but no slot is selected. -/
theorem get_valid_slot_gives_up : bootInfoValidate (storedInfo (stateOf exhaustedInfo).misc) = true ∧
      slotIsBootable (storedInfo (stateOf exhaustedInfo).misc).slotB = true ∧
      ¬ SelectsBest ⟨1, false⟩ (storedInfo (stateOf exhaustedInfo).misc) (stateOf exhaustedInfo)
        (doGetValidSlot ⟨1, false⟩ storeWorks ["get_valid_slot"] (stateOf exhaustedInfo)).2 := by
  have hvalid : bootInfoValidate (storedInfo (stateOf exhaustedInfo).misc) = true := by
    rw [storedInfo_stateOf]
    exact bootInfoValidate_seal exhaustedInfo rfl (by decide)
  obtain ⟨s', info', hrun, -, henv⟩ := doGetValidSlot_spec ⟨1, false⟩ ["get_valid_slot"] rfl
    (stateOf exhaustedInfo) hvalid
  refine ⟨hvalid, by rw [storedInfo_stateOf]; decide, ?_⟩
  rw [hrun]
  rintro ⟨slot, -, -, hselects⟩
  exact not_selects_of_status henv hselects

/-- The block of a reset, where slot A can boot. -/
theorem get_valid_slot_selects_after_reset : AnyBootable (storedInfo (stateOf bootInfoReset).misc) ∧
      SelectsBest ⟨1, false⟩ (storedInfo (stateOf bootInfoReset).misc) (stateOf bootInfoReset)
        (doGetValidSlot ⟨1, false⟩ storeWorks ["get_valid_slot"] (stateOf bootInfoReset)).2 := by
  have hany : AnyBootable (storedInfo (stateOf bootInfoReset).misc) := by
    exact ⟨.a, by decide⟩
  have hvalid : bootInfoValidate (storedInfo (stateOf bootInfoReset).misc) = true := by
    rw [storedInfo_stateOf]
    exact bootInfoValidate_seal bootInfoReset rfl (by decide)
  exact ⟨hany, (get_valid_slot_selects_iff ⟨1, false⟩ ["get_valid_slot"] rfl (stateOf bootInfoReset)
    hvalid).mpr (.inr (by rw [storedInfo_stateOf]; decide)) hany⟩

end AmlogicV901d.Guarantees.SlotSelection
