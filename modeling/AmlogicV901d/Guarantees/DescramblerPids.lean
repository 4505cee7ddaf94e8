import AmlogicV901d.Lib.BitField
import AmlogicV901d.Source.AmlDsc

/-!
# The PID table of the descrambler

Two channels share a word of the table. Writing the PID of a channel replaces the half word
of that channel, so the table follows the channels through every request.
-/
namespace AmlogicV901d.Guarantees.DescramblerPids
open Lib.BitField Function
open Source.AmlDsc

variable {p : Platform} {d : Dsc} {hw : Hw} {ch : DescChannel} {pid : Reg} {c i j : Nat}

/-! ## Half words -/

def halfShift (c : Nat) : Nat := if c % 2 = 1 then 0 else 16

/-- The bit of its half word that disables a channel. -/
def disableBit (p : Platform) (c : Nat) : Nat := if c % 2 = 1 then p.pidMatchDisableLow else p.pidMatchDisableHigh - 16

def entry (p : Platform) (hw : Hw) (c : Nat) : Reg := field (halfShift c) 16 (hw.tsPlPid (pidIndex p c))

def entryPid (p : Platform) (hw : Hw) (c : Nat) : Reg := field 0 13 (entry p hw c)

def entryEnabled (p : Platform) (hw : Hw) (c : Nat) : Bool := !(entry p hw c).getLsbD (disableBit p c)

/-- What the half word of a channel is set to. -/
def entryWord (p : Platform) (ch : DescChannel) (pid : Reg) : Reg :=
  (pid &&& 0x1fff#32) ||| bit (ch.state = .free) (disableBit p ch.id)

theorem disableBit_bounds (p : Platform) (c : Nat) : 13 ≤ disableBit p c ∧ disableBit p c < 16 := by
  have hlow := p.low_bounds
  have hhigh := p.high_bounds
  unfold disableBit
  split <;> omega

theorem getLsbD_bit (b : Bool) {shift k : Nat} (hk : k < 32) : (bit b shift).getLsbD k = (b && decide (k = shift)) := by
  cases b
  · simp [bit]
  · simp only [bit, if_true, Bool.true_and, BitVec.getLsbD_shiftLeft, BitVec.getLsbD_one]
    grind

theorem bit_shiftLeft (b : Bool) {shift : Nat} (hshift : 16 ≤ shift) : bit b (shift - 16) <<< 16 = bit b shift := by
  cases b
  · simp [bit]
  · simp only [bit, if_true]
    rw [← BitVec.shiftLeft_add, Nat.sub_add_cancel hshift]

theorem pidMask_lt : (pid &&& 0x1fff#32).toNat < 2 ^ 13 := by
  exact Nat.lt_of_le_of_lt Nat.and_le_right (by decide)

theorem pidMask_of_le (hpid : pid ≤ 0x1fff#32) : pid &&& 0x1fff#32 = pid := by
  apply BitVec.eq_of_toNat_eq
  have hlt : pid.toNat ≤ 2 ^ 13 - 1 := hpid
  exact (Nat.and_two_pow_sub_one_eq_mod pid.toNat 13).trans (Nat.mod_eq_of_lt (by omega))

theorem bit_lt (b : Bool) {shift : Nat} (hshift : shift < 16) : (bit b shift).toNat < 2 ^ 16 := by
  cases b
  · simp [bit]
  · simp only [bit, if_true, BitVec.toNat_shiftLeft, Nat.shiftLeft_eq]
    refine Nat.lt_of_le_of_lt (Nat.mod_le _ _) ?_
    rw [BitVec.toNat_ofNat, Nat.one_mod_two_pow (by decide), Nat.one_mul]
    exact Nat.pow_lt_pow_right (by decide) hshift

theorem entryWord_lt : (entryWord p ch pid).toNat < 2 ^ 16 := by
  apply Nat.or_lt_two_pow
  · exact Nat.lt_trans pidMask_lt (by decide)
  · exact bit_lt _ (disableBit_bounds p ch.id).2

theorem entryWord_pid : field 0 13 (entryWord p ch pid) = pid &&& 0x1fff#32 := by
  have hbit := disableBit_bounds p ch.id
  apply BitVec.eq_of_getLsbD_eq
  intro k hk
  rw [getLsbD_field, entryWord, BitVec.getLsbD_or, getLsbD_bit _ (by omega), Nat.zero_add]
  by_cases hlow : k < 13
  · have hne : k ≠ disableBit p ch.id := by omega
    simp [hlow, hne]
  · rw [getLsbD_of_fits pidMask_lt (Nat.not_lt.mp hlow)]
    simp [hlow]

theorem entryWord_disabled : (entryWord p ch pid).getLsbD (disableBit p ch.id) = decide (ch.state = .free) := by
  have hbit := disableBit_bounds p ch.id
  rw [entryWord, BitVec.getLsbD_or, getLsbD_bit _ (by omega), getLsbD_of_fits pidMask_lt hbit.1]
  simp

theorem hwdscChSetPid_tsPlPid : (hwdscChSetPid p ch pid hw).tsPlPid = update hw.tsPlPid (pidIndex p ch.id)
        (put (halfShift ch.id) 16 (hw.tsPlPid (pidIndex p ch.id)) (entryWord p ch pid)) := by
  have hhigh := p.high_bounds
  simp only [hwdscChSetPid, entryWord, disableBit, halfShift, put]
  by_cases hodd : ch.id % 2 = 1
  · have hmask : ~~~ones 32 16 = 0xFFFF0000#32 := by decide
    simp only [hodd, if_true, BitVec.shiftLeft_zero, hmask, BitVec.or_assoc]
  · have hmask : ~~~(ones 32 16 <<< 16) = 0xFFFF#32 := by decide
    simp only [hodd, if_false, hmask]
    rw [BitVec.shiftLeft_or_distrib, bit_shiftLeft _ (by omega), BitVec.or_assoc]

theorem entry_hwdscChSetPid_self : entry p (hwdscChSetPid p ch pid hw) ch.id = entryWord p ch pid := by
  rw [entry, hwdscChSetPid_tsPlPid, update_self]
  apply field_put entryWord_lt
  unfold halfShift
  split <;> omega

theorem entry_hwdscChSetPid_of_ne (hid : ch.id < 8) (hj : j < 8) (hne : j ≠ ch.id) :
    entry p (hwdscChSetPid p ch pid hw) j = entry p hw j := by
  rw [entry, hwdscChSetPid_tsPlPid, entry]
  by_cases hindex : pidIndex p j = pidIndex p ch.id
  · have hhalf : j / 2 = ch.id / 2 := by
      unfold pidIndex at hindex
      omega
    rw [hindex, update_self]
    apply field_put_of_apart entryWord_lt
    unfold Apart halfShift
    split <;> split <;> omega
  · rw [update_of_ne hindex]

@[simp] theorem entry_ciPlusDisable : entry p (ciPlusDisable hw) c = entry p hw c := rfl

/-! ## The table follows the channels -/

def InUse (d : Dsc) (c : Nat) : Prop := (d.channels c).state ≠ .free

instance : Decidable (InUse d c) := inferInstanceAs (Decidable (_ ≠ _))

/-- The entry of a channel holds its PID and is enabled exactly if the channel is in use. -/
def EntryMatches (p : Platform) (d : Dsc) (c : Nat) : Prop :=
  entryPid p d.hw c = (d.channels c).pid ∧ (entryEnabled p d.hw c = true ↔ InUse d c)

theorem entryMatches_of_word (hid : (d.channels c).id = c) (hpid : (d.channels c).pid ≤ 0x1fff#32)
    (hentry : entry p d.hw c = entryWord p (d.channels c) (d.channels c).pid) : EntryMatches p d c := by
  constructor
  · rw [entryPid, hentry, entryWord_pid, pidMask_of_le hpid]
  · have hdisabled := @entryWord_disabled p (d.channels c) (d.channels c).pid
    rw [hid] at hdisabled
    rw [entryEnabled, hentry, hdisabled]
    simp [InUse]

theorem EntryMatches.congr {d' : Dsc} (h : EntryMatches p d c) (hentry : entry p d'.hw c = entry p d.hw c)
    (hstate : (d'.channels c).state = (d.channels c).state) (hpid : (d'.channels c).pid = (d.channels c).pid) :
    EntryMatches p d' c := by
  unfold EntryMatches entryPid entryEnabled InUse at *
  rw [hentry, hstate, hpid]
  exact h

/-- What every request keeps. -/
structure Follows (p : Platform) (d : Dsc) : Prop where
  matching : ∀ c < dscChannelNum, EntryMatches p d c
  numbered : ∀ c < dscChannelNum, InUse d c → (d.channels c).id = c

/-- After `dsc_init`, with a table that matches no PID. The number and the modes of the channels are not set yet. -/
structure Fresh (p : Platform) (d : Dsc) : Prop where
  free : ∀ c < dscChannelNum, (d.channels c).state = .free
  pid : ∀ c < dscChannelNum, (d.channels c).pid = 0x1fff#32
  table : ∀ c < dscChannelNum, entryPid p d.hw c = 0x1fff#32 ∧ entryEnabled p d.hw c = false

theorem Fresh.follows (h : Fresh p d) : Follows p d := by
  have hfree : ∀ c < dscChannelNum, ¬ InUse d c := by
    intro c hc hused
    exact hused (h.free c hc)
  constructor
  · intro c hc
    constructor
    · rw [(h.table c hc).1, h.pid c hc]
    · rw [(h.table c hc).2]
      simp [hfree c hc]
  · intro c hc hused
    exact absurd hused (hfree c hc)

/-! ## What a request leaves of a channel that it does not name -/

/-- The keys of a channel: those of the CI+ engine and the two of the common descrambler. -/
def keysOf (p : Platform) (hw : Hw) (c : Nat) : (KeyKind → CiplusKey) × DescKey × DescKey :=
  (hw.ciplusKey c, hw.commDescKey (descSlot p c .dvbCsaEven), hw.commDescKey (descSlot p c .dvbCsaOdd))

structure Keeps (p : Platform) (c : Nat) (d d' : Dsc) : Prop where
  channel : d'.channels c = d.channels c
  entry : entry p d'.hw c = entry p d.hw c
  keys : keysOf p d'.hw c = keysOf p d.hw c

theorem Keeps.refl : Keeps p c d d := ⟨rfl, rfl, rfl⟩

theorem Keeps.trans {d' d'' : Dsc} (h : Keeps p c d d') (h' : Keeps p c d' d'') : Keeps p c d d'' :=
  ⟨h'.channel.trans h.channel, h'.entry.trans h.entry, h'.keys.trans h.keys⟩

/-- A request on channel `i` keeps the table if it keeps the other channels and leaves `i` in order. -/
theorem Follows.of_keeps {d' : Dsc} (h : Follows p d) (hkeeps : ∀ j < dscChannelNum, j ≠ i → Keeps p j d d')
    (hmatch : EntryMatches p d' i) (hid : InUse d' i → (d'.channels i).id = i) : Follows p d' := by
  have hother : ∀ j < dscChannelNum, j ≠ i → d'.channels j = d.channels j := fun j hj hne => (hkeeps j hj hne).channel
  constructor
  · intro c hc
    by_cases hci : c = i
    · exact hci ▸ hmatch
    · apply (h.matching c hc).congr (hkeeps c hc hci).entry <;> rw [hother c hc hci]
  · intro c hc hused
    by_cases hci : c = i
    · subst hci
      exact hid hused
    · rw [InUse, hother c hc hci] at hused
      rw [hother c hc hci]
      exact h.numbered c hc hused

/-! ## Freeing and allocating -/

theorem dscChannelFree_of_free (hfree : ¬ InUse d i) : dscChannelFree p d i = d := by
  have hstate : (d.channels i).state = .free := by simpa [InUse] using hfree
  simp [dscChannelFree, hstate]

/-- The channel after it was freed. -/
def freed (ch : DescChannel) : DescChannel :=
  { ch with state := .free, pid := 0x1fff#32, set := 0, workMode := .unset, mode := .unset }

theorem dscChannelFree_of_inUse (hused : InUse d i) : dscChannelFree p d i = { d with
        hw := ciPlusDisable (hwdscChSetPid p { d.channels i with state := .free } 0x1fff#32 d.hw)
        channels := update d.channels i (freed (d.channels i)) } := by
  have hstate : (d.channels i).state ≠ .free := hused
  simp [dscChannelFree, hstate, freed]

theorem dscChannelFree_keeps (h : Follows p d) (hi : i < dscChannelNum) (hj : j < dscChannelNum) (hne : j ≠ i) :
    Keeps p j d (dscChannelFree p d i) := by
  by_cases hused : InUse d i
  · rw [dscChannelFree_of_inUse hused]
    have hid := h.numbered i hi hused
    constructor
    · exact update_of_ne hne _ _
    · apply entry_hwdscChSetPid_of_ne
      · exact hid.symm ▸ hi
      · exact hj
      · exact hid.symm ▸ hne
    · rfl
  · rw [dscChannelFree_of_free hused]
    exact .refl

theorem not_inUse_dscChannelFree : ¬ InUse (dscChannelFree p d i) i := by
  by_cases hused : InUse d i
  · rw [dscChannelFree_of_inUse hused]
    simp [InUse, freed]
  · rw [dscChannelFree_of_free hused]
    exact hused

theorem dscChannelFree_follows (h : Follows p d) (hi : i < dscChannelNum) : Follows p (dscChannelFree p d i) := by
  have hfree := @not_inUse_dscChannelFree p d i
  apply h.of_keeps (fun j hj hne => dscChannelFree_keeps h hi hj hne) _ (absurd · hfree)
  by_cases hused : InUse d i
  · have hid := h.numbered i hi hused
    rw [dscChannelFree_of_inUse hused]
    apply entryMatches_of_word
    · simp [freed, hid]
    · simp [freed]
    · have hself := @entry_hwdscChSetPid_self p d.hw { d.channels i with state := .free } 0x1fff#32
      simpa [freed, entryWord, hid] using hself
  · rw [dscChannelFree_of_free hused]
    exact h.matching i hi

theorem dscChannelAlloc_keeps (hi : i < dscChannelNum) (hj : j < dscChannelNum) (hne : j ≠ i) :
    Keeps p j d (dscChannelAlloc p d i pid) := by
  constructor
  · exact update_of_ne hne _ _
  · exact entry_hwdscChSetPid_of_ne hi hj hne
  · rfl

theorem dscChannelAlloc_follows (h : Follows p d) (hi : i < dscChannelNum) (hpid : pid < 0x1fff#32) :
    Follows p (dscChannelAlloc p d i pid) := by
  apply h.of_keeps (fun j hj hne => dscChannelAlloc_keeps hi hj hne)
  · apply entryMatches_of_word
    · simp [dscChannelAlloc]
    · simpa [dscChannelAlloc] using BitVec.le_of_lt hpid
    · simpa [dscChannelAlloc] using @entry_hwdscChSetPid_self p d.hw ⟨.ready, .unset, i, pid, 0, .unset⟩ pid
  · simp [dscChannelAlloc]

theorem dscReset_follows (h : Follows p d) : Follows p (dscReset p d) :=
  List.foldlRecOn _ _ h fun _ hd _ hi => dscChannelFree_follows hd (List.mem_range.mp hi)

end AmlogicV901d.Guarantees.DescramblerPids
