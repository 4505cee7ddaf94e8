import AmlogicV901d.Guarantees.DescramblerPids

/-!
# Descrambler channels do not disturb each other

The PID entry and the keys of a channel are its own: a request leaves those of the other
channels alone, if the channel it keys was allocated once. The CI+ engine is shared. A key
for it rewrites the configuration for every channel, and freeing a channel or giving it a
key of the common descrambler switches the engine off, whoever else is on it. Requests that
do neither to a channel on CI+ are `Clean`.
-/
namespace AmlogicV901d.Guarantees.DescramblerChannels
open Source.AmlDsc List Function
open Guarantees.DescramblerPids

variable {p : Platform} {d : Dsc} {hw : Hw} {ch : DescChannel} {pid : Reg} {c i j : Nat} {descr : CaDescrEx} {req : Request}

/-! ## What a channel needs of the engine -/

/-- The channel is in use and its key is one of AES, DES or SM4. -/
def OnCiplus (d : Dsc) (c : Nat) : Prop := InUse d c ∧ (d.channels c).workMode = .ciplus

instance : Decidable (OnCiplus d c) := inferInstanceAs (Decidable (_ ∧ _))

/-- The bits of a register that a channel needs: `aes` for an AES or SM4 key or IV, `des` for a DES key. -/
def needs (ch : DescChannel) (aes des : Reg) : Reg :=
  (if ch.set &&& 0xF3C#32 ≠ 0 then aes else 0) ||| (if ch.set &&& 0xC0#32 ≠ 0 then des else 0)

/-- Of `CIPLUS_CONFIG` an AES key needs every field but `DES_EN`, a DES key `CNTL_ENABLE` and `DES_EN`. -/
def configNeeds (ch : DescChannel) : Reg := needs ch 0xC000000E#32 0x9#32

def endianNeeds (ch : DescChannel) : Reg := needs ch 0x0FFF0000#32 0x00000FFF#32

/-- What a channel sees of the engine: the fields it needs, and the input and output of CI+. -/
def engineOf (hw : Hw) (ch : DescChannel) : Reg × Reg × Reg :=
  (hw.ciplusConfig &&& configNeeds ch, hw.ciplusEndian &&& endianNeeds ch, hw.stbTopConfig &&& ((3#32 <<< 26) ||| (7#32 <<< 28)))

/-- `CNTL_ENABLE` of `CIPLUS_CONFIG`. -/
def engineEnabled (hw : Hw) : Bool := hw.ciplusConfig.getLsbD 3

/-! ## Requests -/

/-- The request names the channel, or it is the one whose PID the request frees. -/
def Names (d : Dsc) : Request → Nat → Prop
  | .setPid pid index, i => (index = -1 ∧ channelOfPid d pid = some i) ∨ index = i
  | .setDescrEx descr, i => descr.index = i
  | .reset, _ => True

instance : Decidable (Names d req i) :=
  match req with
  | .setPid _ _ => inferInstanceAs (Decidable (_ ∨ _))
  | .setDescrEx _ => inferInstanceAs (Decidable (_ = _))
  | .reset => inferInstanceAs (Decidable True)

/-- No channel but `i` is on CI+. -/
def OthersOff (d : Dsc) (i : Nat) : Prop := ∀ j < dscChannelNum, j ≠ i → ¬ OnCiplus d j

instance : Decidable (OthersOff d i) := inferInstanceAs (Decidable (∀ j < dscChannelNum, _))

/-- The mode that a key request asks the engine for. -/
def askedMode (d : Dsc) (descr : CaDescrEx) : Mode :=
  keyMode (if descr.isIdsa then { d.channels descr.index with mode := .idsa } else d.channels descr.index) descr.type

def askedEndian (descr : CaDescrEx) : Reg := if descr.flags.getLsbD 0 then 7 else 0

/-- What the request asks the engine for is what channel `j` needs and has already. -/
def Agrees (p : Platform) (d : Dsc) (descr : CaDescrEx) (j : Nat) : Prop :=
  configWord (askedMode d descr) (keySetup descr.type).2.2.2.2 &&& configNeeds (d.channels j) =
      d.hw.ciplusConfig &&& configNeeds (d.channels j) ∧
    endianWord p (askedEndian descr) &&& endianNeeds (d.channels j) = d.hw.ciplusEndian &&& endianNeeds (d.channels j)

instance : Decidable (Agrees p d descr j) := inferInstanceAs (Decidable (_ ∧ _))

def CleanKey (p : Platform) (d : Dsc) (descr : CaDescrEx) : Prop :=
  (∀ j < dscChannelNum, j ≠ descr.index → InUse d j → (d.channels descr.index).id % 8 ≠ j) ∧
    (isCsa descr.type = true → OthersOff d descr.index) ∧
    (isCiplus descr.type = true → ∀ j < dscChannelNum, j ≠ descr.index → OnCiplus d j → Agrees p d descr j)

instance : Decidable (CleanKey p d descr) := inferInstanceAs (Decidable ((∀ j < dscChannelNum, _) ∧ (_ → _) ∧ (_ → ∀ j < dscChannelNum, _)))

def Clean (p : Platform) (d : Dsc) : Request → Prop
  | .setPid pid index => ∀ i < dscChannelNum, Names d (.setPid pid index) i → InUse d i → OthersOff d i
  | .setDescrEx descr => descr.index < dscChannelNum → CleanKey p d descr
  | .reset => True

instance : Decidable (Clean p d req) :=
  match req with
  | .setPid _ _ => inferInstanceAs (Decidable (∀ i < dscChannelNum, _))
  | .setDescrEx _ => inferInstanceAs (Decidable (_ → _))
  | .reset => inferInstanceAs (Decidable True)

/-- The request leaves every channel in use that it does not name, and what that channel needs of the engine. -/
def Undisturbed (p : Platform) (d : Dsc) (req : Request) : Prop :=
  ∀ j < dscChannelNum, InUse d j → ¬ Names d req j →
    Keeps p j d (req.exec p d) ∧ (OnCiplus d j → engineOf (req.exec p d).hw (d.channels j) = engineOf d.hw (d.channels j))

/-! ## The engine while a channel is on it -/

/-- `STB_TOP_CONFIG` after `_ci_plus_set_output`. -/
def outputStb (p : Platform) (sel : Int) (stb : Reg) : Reg :=
  if p.dscId ≠ 0 then stb
  else if p.ciplusOutAutoMode then setInOut stb (ciPlusIn p) (ciPlusOut p)
  else if sel ≥ 0 ∧ sel ≤ 7 then setInOut stb (ciPlusIn p) (BitVec.ofInt 32 sel)
  else stb

def outputSel (p : Platform) (sel : Int) : Int := if p.dscId = 0 ∧ p.ciplusOutAutoMode then (ciPlusOut p).toNat else sel

theorem ciPlusSetOutput_eq : ciPlusSetOutput p d = { d with
        ciplusOutSel := outputSel p d.ciplusOutSel
        hw := { d.hw with stbTopConfig := outputStb p d.ciplusOutSel d.hw.stbTopConfig } } := by
  unfold ciPlusSetOutput outputSel outputStb
  by_cases hid : p.dscId = 0
  · by_cases hauto : p.ciplusOutAutoMode = true
    · simp [hid, hauto]
    · by_cases hsel : d.ciplusOutSel ≥ 0 ∧ d.ciplusOutSel ≤ 7 <;> simp [hid, hauto, hsel]
  · simp [hid]

theorem setInOut_setInOut (stb input output : Reg) : setInOut (setInOut stb input output) input output = setInOut stb input output := by
  apply BitVec.eq_of_getLsbD_eq
  intro k _
  simp only [setInOut, BitVec.getLsbD_or, BitVec.getLsbD_and, BitVec.getLsbD_not]
  grind

theorem outputStb_outputStb (sel : Int) (stb : Reg) : outputStb p (outputSel p sel) (outputStb p sel stb) = outputStb p sel stb := by
  unfold outputStb outputSel
  by_cases hid : p.dscId = 0
  · by_cases hauto : p.ciplusOutAutoMode = true
    · simp [hid, hauto, setInOut_setInOut]
    · by_cases hsel : sel ≥ 0 ∧ sel ≤ 7
      · simp [hid, hauto, hsel, setInOut_setInOut]
      · simp [hid, hauto, hsel]
  · simp [hid]

/-- While a channel is on CI+, the engine is enabled and its input and output are those of the device. -/
def Engine (p : Platform) (d : Dsc) : Prop :=
  ∀ c < dscChannelNum, OnCiplus d c → engineEnabled d.hw = true ∧ outputStb p d.ciplusOutSel d.hw.stbTopConfig = d.hw.stbTopConfig

theorem Engine.of_none (hnone : ∀ c < dscChannelNum, ¬ OnCiplus d c) : Engine p d := by
  intro c hc hon
  exact absurd hon (hnone c hc)

theorem Engine.of_same {d' : Dsc} (h : Engine p d) (hconfig : d'.hw.ciplusConfig = d.hw.ciplusConfig)
    (hstb : d'.hw.stbTopConfig = d.hw.stbTopConfig) (hsel : d'.ciplusOutSel = d.ciplusOutSel)
    (hon : ∀ c < dscChannelNum, OnCiplus d' c → OnCiplus d c) : Engine p d' := by
  intro c hc hc'
  rw [engineEnabled, hconfig, hstb, hsel]
  exact h c hc (hon c hc hc')

theorem OnCiplus.congr {d' : Dsc} (h : d'.channels c = d.channels c) : OnCiplus d' c ↔ OnCiplus d c := by
  rw [OnCiplus, OnCiplus, InUse, InUse, h]

/-! ## Freeing and allocating -/

theorem dscChannelFree_none (h : Follows p d) (hi : i < dscChannelNum) (hoff : OthersOff d i) :
    ∀ c < dscChannelNum, ¬ OnCiplus (dscChannelFree p d i) c := by
  intro c hc hon
  by_cases hci : c = i
  · exact not_inUse_dscChannelFree (hci ▸ hon.1)
  · rw [OnCiplus.congr (dscChannelFree_keeps h hi hc hci).channel] at hon
    exact hoff c hc hci hon

theorem dscChannelFree_engine (h : Follows p d) (hengine : Engine p d) (hi : i < dscChannelNum) (hoff : InUse d i → OthersOff d i) :
    Engine p (dscChannelFree p d i) := by
  by_cases hused : InUse d i
  · exact .of_none (dscChannelFree_none h hi (hoff hused))
  · rw [dscChannelFree_of_free hused]
    exact hengine

theorem dscChannelFree_engineOf (hoff : InUse d i → OthersOff d i) (hj : j < dscChannelNum) (hne : j ≠ i) (hon : OnCiplus d j) :
    engineOf (dscChannelFree p d i).hw ch = engineOf d.hw ch := by
  by_cases hused : InUse d i
  · exact absurd hon (hoff hused j hj hne)
  · rw [dscChannelFree_of_free hused]

theorem dscChannelAlloc_engine (hengine : Engine p d) (hi : i < dscChannelNum) : Engine p (dscChannelAlloc p d i pid) := by
  refine .of_same hengine rfl rfl rfl ?_
  intro c hc hon
  by_cases hci : c = i
  · subst hci
    simp [OnCiplus, dscChannelAlloc] at hon
  · exact (OnCiplus.congr (dscChannelAlloc_keeps hi hc hci).channel).mp hon

/-! ## Keys -/

variable {kl : Bool} {type : CwType} {key : Nat → BitVec 8}

theorem not_isCiplus_of_isCsa (hcsa : isCsa type = true) : isCiplus type = false := by
  cases type <;> simp_all [isCsa, isCiplus]

/-- A channel after a key of the common descrambler. -/
def csaKeyed (ch : DescChannel) : DescChannel :=
  if ch.workMode = .ciplus ∨ ch.workMode = .unset then { ch with mode := .ecb, workMode := .dvbcsa } else ch

/-- A channel after a key of the CI+ engine. -/
def ciplusKeyed (ch : DescChannel) (type : CwType) : DescChannel :=
  if ch.workMode = .dvbcsa ∨ ch.workMode = .unset then { ch with mode := keyMode ch type, workMode := .ciplus }
  else { ch with mode := keyMode ch type }

theorem dscSetKey_csa (hcsa : isCsa type = true) : dscSetKey p d i kl type key = { d with
        hw := hwdscSetCsaKey p (d.channels i) kl type key (ciPlusDisable d.hw)
        channels := update d.channels i (csaKeyed (d.channels i)) } := by
  simp [dscSetKey, hcsa, csaKeyed]

theorem dscSetKey_ciplus (hciplus : isCiplus type = true) : dscSetKey p d i kl type key = { d with
        ciplusOutSel := outputSel p d.ciplusOutSel
        hw := hwdscSetAesDesSm4Key p (d.channels i) kl type key
          { d.hw with stbTopConfig := outputStb p d.ciplusOutSel d.hw.stbTopConfig }
        channels := update d.channels i (ciplusKeyed (d.channels i) type) } := by
  have hcsa : isCsa type = false := by
    by_contra hcsa
    rw [not_isCiplus_of_isCsa (by simpa using hcsa)] at hciplus
    cases hciplus
  simp [dscSetKey, hcsa, hciplus, ciPlusSetOutput_eq, ciplusKeyed]

theorem dscSetKey_other (hcsa : isCsa type = false) (hciplus : isCiplus type = false) : dscSetKey p d i kl type key = d := by
  simp [dscSetKey, hcsa, hciplus]

theorem type_cases {motive : Prop} (csa : isCsa type = true → motive) (ciplus : isCiplus type = true → motive)
    (other : isCsa type = false → isCiplus type = false → motive) : motive := by
  cases hcsa : isCsa type with
  | true => exact csa hcsa
  | false =>
    cases hciplus : isCiplus type with
    | true => exact ciplus hciplus
    | false => exact other hcsa hciplus

theorem hwdscSetCsaKey_eq (hw : Hw) : ∃ stored, hwdscSetCsaKey p ch kl type key hw = { hw with commDescKey := stored } ∧
      ∀ slot ≠ descSlot p ch.id type, stored slot = hw.commDescKey slot := by
  unfold hwdscSetCsaKey
  split
  · split
    · exact ⟨_, rfl, fun slot hslot => update_of_ne hslot _ _⟩
    · exact ⟨_, rfl, fun slot _ => rfl⟩
  · exact ⟨_, rfl, fun slot hslot => update_of_ne hslot _ _⟩

theorem descSlot_ne {id : Nat} {type' : CwType} (hj : j < 8) (hid : id % 8 ≠ j) : descSlot p j type' ≠ descSlot p id type := by
  unfold descSlot dscCount
  split <;> omega

def SameEntry (ch' ch : DescChannel) : Prop := ch'.state = ch.state ∧ ch'.id = ch.id ∧ ch'.pid = ch.pid

/-- What a key for channel `i` leaves alone. -/
structure Keyed (p : Platform) (i : Nat) (d d' : Dsc) : Prop where
  others : ∀ j ≠ i, d'.channels j = d.channels j
  self : SameEntry (d'.channels i) (d.channels i)
  table : d'.hw.tsPlPid = d.hw.tsPlPid
  keys : ∀ j < dscChannelNum, (d.channels i).id % 8 ≠ j → keysOf p d'.hw j = keysOf p d.hw j

theorem Keyed.refl : Keyed p i d d := ⟨fun _ _ => rfl, ⟨rfl, rfl, rfl⟩, rfl, fun _ _ _ => rfl⟩

theorem Keyed.trans {d₁ d₂ : Dsc} (h : Keyed p i d d₁) (h' : Keyed p i d₁ d₂) : Keyed p i d d₂ := by
  obtain ⟨hstate, hid, hpid⟩ := h.self
  obtain ⟨hstate', hid', hpid'⟩ := h'.self
  refine ⟨fun j hj => (h'.others j hj).trans (h.others j hj), ⟨hstate'.trans hstate, hid'.trans hid, hpid'.trans hpid⟩,
    h'.table.trans h.table, fun j hj hne => ?_⟩
  exact (h'.keys j hj (by rwa [hid])).trans (h.keys j hj hne)

theorem Keyed.same {d' : Dsc} (h : Keyed p i d d') (c : Nat) : SameEntry (d'.channels c) (d.channels c) := by
  by_cases hc : c = i
  · exact hc ▸ h.self
  · rw [h.others c hc]
    exact ⟨rfl, rfl, rfl⟩

theorem Keyed.entry {d' : Dsc} (h : Keyed p i d d') : entry p d'.hw c = entry p d.hw c := by
  rw [DescramblerPids.entry, h.table]
  rfl

theorem dscSetKey_keyed : Keyed p i d (dscSetKey p d i kl type key) := by
  apply type_cases
  · intro hcsa
    obtain ⟨stored, heq, hstored⟩ := hwdscSetCsaKey_eq (ciPlusDisable d.hw)
    rw [dscSetKey_csa hcsa, heq]
    refine ⟨fun j hne => update_of_ne hne _ _, ?_, rfl, fun j hj hid => ?_⟩
    · simp only [update_self, csaKeyed]
      split <;> simp [SameEntry]
    · simp only [keysOf, hstored _ (descSlot_ne hj hid)]
      rfl
  · intro hciplus
    rw [dscSetKey_ciplus hciplus]
    refine ⟨fun j hne => update_of_ne hne _ _, ?_, rfl, fun j hj hid => ?_⟩
    · simp only [update_self, ciplusKeyed]
      split <;> simp [SameEntry]
    · simp only [keysOf, hwdscSetAesDesSm4Key, ciPlusConfig, update_of_ne (Ne.symm hid)]
  · intro hcsa hciplus
    rw [dscSetKey_other hcsa hciplus]
    exact .refl

/-- The channel as `_dsc_set_key` gets it. -/
def marked (ch : DescChannel) (descr : CaDescrEx) : DescChannel :=
  let ch := { ch with set := ch.set ||| (1#32 <<< descr.type.toNat) ||| (descr.flags <<< 24) }
  if descr.isIdsa then { ch with mode := .idsa } else ch

theorem marked_eq : ∃ set mode, marked ch descr = { ch with set := set, mode := mode } := by
  unfold marked
  split <;> exact ⟨_, _, rfl⟩

/-- The device as `_dsc_set_key` gets it. -/
def markedIn (d : Dsc) (descr : CaDescrEx) : Dsc :=
  { d with channels := Function.update d.channels descr.index (marked (d.channels descr.index) descr) }

theorem dscSetCw_of_lt (hi : descr.index < dscChannelNum) :
    (dscSetCw p d descr).2 = dscSetKey p (markedIn d descr) descr.index (descr.flags.getLsbD 0) descr.type descr.cw := by
  simp [dscSetCw, Nat.not_le.mpr hi, marked, markedIn]

theorem markedIn_keyed : Keyed p descr.index d (markedIn d descr) := by
  obtain ⟨set, mode, heq⟩ := @marked_eq (d.channels descr.index) descr
  refine ⟨fun j hne => update_of_ne hne _ _, ?_, rfl, fun _ _ _ => rfl⟩
  simp [markedIn, heq, SameEntry]

theorem dscSetCw_keyed : Keyed p descr.index d (dscSetCw p d descr).2 := by
  by_cases hi : descr.index < dscChannelNum
  · rw [dscSetCw_of_lt hi]
    exact markedIn_keyed.trans dscSetKey_keyed
  · simpa [dscSetCw, Nat.not_lt.mp hi] using .refl

theorem dscSetCw_keeps (hj : j < dscChannelNum) (hne : j ≠ descr.index)
    (hid : descr.index < dscChannelNum → (d.channels descr.index).id % 8 ≠ j) : Keeps p j d (dscSetCw p d descr).2 := by
  refine ⟨dscSetCw_keyed.others j hne, dscSetCw_keyed.entry, ?_⟩
  by_cases hi : descr.index < dscChannelNum
  · exact dscSetCw_keyed.keys j hj (hid hi)
  · simp [dscSetCw, Nat.not_lt.mp hi]

theorem dscSetCw_inUse : InUse (dscSetCw p d descr).2 c ↔ InUse d c := by
  rw [InUse, InUse, (dscSetCw_keyed.same c).1]

theorem dscSetCw_follows (h : Follows p d) : Follows p (dscSetCw p d descr).2 := by
  constructor
  · intro c hc
    exact (h.matching c hc).congr dscSetCw_keyed.entry (dscSetCw_keyed.same c).1 (dscSetCw_keyed.same c).2.2
  · intro c hc hused
    rw [(dscSetCw_keyed.same c).2.1]
    exact h.numbered c hc (dscSetCw_inUse.mp hused)

theorem configWord_enabled (mode : Mode) (algo : Algo) : (configWord mode algo).getLsbD 3 = true := by
  have hbit : (bit true 3).getLsbD 3 = true := by decide
  simp only [configWord, BitVec.getLsbD_or, hbit, Bool.or_true, Bool.true_or]

theorem markedIn_keyMode : keyMode ((markedIn d descr).channels descr.index) descr.type = askedMode d descr := by
  simp only [markedIn, update_self, marked, askedMode, keyMode]
  split <;> rfl

theorem onCiplus_markedIn : OnCiplus (markedIn d descr) c ↔ OnCiplus d c := by
  by_cases hc : c = descr.index
  · subst hc
    obtain ⟨set, mode, heq⟩ := @marked_eq (d.channels descr.index) descr
    simp [OnCiplus, InUse, markedIn, heq]
  · exact OnCiplus.congr (update_of_ne hc _ _)

theorem csaKeyed_workMode : (csaKeyed ch).workMode ≠ .ciplus := by
  unfold csaKeyed
  split
  · simp
  · rename_i hmode
    exact fun hciplus => hmode (.inl hciplus)

theorem dscSetCw_engine (hengine : Engine p d) (hi : descr.index < dscChannelNum) (hclean : CleanKey p d descr) :
    Engine p (dscSetCw p d descr).2 := by
  apply type_cases
  · intro hcsa
    apply Engine.of_none
    intro c hc hon
    by_cases hci : c = descr.index
    · rw [hci, dscSetCw_of_lt hi, dscSetKey_csa hcsa] at hon
      exact csaKeyed_workMode (by simpa using hon.2)
    · rw [OnCiplus.congr (dscSetCw_keyed.others c hci)] at hon
      exact hclean.2.1 hcsa c hc hci hon
  · intro hciplus c hc hon
    rw [dscSetCw_of_lt hi, dscSetKey_ciplus hciplus]
    exact ⟨configWord_enabled _ _, outputStb_outputStb _ _⟩
  · intro hcsa hciplus
    rw [dscSetCw_of_lt hi, dscSetKey_other hcsa hciplus]
    exact @Engine.of_same p d _ hengine rfl rfl rfl fun c _ hon => onCiplus_markedIn.mp hon

theorem dscSetCw_engineOf (hengine : Engine p d) (hi : descr.index < dscChannelNum) (hclean : CleanKey p d descr)
    (hj : j < dscChannelNum) (hne : j ≠ descr.index) (hon : OnCiplus d j) :
    engineOf (dscSetCw p d descr).2.hw (d.channels j) = engineOf d.hw (d.channels j) := by
  rw [dscSetCw_of_lt hi]
  apply type_cases
  · intro hcsa
    exact absurd hon (hclean.2.1 hcsa j hj hne)
  · intro hciplus
    obtain ⟨hconfig, hendian⟩ := hclean.2.2 hciplus j hj hne hon
    have hstb := (hengine j hj hon).2
    rw [← markedIn_keyMode] at hconfig
    rw [dscSetKey_ciplus hciplus]
    simp only [engineOf, hwdscSetAesDesSm4Key, ciPlusConfig, Prod.mk.injEq]
    refine ⟨hconfig, hendian, ?_⟩
    exact congrArg (· &&& _) hstb
  · intro hcsa hciplus
    rw [dscSetKey_other hcsa hciplus]
    rfl

/-! ## One request -/

theorem channelOfPid_lt (h : channelOfPid d pid = some i) : i < dscChannelNum := mem_range.mp (mem_of_find?_eq_some h)

/-- What `CA_SET_PID` can do: nothing, free the channel it names, or free and allocate it. -/
theorem dscSetPid_rule {Q : Dsc → Prop} {index : Int} (hsame : Q d)
    (hfree : ∀ i < dscChannelNum, Names d (.setPid pid index) i → Q (dscChannelFree p d i))
    (halloc : ∀ i < dscChannelNum, Names d (.setPid pid index) i → pid < 0x1fff#32 →
      Q (dscChannelAlloc p (dscChannelFree p d i) i pid)) : Q (dscSetPid p d pid index).2 := by
  unfold dscSetPid
  split
  next hindex =>
    cases hfound : channelOfPid d pid with
    | none => exact hsame
    | some i => exact hfree i (channelOfPid_lt hfound) (.inl ⟨hindex, hfound⟩)
  next =>
    split
    next hrange =>
      have hnames : Names d (.setPid pid index) index.toNat := .inr (Int.toNat_of_nonneg hrange.1).symm
      split
      next hpid => exact halloc _ (by omega) hnames hpid
      next => exact hfree _ (by omega) hnames
    next => exact hsame

theorem exec_follows (h : Follows p d) (req : Request) : Follows p (req.exec p d) := by
  cases req with
  | setPid pid index =>
    exact dscSetPid_rule h (fun _ hi _ => dscChannelFree_follows h hi)
      fun _ hi _ hpid => dscChannelAlloc_follows (dscChannelFree_follows h hi) hi hpid
  | setDescrEx descr => exact dscSetCw_follows h
  | reset => exact dscReset_follows h

/-- A reset leaves no channel in use. -/
theorem not_inUse_dscReset (hc : c < dscChannelNum) : ¬ InUse (dscReset p d) c := by
  have hkeep : ∀ (i : Nat) (d : Dsc), ¬ InUse d c → ¬ InUse (dscChannelFree p d i) c := by
    intro i d hfree
    by_cases hused : InUse d i
    · rw [dscChannelFree_of_inUse hused]
      by_cases hci : c = i
      · subst hci
        simp [InUse, freed]
      · simpa [InUse, update_of_ne hci] using hfree
    · rw [dscChannelFree_of_free hused]
      exact hfree
  -- the channels after its own turn leave it free
  obtain ⟨front, behind, hsplit⟩ := append_of_mem (mem_range.mpr hc)
  rw [dscReset, hsplit, foldl_append, foldl_cons]
  exact List.foldlRecOn (motive := (¬ InUse · c)) _ _ not_inUse_dscChannelFree fun d hfree i _ => hkeep i d hfree

theorem exec_engine (h : Follows p d) (hengine : Engine p d) (hclean : Clean p d req) : Engine p (req.exec p d) := by
  cases req with
  | setPid pid index =>
    have hfreed : ∀ i < dscChannelNum, Names d (.setPid pid index) i → Engine p (dscChannelFree p d i) := fun i hi hnames =>
      dscChannelFree_engine h hengine hi (hclean i hi hnames)
    exact dscSetPid_rule hengine hfreed fun i hi hnames _ => dscChannelAlloc_engine (hfreed i hi hnames) hi
  | setDescrEx descr =>
    by_cases hi : descr.index < dscChannelNum
    · exact dscSetCw_engine hengine hi (hclean hi)
    · simpa [Request.exec, dscSetCw, Nat.not_lt.mp hi] using hengine
  | reset =>
    apply Engine.of_none
    intro c hc hon
    exact not_inUse_dscReset hc hon.1

theorem exec_undisturbed (h : Follows p d) (hengine : Engine p d) (hclean : Clean p d req) : Undisturbed p d req := by
  intro j hj hused hnot
  cases req with
  | setPid pid index =>
    have hne : ∀ i, Names d (.setPid pid index) i → j ≠ i := fun i hnames hji => hnot (hji ▸ hnames)
    refine dscSetPid_rule (Q := fun d' => Keeps p j d d' ∧ (OnCiplus d j → engineOf d'.hw _ = _)) ⟨.refl, fun _ => rfl⟩
      (fun i hi hnames => ?_) fun i hi hnames _ => ?_
    · exact ⟨dscChannelFree_keeps h hi hj (hne i hnames), dscChannelFree_engineOf (hclean i hi hnames) hj (hne i hnames)⟩
    · exact ⟨(dscChannelFree_keeps h hi hj (hne i hnames)).trans (dscChannelAlloc_keeps hi hj (hne i hnames)),
        dscChannelFree_engineOf (hclean i hi hnames) hj (hne i hnames)⟩
  | setDescrEx descr =>
    have hne : j ≠ descr.index := fun hji => hnot hji.symm
    refine ⟨dscSetCw_keeps hj hne fun hi => (hclean hi).1 j hj hne hused, fun hon => ?_⟩
    by_cases hi : descr.index < dscChannelNum
    · exact dscSetCw_engineOf hengine hi (hclean hi) hj hne hon
    · simp [Request.exec, dscSetCw, Nat.not_lt.mp hi]
  | reset => exact absurd trivial hnot

/-! ## Runs -/

def run (p : Platform) (d : Dsc) (reqs : List Request) : Dsc := reqs.foldl (Request.exec p) d

def CleanRun (p : Platform) : Dsc → List Request → Prop
  | _, [] => True
  | d, req :: reqs => Clean p d req ∧ CleanRun p (req.exec p d) reqs

instance decidableCleanRun : (d : Dsc) → (reqs : List Request) → Decidable (CleanRun p d reqs)
  | _, [] => inferInstanceAs (Decidable True)
  | d, req :: reqs =>
    have := decidableCleanRun (req.exec p d) reqs
    inferInstanceAs (Decidable (_ ∧ _))

theorem run_follows (h : Follows p d) (reqs : List Request) : Follows p (run p d reqs) := by
  induction reqs generalizing d with
  | nil => exact h
  | cons req reqs ih => exact ih (exec_follows h req)

theorem run_engine {reqs : List Request} (h : Follows p d) (hengine : Engine p d) (hclean : CleanRun p d reqs) :
    Engine p (run p d reqs) := by
  induction reqs generalizing d with
  | nil => exact hengine
  | cons req reqs ih => exact ih (exec_follows h req) (exec_engine h hengine hclean.1) hclean.2

theorem cleanRun_append {reqs : List Request} (hclean : CleanRun p d (reqs ++ [req])) :
    CleanRun p d reqs ∧ Clean p (run p d reqs) req := by
  induction reqs generalizing d with
  | nil => exact ⟨trivial, hclean.1⟩
  | cons first reqs ih =>
    obtain ⟨hrest, hlast⟩ := ih hclean.2
    exact ⟨⟨hclean.1, hrest⟩, hlast⟩

theorem Fresh.engine (h : Fresh p d) : Engine p d := by
  apply Engine.of_none
  intro c hc hon
  exact hon.1 (h.free c hc)

/-- From a device just set up, after every run of requests the PID table follows the channels. After a run of clean requests the
engine is enabled while a channel in use has a key for it, and a further clean request disturbs no channel that it does not name. -/
theorem channels_undisturbed (hfresh : Fresh p d) (reqs : List Request) :
    (∀ c < dscChannelNum, EntryMatches p (run p d reqs) c) ∧
      (CleanRun p d reqs → ∀ c < dscChannelNum, OnCiplus (run p d reqs) c → engineEnabled (run p d reqs).hw = true) ∧
      ∀ req, CleanRun p d (reqs ++ [req]) → Undisturbed p (run p d reqs) req := by
  have hfollows := run_follows hfresh.follows reqs
  refine ⟨hfollows.matching, ?_, ?_⟩
  · intro hclean c hc hon
    exact (run_engine hfresh.follows (Fresh.engine hfresh) hclean c hc hon).1
  · intro req hclean
    obtain ⟨hbefore, hlast⟩ := cleanRun_append hclean
    exact exec_undisturbed hfollows (run_engine hfresh.follows (Fresh.engine hfresh) hbefore) hlast

/-! ## Two channels -/

/-- A device with bits 15 and 31 to disable a PID match. -/
def plainPlatform : Platform where
  pidMatchDisableLow := 15
  pidMatchDisableHigh := 31
  low_bounds := by decide
  high_bounds := by decide
  beforeSm1 := true
  isGxbb := false
  isGxlOrGxm := true
  dscId := 0
  source := some 0
  dst := some 0
  ciplusOutAutoMode := true

def plainDsc : Dsc where
  channels _ := ⟨.free, .unset, 0, 0x1fff#32, 0, .unset⟩
  hw :=
    { tsPlPid := fun _ => 0x9fff9fff#32
      ciplusConfig := 0
      ciplusEndian := 0
      stbTopConfig := 0
      ciplusKey := fun _ _ => ⟨(0, 0, 0, 0), false, false⟩
      commDescKey := fun _ => ⟨(0, 0), false⟩ }
  ciplusOutSel := 8

theorem plainDsc_fresh : Fresh plainPlatform plainDsc := by
  constructor
  · exact fun _ _ => rfl
  · exact fun _ _ => rfl
  · decide

def aesKey (index : Nat) : Request := .setDescrEx ⟨index, .aesEven, false, 0, fun _ => 0x5A⟩

/-- Channels 0 and 1 get a PID each and channel 0 an AES key. -/
def twoChannels : List Request := [.setPid 0x100 0, .setPid 0x200 1, aesKey 0]

theorem two_aes_channels : Fresh plainPlatform plainDsc ∧ CleanRun plainPlatform plainDsc (twoChannels ++ [aesKey 1]) ∧
      OnCiplus (run plainPlatform plainDsc twoChannels) 0 ∧
      Undisturbed plainPlatform (run plainPlatform plainDsc twoChannels) (aesKey 1) := by
  have hclean : CleanRun plainPlatform plainDsc (twoChannels ++ [aesKey 1]) := by decide +kernel
  exact ⟨plainDsc_fresh, hclean, by decide +kernel, (channels_undisturbed plainDsc_fresh twoChannels).2.2 _ hclean⟩

/-- Channel 1 has no key. To free it switches the engine off while channel 0 is on it. -/
theorem engine_switched_off : Fresh plainPlatform plainDsc ∧ CleanRun plainPlatform plainDsc twoChannels ∧
      OnCiplus (run plainPlatform plainDsc (twoChannels ++ [.setPid 0x1fff 1])) 0 ∧
      engineEnabled (run plainPlatform plainDsc (twoChannels ++ [.setPid 0x1fff 1])).hw = false ∧
      ¬ Undisturbed plainPlatform (run plainPlatform plainDsc twoChannels) (.setPid 0x1fff 1) := by
  refine ⟨plainDsc_fresh, by decide +kernel, by decide +kernel, by decide +kernel, fun hundisturbed => ?_⟩
  have hengine := (hundisturbed 0 (by decide) (by decide +kernel) (by decide +kernel)).2 (by decide +kernel)
  exact absurd hengine (by decide +kernel)

end AmlogicV901d.Guarantees.DescramblerChannels
