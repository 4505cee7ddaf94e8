import Mathlib.Logic.Function.Basic

/-!
# Descrambler channels

`stream_input/parser/demux/aml_dsc.c`, hardware mode: the table of PID registers, the
configuration of the CI+ engine, its key store and that of the common descrambler. What is
written to the two key registers is kept as the fields its comments name.

The bits that disable a PID match are defined outside of the sources and are parameters
here: each lies in the half word of its PID, above the 13 bits of the PID. The CPU and the
ports of the device are parameters too.
-/
namespace AmlogicV901d.Source.AmlDsc

abbrev Reg := BitVec 32

def dscChannelNum : Nat := 8
def dscCount : Nat := 8

inductive DscState where
  | free | ready
  deriving DecidableEq

/-- `work_mode`: -1, a mode, or what `kmalloc` left. -/
inductive WorkMode where
  | unset | dvbcsa | ciplus | other (n : Nat)
  deriving DecidableEq

/-- `mode`: -1, a mode, or what `kmalloc` left. -/
inductive Mode where
  | unset | ecb | cbc | idsa | other (n : Nat)
  deriving DecidableEq

inductive Algo where
  | aes | sm4 | des
  deriving DecidableEq

/-- `enum ca_cw_type`, and any other number. -/
inductive CwType where
  | dvbCsaEven | dvbCsaOdd | aesEven | aesOdd | aesEvenIv | aesOddIv | desEven | desOdd
  | sm4Even | sm4Odd | sm4EvenIv | sm4OddIv | other (n : Nat)
  deriving DecidableEq

def CwType.toNat : CwType → Nat
  | .dvbCsaEven => 0 | .dvbCsaOdd => 1 | .aesEven => 2 | .aesOdd => 3 | .aesEvenIv => 4 | .aesOddIv => 5
  | .desEven => 6 | .desOdd => 7 | .sm4Even => 8 | .sm4Odd => 9 | .sm4EvenIv => 10 | .sm4OddIv => 11
  | .other n => 12 + n

structure DescChannel where
  state : DscState
  workMode : WorkMode
  id : Nat
  pid : Reg
  set : Reg
  mode : Mode
  deriving DecidableEq

structure Platform where
  pidMatchDisableLow : Nat
  pidMatchDisableHigh : Nat
  low_bounds : 13 ≤ pidMatchDisableLow ∧ pidMatchDisableLow < 16
  high_bounds : 29 ≤ pidMatchDisableHigh ∧ pidMatchDisableHigh < 32
  beforeSm1 : Bool
  isGxbb : Bool
  isGxlOrGxm : Bool
  dscId : Nat
  /-- The demux that feeds the device, and the one it feeds, if it is one of the three. -/
  source : Option (Fin 3)
  dst : Option (Fin 3)
  ciplusOutAutoMode : Bool

inductive KeyKind where
  | desA | desB | aesA | aesB | ivA | ivB
  deriving DecidableEq

/-- The words of `CIPLUS_KEY0` to `CIPLUS_KEY3`, and bits 6 and 8 of `CIPLUS_KEY_WR`. -/
structure CiplusKey where
  words : Reg × Reg × Reg × Reg
  useCw : Bool
  useCwHigh : Bool
  deriving DecidableEq

structure DescKey where
  words : Reg × Reg
  fromKl : Bool
  deriving DecidableEq

structure Hw where
  tsPlPid : Nat → Reg
  ciplusConfig : Reg
  ciplusEndian : Reg
  stbTopConfig : Reg
  ciplusKey : Nat → KeyKind → CiplusKey
  commDescKey : Nat → DescKey

structure Dsc where
  channels : Nat → DescChannel
  hw : Hw
  ciplusOutSel : Int

/-! ## The CI+ engine -/

def bit (b : Bool) (shift : Nat) : Reg := if b then 1#32 <<< shift else 0

/-- The word for `CIPLUS_CONFIG`. -/
def configWord (mode : Mode) (algo : Algo) : Reg :=
  bit (mode = .idsa) 31 ||| bit (algo = .sm4) 30 ||| bit (mode ≠ .idsa ∧ mode ≠ .cbc) 2 ||| bit true 3 ||| bit true 1 |||
    bit (algo = .des) 0

/-- The word for `CIPLUS_ENDIAN`. -/
def endianWord (p : Platform) (keyEndian : Reg) : Reg :=
  if p.beforeSm1 then
    (15#32 <<< 24) ||| (15#32 <<< 20) ||| (keyEndian <<< 16) ||| (15#32 <<< 8) ||| (15#32 <<< 4) ||| keyEndian
  else 0

def ciPlusConfig (p : Platform) (keyEndian : Reg) (mode : Mode) (algo : Algo) (hw : Hw) : Hw :=
  { hw with ciplusEndian := endianWord p keyEndian, ciplusConfig := configWord mode algo }

/-- `STB_TOP_CONFIG` with the input and output of CI+. -/
def setInOut (stbTopConfig input output : Reg) : Reg :=
  ((((stbTopConfig &&& ~~~(3#32 <<< 26)) ||| (input <<< 26)) &&& ~~~(7#32 <<< 28)) ||| (output <<< 28))

def ciPlusIn (p : Platform) : Reg :=
  match p.source with
  | some n => BitVec.ofNat 32 n.val
  | none => 0

def ciPlusOut (p : Platform) : Reg :=
  match p.dst with
  | some n => 1#32 <<< n.val
  | none => 0

def ciPlusSetOutput (p : Platform) (d : Dsc) : Dsc :=
  if p.dscId ≠ 0 then d
  else if p.ciplusOutAutoMode then
    { d with
      ciplusOutSel := (ciPlusOut p).toNat
      hw := { d.hw with stbTopConfig := setInOut d.hw.stbTopConfig (ciPlusIn p) (ciPlusOut p) } }
  else if d.ciplusOutSel ≥ 0 ∧ d.ciplusOutSel ≤ 7 then
    { d with hw := { d.hw with stbTopConfig := setInOut d.hw.stbTopConfig (ciPlusIn p) (BitVec.ofInt 32 d.ciplusOutSel) } }
  else d

def ciPlusDisable (hw : Hw) : Hw :=
  { hw with
    ciplusConfig := 0
    stbTopConfig := hw.stbTopConfig &&& ~~~((1#32 <<< 26) ||| (7#32 <<< 28)) }

/-! ## PIDs -/

def isDsc2 (p : Platform) : Bool := p.dscId = 1

def pidIndex (p : Platform) (id : Nat) : Nat := (id % 16) / 2 + if isDsc2 p then 4 else 0

def hwdscChSetPid (p : Platform) (ch : DescChannel) (pid : Reg) (hw : Hw) : Hw :=
  let data := hw.tsPlPid (pidIndex p ch.id)
  let data :=
    if ch.id % 2 = 1 then
      (data &&& 0xFFFF0000#32) ||| (pid &&& 0x1fff#32) ||| bit (ch.state = .free) p.pidMatchDisableLow
    else
      (data &&& 0xFFFF#32) ||| ((pid &&& 0x1fff#32) <<< 16) ||| bit (ch.state = .free) p.pidMatchDisableHigh
  { hw with tsPlPid := Function.update hw.tsPlPid (pidIndex p ch.id) data }

def dscChannelAlloc (p : Platform) (d : Dsc) (id : Nat) (pid : Reg) : Dsc :=
  let ch : DescChannel := ⟨.ready, .unset, id, pid, 0, .unset⟩
  { d with channels := Function.update d.channels id ch, hw := hwdscChSetPid p ch pid d.hw }

def dscChannelFree (p : Platform) (d : Dsc) (i : Nat) : Dsc :=
  let ch := d.channels i
  if ch.state = .free then d
  else
    let ch := { ch with state := .free }
    { d with
      hw := ciPlusDisable (hwdscChSetPid p ch 0x1fff#32 d.hw)
      channels := Function.update d.channels i { ch with pid := 0x1fff#32, set := 0, workMode := .unset, mode := .unset } }

def dscReset (p : Platform) (d : Dsc) : Dsc := (List.range dscChannelNum).foldl (dscChannelFree p) d

/-! ## Keys -/

/-- Four bytes of a key, the first one on top. -/
def wordBe (cw : Nat → BitVec 8) (i : Nat) : Reg :=
  ((cw i).setWidth 32 <<< 24) ||| ((cw (i + 1)).setWidth 32 <<< 16) ||| ((cw (i + 2)).setWidth 32 <<< 8) ||| (cw (i + 3)).setWidth 32

def wordLe (cw : Nat → BitVec 8) (i : Nat) : Reg :=
  (cw i).setWidth 32 ||| ((cw (i + 1)).setWidth 32 <<< 8) ||| ((cw (i + 2)).setWidth 32 <<< 16) ||| ((cw (i + 3)).setWidth 32 <<< 24)

/-- What a key type sets up: the kinds of key it writes without and with the key ladder, the
mode the channel gets, whether it gets it only if it has none, and the algorithm. -/
def keySetup : CwType → List KeyKind × List KeyKind × Mode × Bool × Algo
  | .aesEven => ([.aesA], [.aesB], .ecb, true, .aes)
  | .sm4Even => ([.aesA], [.aesB], .ecb, true, .sm4)
  | .aesOdd => ([.aesB], [.aesA], .ecb, true, .aes)
  | .sm4Odd => ([.aesB], [.aesA], .ecb, true, .sm4)
  | .aesEvenIv => ([.ivA], [.ivA], .cbc, true, .aes)
  | .sm4EvenIv => ([.ivA], [.ivA], .cbc, true, .sm4)
  | .aesOddIv => ([.ivB], [.ivB], .cbc, true, .aes)
  | .sm4OddIv => ([.ivB], [.ivB], .cbc, true, .sm4)
  | .desEven => ([.desA], [.desA], .ecb, false, .des)
  | .desOdd => ([.desB], [.desB], .ecb, false, .des)
  | _ => ([], [], .unset, true, .aes)

def isIv : CwType → Bool
  | .aesEvenIv | .sm4EvenIv | .aesOddIv | .sm4OddIv => true
  | _ => false

def isDes : CwType → Bool
  | .desEven | .desOdd => true
  | _ => false

/-- The mode of a channel after a key of this type. -/
def keyMode (ch : DescChannel) (type : CwType) : Mode :=
  if (keySetup type).2.2.2.1 ∧ ch.mode ≠ .unset then ch.mode else (keySetup type).2.2.1

def hwdscSetAesDesSm4Key (p : Platform) (ch : DescChannel) (fromKl : Bool) (type : CwType) (key : Nat → BitVec 8) (hw : Hw) : Hw :=
  let words : Reg × Reg × Reg × Reg :=
    if fromKl then (0, 0, 0, 0)
    else if p.beforeSm1 then (wordBe key 12, wordBe key 8, wordBe key 4, wordBe key 0)
    else (wordLe key 0, wordLe key 4, wordLe key 8, wordLe key 12)
  let kinds := if fromKl then (keySetup type).2.1 else (keySetup type).1
  let hw := ciPlusConfig p (if fromKl then 7 else 0) (keyMode ch type) (keySetup type).2.2.2.2 hw
  let stored : CiplusKey :=
    { words := if isDes type then (words.2.2.1, words.2.2.2, 0, 0) else words
      useCw := fromKl && !isIv type
      useCwHigh := fromKl && isDes type }
  { hw with
    ciplusKey := Function.update hw.ciplusKey (ch.id % 8) fun kind =>
      if kind ∈ kinds then stored else hw.ciplusKey (ch.id % 8) kind }

/-- The low five bits of what goes to `COMM_DESC_KEY_RW`; its flags start at bit 5. -/
def descSlot (p : Platform) (id : Nat) (type : CwType) : Nat := (id + type.toNat * dscCount + if isDsc2 p then 16 else 0) % 32

def hwdscSetCsaKey (p : Platform) (ch : DescChannel) (fromKl : Bool) (type : CwType) (key : Nat → BitVec 8) (hw : Hw) : Hw :=
  if fromKl then
    -- only these CPUs write `COMM_DESC_KEY_RW`
    if p.isGxbb ∨ p.isGxlOrGxm then
      { hw with commDescKey := Function.update hw.commDescKey (descSlot p ch.id type) ⟨(0, 0), true⟩ }
    else hw
  else
    { hw with commDescKey := Function.update hw.commDescKey (descSlot p ch.id type) ⟨(wordBe key 0, wordBe key 4), false⟩ }

def isCsa : CwType → Bool
  | .dvbCsaEven | .dvbCsaOdd => true
  | _ => false

def isCiplus : CwType → Bool
  | .dvbCsaEven | .dvbCsaOdd | .other _ => false
  | _ => true

def dscSetKey (p : Platform) (d : Dsc) (i : Nat) (fromKl : Bool) (type : CwType) (key : Nat → BitVec 8) : Dsc :=
  let ch := d.channels i
  if isCsa type then
    let hw := hwdscSetCsaKey p ch fromKl type key (ciPlusDisable d.hw)
    let ch := if ch.workMode = .ciplus ∨ ch.workMode = .unset then { ch with mode := .ecb, workMode := .dvbcsa } else ch
    { d with hw, channels := Function.update d.channels i ch }
  else if isCiplus type then
    let d := ciPlusSetOutput p d
    let hw := hwdscSetAesDesSm4Key p ch fromKl type key d.hw
    let ch := { ch with mode := keyMode ch type }
    let ch := if ch.workMode = .dvbcsa ∨ ch.workMode = .unset then { ch with workMode := .ciplus } else ch
    { d with hw, channels := Function.update d.channels i ch }
  else d

structure CaDescrEx where
  index : Nat
  type : CwType
  isIdsa : Bool
  flags : Reg
  cw : Nat → BitVec 8

def dscSetCw (p : Platform) (d : Dsc) (descr : CaDescrEx) : Int32 × Dsc :=
  if descr.index ≥ dscChannelNum then (-22, d)
  else
    let ch := d.channels descr.index
    let ch := { ch with set := ch.set ||| (1#32 <<< descr.type.toNat) ||| (descr.flags <<< 24) }
    let ch := if descr.isIdsa then { ch with mode := .idsa } else ch
    let d := { d with channels := Function.update d.channels descr.index ch }
    (0, dscSetKey p d descr.index (descr.flags.getLsbD 0) descr.type descr.cw)

/-! ## Requests -/

/-- The channel that a PID is freed of. -/
def channelOfPid (d : Dsc) (pid : Reg) : Option Nat :=
  (List.range dscChannelNum).find? fun i => (d.channels i).state ≠ .free ∧ (d.channels i).pid = pid

def dscSetPid (p : Platform) (d : Dsc) (pid : Reg) (index : Int) : Int32 × Dsc :=
  if index = -1 then
    match channelOfPid d pid with
    | some i => (0, dscChannelFree p d i)
    | none => (0, d)
  else if 0 ≤ index ∧ index < dscChannelNum then
    if pid < 0x1fff#32 then (0, dscChannelAlloc p (dscChannelFree p d index.toNat) index.toNat pid)
    else (0, dscChannelFree p d index.toNat)
  else (-22, d)

inductive Request where
  | setPid (pid : Reg) (index : Int)
  | setDescrEx (descr : CaDescrEx)
  | reset

def Request.exec (p : Platform) (d : Dsc) : Request → Dsc
  | .setPid pid index => (dscSetPid p d pid index).2
  | .setDescrEx descr => (dscSetCw p d descr).2
  | .reset => dscReset p d

end AmlogicV901d.Source.AmlDsc
