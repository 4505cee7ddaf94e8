import AmlogicV901d.Source.BootControl.Metadata

/-!
# A/B boot control commands

Source: bl33/common/cmd_bootctl_avb.c:203-241
and 265-503. Every command reads MISCBUF_SIZE bytes of the misc partition into a
cleared buffer without looking at the result, works on the copy of the block in
`info`, and writes the whole buffer back. `argv` is the argument vector with the
command name in front; `cmd_usage` returns 1.
-/
namespace AmlogicV901d.Source.BootControl
open Lib.ByteMemory

/-- Environment variables the commands set. -/
inductive EnvVar where
  | retryCountA
  | retryCountB
  | partitonMode
  | activeSlot
  | bootPart
  | slotSuffixes
  deriving DecidableEq, Repr

/-- Globals set from the device tree and the partition table. -/
structure BootConfig where
  hasBootSlot : Int
  dynamicPartition : Bool
  deriving DecidableEq, Repr

structure BootState where
  /-- the misc partition -/
  misc : Memory
  /-- `setenv` calls so far, the latest one last -/
  env : List (EnvVar × String)
  /-- the global `active_slot` -/
  activeSlot : Char

/-- Outcome of `store_read_ops`; a failed one leaves some bytes in the buffer. -/
inductive StoreRead where
  | ok
  | failed (left : Memory)

/-- The storage during one command: the read and every write. -/
structure StoreIo where
  read : StoreRead
  write : Bool

def storeWorks : StoreIo := ⟨.ok, true⟩

/-- Returns the status and `miscbuf`. -/
def bootInfoOpenPartition (io : StoreIo) (misc : Memory) : Int × Memory :=
  match io.read with
  | .ok => (0, memcpy zeroed 0 misc 0 miscbufSize)
  | .failed left => (-1, memcpy zeroed 0 left 0 miscbufSize)

def bootInfoLoad (miscbuf : Memory) : AvbABData := decodeAt miscbuf abMetadataMiscPartitionOffset

/-- Returns the sealed block, the buffer and the misc partition. The status of
`store_write_ops` is ignored. -/
def bootInfoSave (io : StoreIo) (info : AvbABData) (miscbuf misc : Memory) : AvbABData × Memory × Memory :=
  let info := info.seal
  let miscbuf := store miscbuf abMetadataMiscPartitionOffset info.encode
  (info, miscbuf, if io.write then memcpy misc 0 miscbuf 0 miscbufSize else misc)

/-- Locals of a command: `info`, `miscbuf`, and the partition they came from. -/
structure Session where
  info : AvbABData
  miscbuf : Memory
  misc : Memory

def Session.save (io : StoreIo) (s : Session) (info : AvbABData) : Session :=
  let (info, miscbuf, misc) := bootInfoSave io info s.miscbuf s.misc
  ⟨info, miscbuf, misc⟩

/-- The common start of the commands: read, load, and reset an invalid block. -/
def openValidated (io : StoreIo) (misc : Memory) : Session :=
  let (_, miscbuf) := bootInfoOpenPartition io misc
  let s : Session := ⟨bootInfoLoad miscbuf, miscbuf, misc⟩
  if bootInfoValidate s.info then s else s.save io bootInfoReset

def doResetAbMetadata (io : StoreIo) (argv : List String) (s : BootState) : Int × BootState :=
  if argv.length ≠ 1 then (1, s)
  else
    let (_, miscbuf) := bootInfoOpenPartition io s.misc
    let t : Session := ⟨bootInfoLoad miscbuf, miscbuf, s.misc⟩
    (0, { s with misc := (t.save io bootInfoReset).misc })

def doDecrementRetryCount (io : StoreIo) (argv : List String) (s : BootState) : Int × BootState :=
  if argv.length ≠ 1 then (1, s)
  else
    let t := openValidated io s.misc
    (0, { s with misc := (t.save io (decrementRetry t.info)).misc })

/-- `strcmp(argv[1], "a")` and `"b"`. -/
def slotArgument (argv : List String) : Option Slot :=
  match argv[1]? with
  | some "a" => some .a
  | some "b" => some .b
  | _ => none

def doMarkSlotSuccessful (io : StoreIo) (argv : List String) (s : BootState) : Int × BootState :=
  if argv.length ≠ 2 then (1, s)
  else
    let t := openValidated io s.misc
    match slotArgument argv with
    | none => (-1, { s with misc := t.misc })
    | some slot =>
      (0, { s with misc := (t.save io (bootInfoMarkSlotSuccessful t.info slot)).misc })

/-- `boot_info_normalize(&info, 0) || boot_info_normalize(&info, 1)` -/
def normalizeSlots (info : AvbABData) : Bool × AvbABData :=
  match bootInfoNormalize info .a with
  | (true, info) => (true, info)
  | (false, info) => bootInfoNormalize info .b

def Session.normalize (io : StoreIo) (s : Session) : Session :=
  match normalizeSlots s.info with
  | (true, info) => s.save io info
  | (false, _) => s

def slotSuffix : Slot → String
  | .a => "_a"
  | .b => "_b"

def slotBootPart : Slot → String
  | .a => "boot_a"
  | .b => "boot_b"

def slotNumber : Slot → String
  | .a => "0"
  | .b => "1"

def slotChar : Slot → Char
  | .a => 'a'
  | .b => 'b'

/-- The `setenv` calls for the chosen slot. -/
def selectEnv (cfg : BootConfig) (slot : Slot) : List (EnvVar × String) :=
  if cfg.hasBootSlot = 1 then
    [(.activeSlot, slotSuffix slot), (.bootPart, slotBootPart slot), (.slotSuffixes, slotNumber slot)]
  else [(.activeSlot, "normal"), (.bootPart, "boot")]

/-- The `setenv` calls made before a slot is chosen. -/
def statusEnv (cfg : BootConfig) (info : AvbABData) : List (EnvVar × String) :=
  (if cfg.hasBootSlot = 1 then
    [(.retryCountA, toString info.slotA.triesRemaining.toNat), (.retryCountB, toString info.slotB.triesRemaining.toNat)]
  else []) ++ [(.partitonMode, if cfg.dynamicPartition then "dynamic" else "normal")]

/-- A slot is chosen; without A/B partitions the choice has no name. -/
def selectSlot (cfg : BootConfig) (slot : Slot) (s : BootState) : BootState :=
  { s with
    env := s.env ++ selectEnv cfg slot
    activeSlot := if cfg.hasBootSlot = 1 then slotChar slot else s.activeSlot }

def doGetValidSlot (cfg : BootConfig) (io : StoreIo) (argv : List String) (s : BootState) : Int × BootState :=
  if argv.length ≠ 1 then (1, s)
  else
    let t := (openValidated io s.misc).normalize io
    let slot := getActiveSlot t.info
    let bootableA := slotIsBootable t.info.slotA
    let bootableB := slotIsBootable t.info.slotB
    let s := { s with misc := t.misc, env := s.env ++ statusEnv cfg t.info }
    if slot = .a ∧ bootableA then (0, selectSlot cfg .a s)
    else if slot = .b ∧ bootableB then (0, selectSlot cfg .b s)
    else (0, s)

def doSetActiveSlot (cfg : BootConfig) (io : StoreIo) (argv : List String) (s : BootState) : Int × BootState :=
  if argv.length ≠ 2 then (1, s)
  else if cfg.hasBootSlot = 0 then (-1, s)
  else
    let t := openValidated io s.misc
    match slotArgument argv with
    | none => (-1, { s with misc := t.misc })
    | some slot =>
      (0, { s with
        misc := (t.save io (bootInfoSetActiveSlot t.info slot)).misc
        env := s.env ++ [(.activeSlot, slotSuffix slot), (.slotSuffixes, slotNumber slot),
          (.bootPart, slotBootPart slot)] })

/-- The block a command finds in the misc partition. -/
def storedInfo (misc : Memory) : AvbABData := decodeAt misc abMetadataMiscPartitionOffset

theorem decodeAt_congr {m m' : Memory} {p : Nat} (h : ∀ i, i < 32 → m' (p + i) = m (p + i)) :
    decodeAt m' p = decodeAt m p := by
  have at' : ∀ k i, k + i < 32 → m' (p + k + i) = m (p + k + i) := fun k i hi => by
    rw [Nat.add_assoc]
    exact h (k + i) hi
  apply AvbABData.ext
  · exact loadVec_congr fun i hi => h i (by omega)
  · exact h 4 (by omega)
  · exact h 5 (by omega)
  · exact loadVec_congr fun i hi => at' 6 i (by omega)
  · exact decodeSlotAt_congr fun i hi => at' 8 i (by omega)
  · exact decodeSlotAt_congr fun i hi => at' 12 i (by omega)
  · exact loadVec_congr fun i hi => at' 16 i (by omega)
  · exact loadU32_congr fun i hi => at' 28 i (by omega)

theorem bootInfoLoad_open (misc : Memory) : bootInfoLoad (bootInfoOpenPartition storeWorks misc).2 = storedInfo misc :=
  decodeAt_congr fun i hi => memcpy_start (by
    simp only [miscbufSize, abMetadataMiscPartitionOffset]
    omega)

theorem storedInfo_save (s : Session) (info : AvbABData) : storedInfo (s.save storeWorks info).misc = info.seal := by
  have hread : decodeAt (store s.miscbuf abMetadataMiscPartitionOffset info.seal.encode)
      abMetadataMiscPartitionOffset = info.seal := decodeAt_store _ _ _
  rw [← hread]
  exact decodeAt_congr fun i hi => memcpy_start (by
    simp only [miscbufSize, abMetadataMiscPartitionOffset]
    omega)

theorem openValidated_valid (misc : Memory) (h : bootInfoValidate (storedInfo misc) = true) :
    (openValidated storeWorks misc).info = storedInfo misc ∧ (openValidated storeWorks misc).misc = misc := by
  have hload := bootInfoLoad_open misc
  simp only [openValidated, hload, h, if_true]
  exact ⟨trivial, trivial⟩

theorem doGetValidSlot_misc (cfg : BootConfig) (io : StoreIo) (argv : List String) (hargc : argv.length = 1)
    (s : BootState) : (doGetValidSlot cfg io argv s).2.misc = ((openValidated io s.misc).normalize io).misc := by
  unfold doGetValidSlot
  rw [if_neg (by omega)]
  dsimp only
  generalize (openValidated io s.misc).normalize io = t
  split
  · rfl
  · split <;> rfl

end AmlogicV901d.Source.BootControl
