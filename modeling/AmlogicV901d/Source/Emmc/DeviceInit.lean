import AmlogicV901d.Source.Emmc.Reserved

/-!
# Partition tables at device initialisation

`bl33/drivers/mmc/aml_emmc_partition.c:104-113, 307-332, 435-470, 1271-1395`.

`device_boot_flag` is `EMMC_BOOT_FLAG` (no NAND), so the storage is the main one. The
identity data that are set up behind the tables are modelled elsewhere. Allocations succeed.
-/
namespace AmlogicV901d.Source.Emmc
open Lib.ByteMemory

variable {capacity : UInt64} {inh table ept : List Partitions} {s : BootState} {t : TableStage} {fuel : Nat}

/-- MMC_RESERVED_NAME with MMC_RESERVED_SIZE, 64 MiB -/
def inherentReserved : Partitions :=
  ⟨#v[0x72, 0x65, 0x73, 0x65, 0x72, 0x76, 0x65, 0x64, 0, 0, 0, 0, 0, 0, 0, 0], 0x4000000, 0, 0, 0⟩

/-- `emmc_partition_table` as linked. -/
def emmcPartitionTable : List Partitions := [inherentBoot, inherentReserved]

/-- What `strcmp` sees of a name: a name of 16 bytes runs on into the fields behind
it. -/
def Partitions.nameString (p : Partitions) : List UInt8 := p.encode.takeWhile (· != 0)

def isPrioPartition (list : List Partitions) (part : Partitions) : Option Nat :=
  list.findIdx? fun p => p.nameString == part.nameString

/-- `*dst = *src` -/
def placeEntry (ept : List Partitions) (src : Partitions) : List Partitions :=
  match isPrioPartition ept src with
  | some i => ept.set i src
  | none => ept ++ [src]

/-- The rounds of `compose_ept` that are left, over the entries that are left. `none`
is a read behind the entries of the device tree. -/
def composeFrom : Nat → List Partitions → List Partitions → Option (List Partitions)
  | 0, _, ept => some ept
  | _ + 1, [], _ => none
  | n + 1, src :: rest, ept =>
    let ept := placeEntry ept src
    if src.size = fillMarker then some ept else composeFrom n rest ept

/-- The entries are those of `inh`, then those of `dtb`. -/
def composeEpt (dtb inh : List Partitions) : Option (List Partitions) :=
  composeFrom maxMmcPartNum (inh ++ dtb) []

structure BootState where
  device : BlockDevice
  /-- `emmc_partition_table` -/
  inh : List Partitions
  /-- `p_iptbl_ept`, once it is allocated -/
  ept : Option (List Partitions)

/-- What the first part of `mmc_device_init` did; `out` says that it jumped over
the boot records. -/
structure TableStage where
  ret : Int
  state : BootState
  ept : List Partitions
  rsvUpdated : Bool
  out : Bool

/-- The table from the device tree, laid out, with the status of the layout. An
empty table is refused by `_calculate_offset` as well. -/
def dtbTable (capacity : UInt64) (inh : List Partitions) : Option (List Partitions) → Option (Int × List Partitions)
  | none => some (0, [])
  | some dtb => (composeEpt dtb inh).map (calculateOffset true capacity true)

/-- From `get_ptbl_rsv` to the update of the reserved area. -/
def rsvStage (s : BootState) (ept : List Partitions) (hasDtb : Bool) : TableStage :=
  let (ret, rsv) := getPtblRsv s.device s.inh []
  if hasDtb then
    if rsv ≠ [] ∧ cmpIptbl ept rsv = 0 then ⟨0, s, ept, false, false⟩
    else
      let (ret, device) := updatePtblRsv s.device s.inh ept
      ⟨ret, { s with device := device }, ept, true, false⟩
  else if rsv ≠ [] then
    let ept := cpyIptbl ept rsv
    ⟨ret, { s with ept := some ept }, ept, false, false⟩
  else ⟨-9, s, ept, false, true⟩

def tableStage (s : BootState) (dtb : Option (List Partitions)) : Option TableStage :=
  let inh := (calculateOffset true s.device.capacity false s.inh).2
  let ret := if s.ept.isSome then 1 else 0
  match dtbTable s.device.capacity inh dtb with
  | none => none
  | some (status, ept) =>
    let s := { s with inh := inh, ept := some ept }
    if status ≠ 0 then some ⟨ret, s, ept, false, true⟩ else some (rsvStage s ept dtb.isSome)

/-- `ret |= status` for a status of 0 or 1. -/
def orStatus (ret status : Int) : Int :=
  if status = 0 then ret else if ret % 2 = 0 then ret + 1 else ret

structure InitResult where
  ret : Int
  state : BootState
  ept : List Partitions
  rsvUpdated : Bool
  mbrUpdated : Bool

/-- `gxlOrLater` is the test on `family_id`; `fuel` bounds the chain that
`_check_ptbl_mbr` follows. -/
def mbrStage (gxlOrLater : Bool) (fuel : Nat) (t : TableStage) : Option InitResult :=
  if t.out ∨ ¬ gxlOrLater then some ⟨t.ret, t.state, t.ept, t.rsvUpdated, false⟩
  else
    match checkPtblMbr t.state.device fuel t.ept with
    | none => none
    | some status =>
      if status = 0 then some ⟨t.ret, t.state, t.ept, t.rsvUpdated, false⟩
      else
        let (mbr, device) := updatePtblMbr t.state.device t.ept
        some ⟨orStatus t.ret mbr, { t.state with device := device }, t.ept, t.rsvUpdated, true⟩

def mmcDeviceInit (gxlOrLater : Bool) (fuel : Nat) (s : BootState)
    (dtb : Option (List Partitions)) : Option InitResult :=
  (tableStage s dtb).bind (mbrStage gxlOrLater fuel)

/-! ## The inherent table -/

/-- The inherent table as linked, or as an earlier run in the same boot left it. -/
def InhReady (capacity : UInt64) (inh : List Partitions) : Prop :=
  inh = emmcPartitionTable ∨ inh = (calculateOffset true capacity false emmcPartitionTable).2

theorem calculateOffset_inherent (capacity : UInt64) (r : Partitions) :
    calculateOffset true capacity false [inherentBoot, r] = (0, [inherentBoot, { r with
        offset := 0x2400000
        size := if 0x2400000 + r.size > capacity ∨ r.size = fillMarker then capacity - 0x2400000
          else r.size }]) := by
  have hboot : nameIs inherentBoot.name mmcBootName = true := by decide
  have hgap : firstGap inherentBoot = mmcBootPartitionReserved := by decide
  have hstart : (0 : UInt64) + inherentBoot.size + mmcBootPartitionReserved = 0x2400000 := by decide
  rw [calculateOffset, hgap, hboot, layoutFrom_cons]
  dsimp only
  rw [hstart]
  split <;> rfl

/-- The inherent table as a run lays it out. -/
abbrev BootState.laid (s : BootState) : List Partitions := (calculateOffset true s.device.capacity false s.inh).2

theorem InhReady.layout (h : InhReady s.device.capacity s.inh) :
    s.laid = (calculateOffset true s.device.capacity false emmcPartitionTable).2 := by
  unfold BootState.laid
  rcases h with h | h <;> rw [h]
  rw [emmcPartitionTable, calculateOffset_inherent, calculateOffset_inherent]
  by_cases hcut : 0x2400000 + inherentReserved.size > s.device.capacity ∨ inherentReserved.size = fillMarker
  · simp only [if_pos hcut, ite_self]
  · simp only [if_neg hcut]

theorem InhReady.rsvOffset_eq (h : InhReady s.device.capacity s.inh) : rsvOffset s.laid = 0x2400000 := by
  rw [h.layout, emmcPartitionTable, calculateOffset_inherent]
  rfl

/-! ## Composition keeps the boot area in front -/

theorem placeEntry_head (p : Partitions) (ept : List Partitions) (src : Partitions) :
    ∃ q rest, placeEntry (p :: ept) src = q :: rest ∧ q.nameString = p.nameString := by
  unfold placeEntry
  cases hprio : isPrioPartition (p :: ept) src with
  | none => exact ⟨p, ept ++ [src], rfl, rfl⟩
  | some i =>
    cases i with
    | zero =>
      refine ⟨src, ept, rfl, ?_⟩
      have hname := (List.findIdx?_eq_some_iff_getElem.mp hprio).2.1
      exact (beq_iff_eq.mp hname).symm
    | succ i => exact ⟨p, ept.set i src, rfl, rfl⟩

theorem composeFrom_head (n : Nat) (entries : List Partitions) (p : Partitions) (ept r : List Partitions)
    (h : composeFrom n entries (p :: ept) = some r) : ∃ q rest, r = q :: rest ∧ q.nameString = p.nameString := by
  induction n generalizing entries p ept with
  | zero => exact ⟨p, ept, (Option.some.inj h).symm, rfl⟩
  | succ n ih =>
    cases entries with
    | nil => exact absurd h (by simp [composeFrom])
    | cons src entries =>
      obtain ⟨q, rest, hplace, hname⟩ := placeEntry_head p ept src
      rw [composeFrom, hplace] at h
      split at h
      · exact ⟨q, rest, (Option.some.inj h).symm, hname⟩
      · obtain ⟨q', rest', hr, hname'⟩ := ih entries q rest h
        exact ⟨q', rest', hr, hname'.trans hname⟩

theorem composeEpt_head {dtb r : List Partitions} {p : Partitions} (h : composeEpt dtb (p :: inh) = some r) :
    ∃ q rest, r = q :: rest ∧ q.nameString = p.nameString := by
  rw [composeEpt, maxMmcPartNum, List.cons_append, composeFrom] at h
  split at h
  · exact ⟨p, [], (Option.some.inj h).symm, rfl⟩
  · exact composeFrom_head _ _ _ _ _ h

theorem nameIs_of_nameString {p : Partitions} {s : List UInt8} (h : p.nameString = s)
    (hlen : s.length < 16) : nameIs p.name s = true := by
  have happ : p.encode = p.name.toList ++ p.encode.drop 16 := by
    simp [Partitions.encode]
  rw [Partitions.nameString, happ, List.takeWhile_append] at h
  split at h
  · rw [← h, List.length_append, Vector.length_toList] at hlen
    omega
  · exact beq_iff_eq.mpr h

theorem InhReady.firstGap_eq {r : List Partitions} (h : InhReady s.device.capacity s.inh)
    (hcomp : composeEpt table s.laid = some r) :
    ∃ q rest, r = q :: rest ∧ firstGap q = mmcBootPartitionReserved := by
  rw [h.layout, emmcPartitionTable, calculateOffset_inherent] at hcomp
  obtain ⟨q, rest, hr, hname⟩ := composeEpt_head hcomp
  have hboot : q.nameString = mmcBootName := hname.trans (by decide)
  refine ⟨q, rest, hr, ?_⟩
  rw [firstGap, if_pos (nameIs_of_nameString hboot (by decide))]

/-! ## What the stages can do -/

theorem rsvStage_dtb (s : BootState) (ept : List Partitions) : rsvStage s ept true =
      if (getPtblRsv s.device s.inh []).2 ≠ [] ∧ cmpIptbl ept (getPtblRsv s.device s.inh []).2 = 0 then
        ⟨0, s, ept, false, false⟩
      else ⟨(updatePtblRsv s.device s.inh ept).1, { s with device := (updatePtblRsv s.device s.inh ept).2 }, ept,
        true, false⟩ := rfl

theorem rsvStage_noDtb (s : BootState) (ept : List Partitions) : rsvStage s ept false =
      if (getPtblRsv s.device s.inh []).2 ≠ [] then
        ⟨(getPtblRsv s.device s.inh []).1, { s with ept := some (cpyIptbl ept (getPtblRsv s.device s.inh []).2) },
          cpyIptbl ept (getPtblRsv s.device s.inh []).2, false, false⟩
      else ⟨-9, s, ept, false, true⟩ := rfl

theorem rsvStage_ept (s : BootState) (ept : List Partitions) : (rsvStage s ept true).ept = ept := by
  rw [rsvStage_dtb]
  split <;> rfl

theorem tableStage_some_eq {ept0 : List Partitions} (hcomp : composeEpt table s.laid = some ept0)
    (hlay : calculateOffset true s.device.capacity true ept0 = (0, ept)) :
    tableStage s (some table) = some (rsvStage { s with inh := s.laid, ept := some ept } ept true) := by
  unfold tableStage dtbTable
  dsimp only
  rw [hcomp, Option.map_some, hlay]
  rfl

theorem tableStage_none_eq (s : BootState) :
    tableStage s none = some (rsvStage { s with inh := s.laid, ept := some [] } [] false) := rfl

theorem tableStage_none (h : tableStage s none = some t) : t.state.device = s.device := by
  rw [tableStage_none_eq, rsvStage_noDtb] at h
  rw [← Option.some.inj h]
  split <;> rfl

/-- A run with a device tree that reaches the boot records. -/
theorem tableStage_some (h : tableStage s (some table) = some t) (hout : t.out = false) :
    ∃ ept, composeEpt table s.laid = some ept ∧ calculateOffset true s.device.capacity true ept = (0, t.ept) ∧
      t = rsvStage { s with inh := s.laid, ept := some t.ept } t.ept true := by
  unfold tableStage dtbTable at h
  dsimp only at h
  cases hcomp : composeEpt table s.laid with
  | none =>
    rw [hcomp] at h
    exact absurd h (by simp)
  | some ept =>
    rw [hcomp, Option.map_some] at h
    cases hlay : calculateOffset true s.device.capacity true ept with
    | mk status laid =>
      rw [hlay] at h
      dsimp only at h
      by_cases hstatus : status = 0
      · rw [if_neg (not_not_intro hstatus)] at h
        have ht := Option.some.inj h
        have hept : t.ept = laid := by
          rw [← ht]
          exact rsvStage_ept _ laid
        rw [hept]
        exact ⟨ept, rfl, by rw [hlay, hstatus], ht.symm⟩
      · rw [if_pos hstatus] at h
        rw [← Option.some.inj h] at hout
        exact absurd hout (by simp)

theorem mbrStage_cases {gxlOrLater : Bool} {r : InitResult} (h : mbrStage gxlOrLater fuel t = some r) :
    r.ept = t.ept ∧ r.rsvUpdated = t.rsvUpdated ∧ (r.state.device = t.state.device ∨
        r.state.device = (updatePtblMbr t.state.device t.ept).2) := by
  unfold mbrStage at h
  split at h
  · rw [← Option.some.inj h]
    exact ⟨rfl, rfl, .inl rfl⟩
  cases hcheck : checkPtblMbr t.state.device fuel t.ept with
  | none =>
    rw [hcheck] at h
    exact absurd h (by simp)
  | some status =>
    rw [hcheck] at h
    dsimp only at h
    split at h
    · rw [← Option.some.inj h]
      exact ⟨rfl, rfl, .inl rfl⟩
    · rw [← Option.some.inj h]
      exact ⟨rfl, rfl, .inr rfl⟩

theorem mmcDeviceInit_cases {gxlOrLater : Bool} {dtb : Option (List Partitions)} {r : InitResult}
    (h : mmcDeviceInit gxlOrLater fuel s dtb = some r) (ht : tableStage s dtb = some t) :
    r.ept = t.ept ∧ r.rsvUpdated = t.rsvUpdated ∧ (r.state.device = t.state.device ∨
        r.state.device = (updatePtblMbr t.state.device t.ept).2) := by
  rw [mmcDeviceInit, ht] at h
  exact mbrStage_cases h

theorem mmcDeviceInit_older {dtb : Option (List Partitions)} (ht : tableStage s dtb = some t) :
    mmcDeviceInit false fuel s dtb = some ⟨t.ret, t.state, t.ept, t.rsvUpdated, false⟩ := by
  rw [mmcDeviceInit, ht, Option.bind_some, mbrStage, if_pos (.inr (by decide))]

theorem tableStage_frame (hinh : InhReady s.device.capacity s.inh) (h : tableStage s (some table) = some t)
    (hout : t.out = false) : t.state.device.capacity = s.device.capacity ∧
      ∀ a, a < 0x2400000 ∨ 0x2400600 ≤ a → t.state.device.user a = s.device.user a := by
  obtain ⟨_, _, _, ht⟩ := tableStage_some h hout
  have hoff := hinh.rsvOffset_eq
  rw [ht, rsvStage_dtb]
  split
  · exact ⟨rfl, fun _ _ => rfl⟩
  refine ⟨updatePtblRsv_capacity _ _ _, fun a ha => updatePtblRsv_outside _ _ _ ?_⟩
  rw [hoff]
  exact ha

end AmlogicV901d.Source.Emmc
