import AmlogicV901d.Guarantees.MbrRoundTrip

/-!
# The reserved copy of the partition table

`update_ptbl_rsv` and `get_ptbl_rsv` are inverse on the table, and a refused copy
leaves the destination alone (aml_emmc_partition.c:472-578). `mmc_device_init`
rewrites the copy when `_cmp_iptbl` finds a difference, and `_cmp_iptbl` sees
neither names nor masks: a copy that differs only there stays, and a later run
without a device tree takes it for the table.
-/
namespace AmlogicV901d.Guarantees.PartitionConvergence
open Lib.ByteMemory Source.Emmc MbrRoundTrip

variable {gxlOrLater : Bool} {fuel : Nat} {s : BootState} {table : List Partitions} {t : TableStage} {r : InitResult}

/-- The copy that a run of `mmc_device_init` finds. -/
def storedTable (s : BootState) : List Partitions :=
  (getPtblRsv s.device (calculateOffset true s.device.capacity false s.inh).2 []).2

/-- The copy compares equal to the table but is another one. -/
def StaleCopy (s : BootState) (ept : List Partitions) : Prop :=
  storedTable s ≠ [] ∧ cmpIptbl ept (storedTable s) = 0 ∧ storedTable s ≠ ept

/-- What later runs on a device do, in the same boot or after a reset. -/
structure Settled (device : BlockDevice) (table ept : List Partitions) : Prop where
  sameDtb : ∀ s : BootState, s.device = device → InhReady device.capacity s.inh →
    (∃ t, tableStage s (some table) = some t ∧ t.out = false ∧ t.ret = 0) ∧
      ∀ gxlOrLater fuel r, mmcDeviceInit gxlOrLater fuel s (some table) = some r → r.rsvUpdated = false ∧ r.ept = ept
  noDtb : ∀ s : BootState, s.device = device → InhReady device.capacity s.inh →
    (∃ t, tableStage s none = some t ∧ t.out = false) ∧
      ∀ gxlOrLater fuel r, mmcDeviceInit gxlOrLater fuel s none = some r → r.ept = ept

theorem cmpEntries_self (tbl : List Partitions) : cmpEntries tbl tbl = 0 := by
  induction tbl with
  | nil => rfl
  | cons p rest ih =>
    have hsame : cmpPartition p p = 0 := by simp [cmpPartition]
    rw [cmpEntries, hsame]
    exact ih

theorem accepted_ne_nil {main bottom : Bool} {capacity : UInt64} {itbl tbl : List Partitions}
    (h : calculateOffset main capacity bottom itbl = (0, tbl)) : tbl ≠ [] := by
  cases itbl with
  | nil =>
    have hret : (-1 : Int) = 0 := congrArg Prod.fst h
    exact nomatch hret
  | cons part rest =>
    have htbl : (calculateOffset main capacity bottom (part :: rest)).2 = tbl := congrArg Prod.snd h
    rw [← htbl]
    exact List.cons_ne_nil _ _

/-- Neither stage writes the blocks of the copy after `update_ptbl_rsv`. -/
theorem storedTable_after (hinh : InhReady s.device.capacity s.inh) (ht : tableStage s (some table) = some t)
    (hout : t.out = false) (hfit : SectorsFit t.ept) (hr : mmcDeviceInit gxlOrLater fuel s (some table) = some r) :
    r.state.device.capacity = s.device.capacity ∧
      getPtblRsv r.state.device s.laid [] = getPtblRsv t.state.device s.laid [] := by
  obtain ⟨ept, hcomp, hlay, _⟩ := tableStage_some ht hout
  obtain ⟨q, rest, hq, hgap⟩ := hinh.firstGap_eq hcomp
  rw [hq] at hlay
  have hcap := (tableStage_frame hinh ht hout).1
  obtain ⟨_, _, hdev | hdev⟩ := mmcDeviceInit_cases hr ht
  · rw [hdev]
    exact ⟨hcap, rfl⟩
  refine ⟨by rw [hdev, updatePtblMbr_capacity, hcap], ?_⟩
  rw [hdev]
  refine getPtblRsv_congr (updatePtblMbr_capacity _ _) (fun a hlo hhi => ?_) []
  rw [hinh.rsvOffset_eq] at hlo hhi
  have hblock : ((0x2400000 : UInt64) / 512).toNat = 0x12000 := by decide
  refine updatePtblMbr_frame _ _ (by omega) fun j hj hjl => .inl ?_
  have habove := offset_above hlay hfit hgap hj hjl
  have hreserved : partitionReserved.toNat = 0x800000 := rfl
  rw [startBlk_toNat (by omega) (hfit _ (entryAt_mem hjl)).1, ebrSector]
  omega

theorem stored_compares (ht : tableStage s (some table) = some t) (hout : t.out = false) (hret : t.ret = 0) :
    let stored := (getPtblRsv t.state.device s.laid []).2
    stored ≠ [] ∧ cmpIptbl t.ept stored = 0 ∧ (stored = t.ept ↔ ¬ StaleCopy s t.ept) := by
  obtain ⟨ept, _, hlay, hstage⟩ := tableStage_some ht hout
  by_cases hsame : (getPtblRsv s.device s.laid []).2 ≠ [] ∧ cmpIptbl t.ept (getPtblRsv s.device s.laid []).2 = 0
  · have hdev : t.state.device = s.device := by
      rw [hstage, rsvStage_dtb, if_pos hsame]
    rw [hdev]
    refine ⟨hsame.1, hsame.2, fun heq hstale => hstale.2.2 heq, fun hfresh => ?_⟩
    by_contra hne
    exact hfresh ⟨hsame.1, hsame.2, hne⟩
  · have hupdate : updatePtblRsv s.device s.laid t.ept = (0, t.state.device) := by
      rw [← hret, hstage, rsvStage_dtb, if_neg hsame]
    rw [getPtblRsv_update hupdate]
    refine ⟨accepted_ne_nil hlay, (by rw [cmpIptbl, if_neg (not_not_intro rfl), cmpEntries_self]), fun _ hstale => ?_, fun _ => rfl⟩
    exact hsame ⟨hstale.1, hstale.2.1⟩

/-- On a device with a copy that compares equal, later runs settle exactly when
the copy is the table. -/
theorem settled_iff_stored {device : BlockDevice} {ept0 ept stored : List Partitions}
    (hcomp : composeEpt table (calculateOffset true device.capacity false emmcPartitionTable).2 = some ept0)
    (hlay : calculateOffset true device.capacity true ept0 = (0, ept))
    (hget : (getPtblRsv device (calculateOffset true device.capacity false emmcPartitionTable).2 []).2 = stored)
    (hne : stored ≠ []) (hcmp : cmpIptbl ept stored = 0) : Settled device table ept ↔ stored = ept := by
  have hcopy : cpyIptbl [] stored = stored := by
    rw [cpyIptbl, if_neg (Nat.not_lt.mpr (by rw [← hget]; exact getPtblRsv_length _ _))]
  have hfound : ∀ s : BootState, s.device = device → InhReady device.capacity s.inh →
      (getPtblRsv s.device s.laid []).2 = stored := by
    rintro s rfl hinh
    rw [hinh.layout]
    exact hget
  have hrecover : ∀ s : BootState, s.device = device → InhReady device.capacity s.inh →
      ∃ t, tableStage s none = some t ∧ t.out = false ∧ t.ept = stored := by
    intro s hs hinh
    have hstored := hfound s hs hinh
    rw [← hstored] at hne hcopy ⊢
    refine ⟨_, tableStage_none_eq s, ?_⟩
    rw [rsvStage_noDtb, if_pos hne]
    exact ⟨rfl, hcopy⟩
  constructor
  · intro h
    obtain ⟨t, ht, _, hept⟩ := hrecover ⟨device, emmcPartitionTable, none⟩ rfl (.inl rfl)
    rw [← hept]
    exact (h.noDtb ⟨device, emmcPartitionTable, none⟩ rfl (.inl rfl)).2 false 0 _ (mmcDeviceInit_older ht)
  · intro heq
    constructor
    · intro s hs hinh
      have hstored := hfound s hs hinh
      subst hs
      rw [← hinh.layout] at hcomp
      have hstage := tableStage_some_eq hcomp hlay
      rw [← hstored] at hne hcmp
      rw [rsvStage_dtb, if_pos ⟨hne, hcmp⟩] at hstage
      refine ⟨⟨_, hstage, rfl, rfl⟩, fun gxlOrLater fuel r hr => ?_⟩
      obtain ⟨hept, hupdated, _⟩ := mmcDeviceInit_cases hr hstage
      exact ⟨hupdated, hept⟩
    · intro s hs hinh
      obtain ⟨t, ht, hout, hept⟩ := hrecover s hs hinh
      refine ⟨⟨t, ht, hout⟩, fun gxlOrLater fuel r hr => ?_⟩
      rw [(mmcDeviceInit_cases hr ht).1, hept, heq]

theorem settled_iff_not_stale (hinh : InhReady s.device.capacity s.inh)
    (ht : tableStage s (some table) = some t) (hout : t.out = false) (hret : t.ret = 0) (hfit : SectorsFit t.ept)
    (hr : mmcDeviceInit gxlOrLater fuel s (some table) = some r) :
    Settled r.state.device table t.ept ↔ ¬ StaleCopy s t.ept := by
  obtain ⟨ept0, hcomp, hlay, _⟩ := tableStage_some ht hout
  obtain ⟨hcap, hsame⟩ := storedTable_after hinh ht hout hfit hr
  obtain ⟨hne, hcmp, hstale⟩ := stored_compares ht hout hret
  rw [hinh.layout] at hcomp hsame hne hcmp hstale
  rw [← hsame] at hne hcmp hstale
  rw [← hcap] at hcomp hlay hne hcmp hstale
  exact (settled_iff_stored hcomp hlay rfl hne hcmp).trans hstale

theorem getPtblRsv_refused {d : BlockDevice} {inh : List Partitions}
    (h : ¬ RsvValid (mmcRsvRead d (rsvOffset inh) ptblRsvSize zeroed).2) (rsv : List Partitions) :
    ∃ code, code ≠ 0 ∧ getPtblRsv d inh rsv = (code, rsv) := by
  rw [getPtblRsv_eq]
  split
  · rename_i hle
    have hbuffer : (mmcRsvRead d (rsvOffset inh) ptblRsvSize zeroed).2 =
        memcpy zeroed 0 d.user (512 * (rsvOffset inh / 512).toNat) 1536 := by
      rw [mmcRsvRead, if_neg (by decide), ptblRsvSize_blocks, mmcBread_of_le zeroed (by decide : (3 : UInt64) ≠ 0) hle]
      rfl
    rw [hbuffer] at h
    exact parsePtblRsv_invalid h rsv
  · exact ⟨-3, by decide, rfl⟩

/-- The copy round trips and a refused one is not taken over; after a run with a
device tree later runs settle exactly when that run found no stale copy. -/
theorem partition_tables_converge_iff {gxlOrLater : Bool} {fuel : Nat} {s : BootState} {table : List Partitions}
    {t : TableStage} {r : InitResult} (hinh : InhReady s.device.capacity s.inh)
    (ht : tableStage s (some table) = some t) (hout : t.out = false) (hret : t.ret = 0) (hfit : SectorsFit t.ept)
    (hr : mmcDeviceInit gxlOrLater fuel s (some table) = some r) :
    (∀ d inh src d' rsv, updatePtblRsv d inh src = (0, d') → getPtblRsv d' inh rsv = (0, src)) ∧
      (∀ d inh rsv, ¬ RsvValid (mmcRsvRead d (rsvOffset inh) ptblRsvSize zeroed).2 →
        ∃ code, code ≠ 0 ∧ getPtblRsv d inh rsv = (code, rsv)) ∧
      (Settled r.state.device table t.ept ↔ ¬ StaleCopy s t.ept) :=
  ⟨fun _ _ _ _ rsv h => getPtblRsv_update h rsv, fun _ _ rsv h => getPtblRsv_refused h rsv,
    settled_iff_not_stale hinh ht hout hret hfit hr⟩

/-- The inherent table on the sample device. -/
def sampleInh : List Partitions := (calculateOffset true 0x100000000 false emmcPartitionTable).2

/-- The sample device, or one with other content, at the first run of a boot. -/
def bootOn (device : BlockDevice) : BootState := ⟨device, emmcPartitionTable, none⟩

theorem sample_stage {device : BlockDevice} (hcap : device.capacity = 0x100000000) :
    tableStage (bootOn device) (some sampleDtb) =
      some (rsvStage ⟨device, sampleInh, some sampleTable⟩ sampleTable true) := by
  have hinh : (bootOn device).laid = sampleInh := by
    rw [sampleInh, ← hcap]
    rfl
  have hcomp : composeEpt sampleDtb (bootOn device).laid = some (sampleInh ++ sampleDtb) := by
    rw [hinh]
    decide
  have hlay : calculateOffset true device.capacity true (sampleInh ++ sampleDtb) = (0, sampleTable) := by
    rw [hcap]
    decide
  rw [tableStage_some_eq hcomp hlay, hinh]
  rfl

theorem mmcDeviceInit_blank {dtb : Option (List Partitions)} (ht : tableStage s dtb = some t)
    (hblank : t.state.device.user dosPartMagicOffset ≠ 0x55) : ∃ r, mmcDeviceInit true 1 s dtb = some r := by
  rw [mmcDeviceInit, ht, Option.bind_some, mbrStage, checkPtblMbr, constructPtblByMbr_blank hblank]
  split
  · exact ⟨_, rfl⟩
  dsimp only [Option.map_some]
  split <;> exact ⟨_, rfl⟩

/-- The sample table with "cache" under the name "cacheX". -/
def renamedTable : List Partitions :=
  sampleTable.map fun p => if nameIs p.name [0x63, 0x61, 0x63, 0x68, 0x65] then
    { p with name := p.name.set 5 0x58 } else p

/-- A device that was set up with the renamed table. -/
def renamedDevice : BlockDevice := (updatePtblRsv sampleDevice sampleInh renamedTable).2

/-- The run with the device tree leaves the renamed copy, and a run without one
comes up with the old name. -/
theorem partition_tables_keep_stale_names :
    ∃ t r, tableStage (bootOn renamedDevice) (some sampleDtb) = some t ∧ t.out = false ∧
      t.ret = 0 ∧ mmcDeviceInit true 1 (bootOn renamedDevice) (some sampleDtb) = some r ∧
      ¬ Settled r.state.device sampleDtb t.ept := by
  have hcap : renamedDevice.capacity = 0x100000000 := updatePtblRsv_capacity _ _ _
  have hwrite : updatePtblRsv sampleDevice sampleInh renamedTable = (0, renamedDevice) := by
    rfl
  have hstored := getPtblRsv_update hwrite []
  have hsame : (getPtblRsv renamedDevice sampleInh []).2 ≠ [] ∧
      cmpIptbl sampleTable (getPtblRsv renamedDevice sampleInh []).2 = 0 := by
    rw [hstored]
    decide
  have hstage := sample_stage hcap
  rw [rsvStage_dtb, if_pos hsame] at hstage
  obtain ⟨r, hr⟩ := mmcDeviceInit_blank hstage (by
    decide)
  refine ⟨_, r, hstage, rfl, rfl, hr, fun h => ?_⟩
  refine (settled_iff_not_stale (.inl rfl) hstage rfl rfl (by decide) hr).mp h ?_
  have hfound : storedTable (bootOn renamedDevice) = renamedTable := by
    rw [storedTable]
    exact congrArg Prod.snd hstored
  rw [StaleCopy, hfound]
  decide

/-- An empty device settles with the first run. -/
theorem partition_tables_converge_sample : ∃ r, mmcDeviceInit true 1 (bootOn sampleDevice) (some sampleDtb) = some r ∧
      Settled r.state.device sampleDtb sampleTable := by
  have hempty : (getPtblRsv sampleDevice sampleInh []).2 = [] := by decide
  have hstage := @sample_stage sampleDevice rfl
  obtain ⟨r, hr⟩ := mmcDeviceInit_blank hstage (by
    decide)
  refine ⟨r, hr, ?_⟩
  exact (partition_tables_converge_iff (.inl rfl) hstage rfl (by decide) (by decide) hr).2.2.mpr fun h => h.1 hempty

end AmlogicV901d.Guarantees.PartitionConvergence
