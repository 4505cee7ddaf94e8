import AmlogicV901d.Source.Idme.Platform

/-!
# Storage faults and stored IDME data

`idme_platform_read` and `idme_platform_write` look for a negative block count
(idme_platform_amlogic.c:80,154) while the driver reports a failure as 0. The
guarantees below hold exactly when no such fault passes unnoticed, or when it
happens to leave the right bytes.
-/
namespace AmlogicV901d.Guarantees.IdmeStorageFault
open Lib.ByteMemory Lib.Strings Source.Idme

def AgreeOn (n : Nat) (m m' : Memory) : Prop := ∀ a, a < n → m a = m' a

/-- `idme_initialize` returns, writes no generated image, and reports success
only on the stored image or its migration. -/
def UsesStored (table : List IdmeInitValues) (fresh : Option Memory) (area : Memory) (r : Option InitResult) : Prop :=
  ∃ res, r = some res ∧ (Event.generated ∈ res.events → ∀ image, Event.written image ∉ res.events) ∧
    (res.ret = 0 → ∀ image, Event.loaded image ∈ res.events → AgreeOn configIdmeSize image area ∧
        (res.state.gidmeBuff = image ∨
          idmeUpdateTableV2p0 table fresh (some image) = some (0, some res.state.gidmeBuff)))

/-- A reset: the globals are back at their initial values, the storage is kept. -/
def reboot (s : IdmeState) : IdmeState := ⟨false, zeroed, .null, s.area⟩

theorem idmeCheckMagicNumber_blank {m : Memory} (h : load m 0 8 ≠ idmeMagicNumber) :
    idmeCheckMagicNumber (some m) = -2 := by
  have hzero := (idmeCheckMagicNumber_some m).not.mpr h
  unfold idmeCheckMagicNumber at hzero ⊢
  split at hzero <;> simp_all

theorem selectHandlers_default (m : Memory) (current : Handlers) :
    selectHandlers (store m 8 idmeVersion2p1) current = .v2p0 := by
  have hload : load (store m 8 idmeVersion2p1) 8 3 = idmeVersion2p1 := load_store m 8 idmeVersion2p1
  have hcmp : ∀ v : List UInt8, v.length = 3 →
      (strncmpEq v.length v (store m 8 idmeVersion2p1) 8 = true ↔ idmeVersion2p1 = v) := by
    intro v hv
    rw [strncmpEq_length, hv, hload]
  have h1 := hcmp [0x31, 0x2e, 0x32] rfl
  have h2 := hcmp [0x32, 0x2e, 0x30] rfl
  have h3 := hcmp [0x32, 0x2e, 0x31] rfl
  simp [selectHandlers, idmeVerTable, idmeVersion2p1] at h1 h2 h3 ⊢
  simp [h1, h2, h3]

/-- Hardware on which a write goes through. -/
def faultless : BlockCall := ⟨true, true, .complete, true⟩

variable (table : List IdmeInitValues)

/-- A buffer that was read with a valid magic is never replaced by defaults. -/
theorem idmeInitializeLoaded_magic (fresh : Option Memory) (wr : BlockCall) (s : IdmeState) (buff : Memory)
    (hmagic : load buff 0 8 = idmeMagicNumber) (hfits : TableFits configIdmeSize 16 table) :
    ∃ res, idmeInitializeLoaded table fresh wr s buff = some res ∧
      (res.events = [.loaded buff] ∨ ∃ image, res.events = [.loaded buff, .written image]) ∧
      (res.state.gidmeBuff = buff ∨ idmeUpdateTableV2p0 table fresh (some buff) = some (0, some res.state.gidmeBuff)) ∧
      (wr = faultless → res.ret = 0) := by
  have hcheck := (idmeCheckMagicNumber_some buff).mpr hmagic
  simp only [idmeInitializeLoaded, hcheck, (by decide : ¬ ((0 : Int) = -2)), false_and, if_false]
  split
  · obtain ⟨ret, m', hrun, hsame⟩ := idmeUpdateTable_returns table fresh buff hfits
    simp only [hrun, Option.getD_some]
    split
    · rename_i hret
      refine ⟨_, rfl, ?_, .inr (by rw [← hret]; rfl), ?_⟩
      · rcases idmePlatformWrite_events wr s.area m' with hnone | hsome
        · exact .inl (by simp [writeBack, hnone])
        · exact .inr ⟨m', by simp [writeBack, hsome]⟩
      · rintro rfl
        rfl
    · rename_i hret
      exact ⟨_, rfl, .inl rfl, .inl (hsame hret), fun _ => rfl⟩
  · exact ⟨_, rfl, .inl rfl, .inl rfl, fun _ => rfl⟩

theorem idmeInitializeLoaded_blank (fresh : Option Memory) (s : IdmeState) (buff : Memory)
    (hblank : load buff 0 8 ≠ idmeMagicNumber) (hnames : NamesShort table) (hfits : TableFits configIdmeSize 16 table) :
    ∃ res image, idmeInitializeLoaded table fresh faultless s buff = some res ∧
      res.events = [.loaded buff, .generated, .written image] := by
  have hcheck := idmeCheckMagicNumber_blank hblank
  obtain ⟨image, hinit, -⟩ := idmeInitVar_spec table
    (store (store buff 0 idmeMagicNumber) 8 idmeVersion2p1) hnames hfits
  simp only [idmeInitializeLoaded, hcheck, if_true, selectHandlers_default, and_self, hinit]
  exact ⟨_, image, rfl, rfl⟩

theorem agreeOn_memcpy_iff (n : Nat) (dst src m : Memory) : AgreeOn n (memcpy dst 0 src 0 n) m ↔ AgreeOn n src m := by
  refine forall₂_congr fun a ha => ?_
  rw [memcpy_start ha]

theorem AgreeOn.magic {m area : Memory} (h : AgreeOn configIdmeSize m area)
    (hmagic : load area 0 8 = idmeMagicNumber) : load m 0 8 = idmeMagicNumber := by
  have hroom : 8 ≤ configIdmeSize := by decide
  rw [← hmagic]
  exact load_congr fun i hi => h _ (by omega)

theorem usesStored_of_agree (fresh : Option Memory) (wr : BlockCall) (s : IdmeState) (area buff : Memory)
    (hmagic : load area 0 8 = idmeMagicNumber) (hagree : AgreeOn configIdmeSize buff area)
    (hfits : TableFits configIdmeSize 16 table) :
    UsesStored table fresh area (idmeInitializeLoaded table fresh wr s buff) := by
  obtain ⟨res, hrun, hevents, hbuff, -⟩ :=
    idmeInitializeLoaded_magic table fresh wr s buff (hagree.magic hmagic) hfits
  refine ⟨res, hrun, fun hgen => ?_, fun _ image himage => ?_⟩
  · rcases hevents with he | ⟨image, he⟩ <;> simp [he] at hgen
  · have hloaded : image = buff := by
      rcases hevents with he | ⟨w, he⟩ <;> simpa [he] using himage
    rw [hloaded]
    exact ⟨hagree, hbuff⟩

/-- Over all outcomes of the write back, initialisation keeps to the stored
image exactly when no failed read passes with other bytes. -/
theorem idmeInitialize_usesStored_iff (fresh : Option Memory) (rd : BlockCall) (s : IdmeState)
    (hmagic : load s.area 0 8 = idmeMagicNumber) (hnames : NamesShort table)
    (hfits : TableFits configIdmeSize 16 table) :
    (∀ wr, UsesStored table fresh s.area (idmeInitialize table fresh rd wr s)) ↔ s.pidmeData = true ∨
        ∀ left, rd.UnnoticedFault left → AgreeOn configIdmeSize left s.area := by
  by_cases hpidme : s.pidmeData = true
  · refine iff_of_true (fun wr => ?_) (.inl hpidme)
    simp only [idmeInitialize, hpidme, if_true]
    exact ⟨_, rfl, by simp, by simp⟩
  have hnull : s.pidmeData = false := by simpa using hpidme
  rw [or_iff_right hpidme]
  constructor
  · intro hall left hfault
    obtain ⟨res, hrun, hgen, huse⟩ := hall faultless
    have hread := idmePlatformRead_unnoticed hfault s.area (memset s.gidmeBuff 0 0 configIdmeSize)
    rw [idmeInitialize_read table fresh rd faultless s hnull hread, if_neg (by simp)] at hrun
    rw [← agreeOn_memcpy_iff _ (memset s.gidmeBuff 0 0 configIdmeSize)]
    generalize memcpy (memset s.gidmeBuff 0 0 configIdmeSize) 0 left 0 configIdmeSize = buff
      at hrun ⊢
    -- without the magic the defaults reach the storage, with it the call succeeds
    by_cases hbuff : load buff 0 8 = idmeMagicNumber
    · obtain ⟨res', hrun', hevents, -, hret⟩ := idmeInitializeLoaded_magic table fresh faultless
        { s with gidmeBuff := buff } buff hbuff hfits
      obtain rfl : res' = res := Option.some.inj (hrun'.symm.trans hrun)
      refine (huse (hret rfl) buff ?_).1
      rcases hevents with he | ⟨w, he⟩ <;> simp [he]
    · obtain ⟨res', image, hrun', hevents⟩ := idmeInitializeLoaded_blank table fresh
        { s with gidmeBuff := buff } buff hbuff hnames hfits
      obtain rfl : res' = res := Option.some.inj (hrun'.symm.trans hrun)
      exact absurd (by simp [hevents]) (hgen (by simp [hevents]) image)
  · intro hleft wr
    rcases idmePlatformRead_cases rd s.area (memset s.gidmeBuff 0 0 configIdmeSize) with
      ⟨buff, hread⟩ | ⟨hread, -⟩ | ⟨left, hfault, hread⟩
    · rw [idmeInitialize_read table fresh rd wr s hnull hread, if_pos (by decide)]
      exact ⟨_, rfl, by simp, by simp⟩
    · rw [idmeInitialize_read table fresh rd wr s hnull hread, if_neg (by simp)]
      exact usesStored_of_agree table fresh wr _ s.area _ hmagic
        ((agreeOn_memcpy_iff _ _ _ _).mpr fun _ _ => rfl) hfits
    · rw [idmeInitialize_read table fresh rd wr s hnull hread, if_neg (by simp)]
      exact usesStored_of_agree table fresh wr _ s.area _ hmagic
        ((agreeOn_memcpy_iff _ _ _ _).mpr (hleft left hfault)) hfits

variable {wr : BlockCall}

theorem writeBack_loaded {s : IdmeState} {events : List Event} {image : Memory}
    (h : Event.loaded image ∈ (writeBack wr s events).events) : Event.loaded image ∈ events := by
  rcases idmePlatformWrite_events wr s.area s.gidmeBuff with hw | hw <;>
    simpa [writeBack, hw] using h

/-- The only image an initialisation loads is the buffer it read. -/
theorem idmeInitializeLoaded_loaded {table : List IdmeInitValues} {fresh : Option Memory} {s : IdmeState}
    {buff image : Memory} {res : InitResult} (hrun : idmeInitializeLoaded table fresh wr s buff = some res)
    (h : Event.loaded image ∈ res.events) : image = buff := by
  simp only [idmeInitializeLoaded] at hrun
  generalize (if idmeCheckMagicNumber (some buff) = -2 then
    store (store buff 0 idmeMagicNumber) 8 idmeVersion2p1 else buff) = named at hrun
  split at hrun
  · split at hrun
    · cases hrun
    split at hrun
    · cases hrun
      simpa using h
    · cases hrun
      simpa using writeBack_loaded h
  · split at hrun
    · split at hrun
      · cases hrun
      split at hrun
      · cases hrun
        simpa using writeBack_loaded h
      · cases hrun
        simpa using h
    · cases hrun
      simpa using h

/-- The stored area holds the image, and a later initialisation whose read
completes loads it. -/
structure ReadsBack (table : List IdmeInitValues) (image : Memory) (s : IdmeState) : Prop where
  stored : AgreeOn configIdmeSize s.area image
  later : ∀ fresh rd wr res loaded, rd.transfer = .complete → idmeInitialize table fresh rd wr (reboot s) = some res →
    Event.loaded loaded ∈ res.events → AgreeOn configIdmeSize loaded image

theorem readsBack_iff (image : Memory) (s : IdmeState) :
    ReadsBack table image s ↔ AgreeOn configIdmeSize s.area image := by
  refine ⟨ReadsBack.stored, fun hstored => ⟨hstored, ?_⟩⟩
  intro fresh rd wr res loaded hcomplete hrun hloaded
  rcases idmePlatformRead_cases rd (reboot s).area
    (memset (reboot s).gidmeBuff 0 0 configIdmeSize) with ⟨b, hread⟩ | ⟨hread, -⟩ | ⟨left, hfault, -⟩
  · rw [idmeInitialize_read table fresh rd wr (reboot s) rfl hread, if_pos (by decide)] at hrun
    cases hrun
    cases hloaded
  · rw [idmeInitialize_read table fresh rd wr (reboot s) rfl hread, if_neg (by simp)] at hrun
    rw [idmeInitializeLoaded_loaded hrun hloaded, agreeOn_memcpy_iff]
    exact hstored
  · cases hcomplete.symm.trans hfault.2.2.2

section
variable {s s' : IdmeState} {name : Option CString} {value : Option Memory} {length : UInt32} (h : idmeUpdateVarEx wr s name value length = (0, s'))
include h

/-- A successful `idme_update_var_ex` updated the image in memory and got status
0 from its block write. -/
theorem idmeUpdateVarEx_success : (∃ n v, name = some n ∧ value = some v ∧
      idmeUpdateVarV2p0 n (some v) length s.pidme = (0, some s'.gidmeBuff)) ∧
    ((s'.area = memcpy s.area 0 s'.gidmeBuff 0 configIdmeSize ∧ wr.transfer = .complete) ∨
      ∃ left, wr.UnnoticedFault left ∧ s'.area = memcpy s.area 0 left 0 configIdmeSize) := by
  cases name with
  | none => cases h
  | some n =>
    cases value with
    | none => cases h
    | some v =>
      cases hhandlers : s.handlers with
      | null => simp [idmeUpdateVarEx, hhandlers] at h
      | v2p0 =>
        by_cases hpidme : s.pidmeData = true
        · obtain ⟨ret, image, hupdate⟩ := idmeUpdateVar_returns n (some v) length s.gidmeBuff
          have hcur : s.pidme = some s.gidmeBuff := by rw [IdmeState.pidme, if_pos hpidme]
          obtain ⟨wret, area', events, hwrite⟩ : ∃ wret area' events,
              idmePlatformWrite wr s.area (some image) = (wret, area', events) := ⟨_, _, _, rfl⟩
          rw [idmeUpdateVarEx_eq hpidme hhandlers hupdate hwrite] at h
          split at h
          · cases h
          split at h
          · cases h
          rename_i hret hwret
          cases h
          have hzero : ret = 0 := by simpa using hret
          refine ⟨⟨n, v, rfl, rfl, by rw [hcur, hupdate, hzero]⟩, ?_⟩
          rcases idmePlatformWrite_cases wr s.area image with
            ⟨_, _, hw⟩ | ⟨hw, hcomplete⟩ | ⟨left, hfault, hw⟩
          · rw [hwrite, Prod.mk.injEq] at hw
            exact absurd hw.1 (by omega)
          · rw [hwrite, Prod.mk.injEq, Prod.mk.injEq] at hw
            exact .inl ⟨hw.2.1, hcomplete⟩
          · rw [hwrite, Prod.mk.injEq, Prod.mk.injEq] at hw
            exact .inr ⟨left, hfault, hw.2.1⟩
        · have hcur : s.pidme = none := by rw [IdmeState.pidme, if_neg hpidme]
          simp [idmeUpdateVarEx, hhandlers, hcur, idmeUpdateVarV2p0] at h

theorem idmeUpdateVarEx_readsBack_iff : ReadsBack table s'.gidmeBuff s' ↔
      ∀ left, wr.UnnoticedFault left → AgreeOn configIdmeSize left s'.gidmeBuff := by
  rw [readsBack_iff]
  rcases (idmeUpdateVarEx_success h).2 with ⟨harea, hcomplete⟩ | ⟨left, hfault, harea⟩
  · rw [harea, agreeOn_memcpy_iff]
    refine iff_of_true (fun _ _ => rfl) fun left hfault => ?_
    cases hcomplete.symm.trans hfault.2.2.2
  rw [harea, agreeOn_memcpy_iff]
  refine ⟨fun hagree left' hfault' => ?_, fun hall => hall left hfault⟩
  obtain rfl : left' = left := Transfer.fault.inj (hfault'.2.2.2.symm.trans hfault.2.2.2)
  exact hagree

end

/-- Stored IDME data survives initialisation and updates exactly when no block
transfer fails unnoticed with other bytes than it should have moved. -/
theorem idme_survives_storage_faults_iff (table : List IdmeInitValues) (hnames : NamesShort table)
    (hfits : TableFits configIdmeSize 16 table) : (∀ fresh rd s, load s.area 0 8 = idmeMagicNumber →
      ((∀ wr, UsesStored table fresh s.area (idmeInitialize table fresh rd wr s)) ↔ s.pidmeData = true ∨
          ∀ left, rd.UnnoticedFault left → AgreeOn configIdmeSize left s.area)) ∧
    (∀ wr s name value length s', idmeUpdateVarEx wr s name value length = (0, s') →
      (∃ n v, name = some n ∧ value = some v ∧ idmeUpdateVarV2p0 n (some v) length s.pidme = (0, some s'.gidmeBuff)) ∧
      (ReadsBack table s'.gidmeBuff s' ↔ ∀ left, wr.UnnoticedFault left → AgreeOn configIdmeSize left s'.gidmeBuff)) :=
  ⟨fun fresh rd s hmagic => idmeInitialize_usesStored_iff table fresh rd s hmagic hnames hfits,
    fun _ _ _ _ _ _ h => ⟨(idmeUpdateVarEx_success h).1, idmeUpdateVarEx_readsBack_iff table h⟩⟩

/-- One four-byte item named "serial" with the given value. -/
def serialEntry (value : CString) : IdmeInitValues := ⟨⟨[0x73, 0x65, 0x72, 0x69, 0x61, 0x6c], by decide⟩, 4, 1, 292, value⟩

def serialTable : List IdmeInitValues := [serialEntry ⟨[0x2d], by decide⟩]

/-- A stored area with the serial number "5678". -/
def serialArea : Memory :=
  ((idmeInitVarV2p0 [serialEntry ⟨[0x35, 0x36, 0x37, 0x38], by decide⟩] zeroed).map (·.2)).getD zeroed

/-- A read that fails with the buffer still cleared costs the serial number, and
a failed write of an update reports success. -/
theorem idme_storage_fault_loses_data : load serialArea 0 8 = idmeMagicNumber ∧
    (∃ res, idmeInitialize serialTable none ⟨true, true, .fault zeroed, true⟩ faultless
        ⟨false, zeroed, .null, serialArea⟩ = some res ∧ res.ret = 0 ∧
      ¬ UsesStored serialTable none serialArea (some res) ∧
      (idmeItems serialArea).map (·.data) = [[0x35, 0x36, 0x37, 0x38]] ∧
      (idmeItems res.state.area).map (·.data) = [[0x2d, 0, 0, 0]]) ∧
    (∃ s', idmeUpdateVarEx ⟨true, true, .fault serialArea, true⟩
        ⟨true, serialArea, .v2p0, serialArea⟩ (some ⟨[0x73, 0x65, 0x72, 0x69, 0x61, 0x6c], by decide⟩)
        (some (fun _ => 0x39)) 4 = (0, s') ∧ (idmeItems s'.gidmeBuff).map (·.data) = [[0x39, 0x39, 0x39, 0x39]] ∧
      (idmeItems s'.area).map (·.data) = [[0x35, 0x36, 0x37, 0x38]]) := by
  refine ⟨by decide, ⟨_, rfl, by decide, ?_, by decide, by decide⟩, ⟨_, rfl, by decide, by decide⟩⟩
  rintro ⟨res, hres, hgen, -⟩
  cases hres
  exact hgen (.tail _ List.mem_cons_self) _ (.tail _ (.tail _ List.mem_cons_self))

/-- A completed read of the same area keeps to the stored image. -/
theorem idme_survives_storage_faults_sample : UsesStored serialTable none serialArea
      (idmeInitialize serialTable none faultless faultless ⟨false, zeroed, .null, serialArea⟩) :=
  ((idme_survives_storage_faults_iff serialTable (by unfold NamesShort; decide)
    ⟨by decide, trivial⟩).1 none faultless ⟨false, zeroed, .null, serialArea⟩ (by decide)).mpr
    (.inr fun _ hfault => nomatch hfault.2.2.2) faultless

end AmlogicV901d.Guarantees.IdmeStorageFault
