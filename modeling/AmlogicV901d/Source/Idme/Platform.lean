import AmlogicV901d.Source.Idme.Migration

/-!
# IDME over the block driver

`idme/idme_platform_amlogic.c:16-160`, `cmd_idme.c:118-125, 153-167, 219-251, 650-740`, and
`bl33/drivers/mmc` for the return convention of the driver.

A block transfer of the IDME area either moves all blocks and returns their
number, or returns 0 and leaves unspecified bytes behind. `area` is the last
IDME_NUM_OF_EMMC_BLOCKS blocks of the second boot partition.
-/
namespace AmlogicV901d.Source.Idme
open Lib.ByteMemory Lib.Strings

/-- Outcome of `mmc_bread` or `mmc_bwrite`. A failed one has filled the
destination with the bytes `left`. -/
inductive Transfer where
  | complete
  | fault (left : Memory)

def Transfer.blkcnt : Transfer → Int
  | .complete => idmeNumOfEmmcBlocks
  | .fault _ => 0

/-- Bytes in the destination after a transfer of the IDME area. -/
def Transfer.apply (t : Transfer) (dst src : Memory) : Memory :=
  match t with
  | .complete => memcpy dst 0 src 0 configIdmeSize
  | .fault left => memcpy dst 0 left 0 configIdmeSize

/-- What the hardware does during one `idme_platform_read` or `_write`:
`find_mmc_device`, the two `mmc_switch_part` calls and the transfer. -/
structure BlockCall where
  found : Bool
  switchBoot : Bool
  transfer : Transfer
  switchUser : Bool

/-- Observable steps of `idme_initialize` on the stored data. -/
inductive Event where
  | loaded (image : Memory)
  | generated
  | written (image : Memory)

/-- Returns the status and the buffer. -/
def idmePlatformRead (c : BlockCall) (area : Memory) (pbuf : Option Memory) : Int × Option Memory :=
  match pbuf with
  | none => (-1, none)
  | some b =>
    if !c.found then (-1, some b)
    else if !c.switchBoot then (-1, some b)
    else
      let b := c.transfer.apply b area
      let nread := c.transfer.blkcnt
      if !c.switchUser then (-1, some b)
      else if nread < 0 then (-1, some b)
      else (0, some b)

/-- Returns the status, the stored area and the issued block writes. -/
def idmePlatformWrite (c : BlockCall) (area : Memory) (pbuf : Option Memory) : Int × Memory × List Event :=
  match pbuf with
  | none => (-1, area, [])
  | some b =>
    if !c.found then (-1, area, [])
    else if !c.switchBoot then (-1, area, [])
    else
      let area := c.transfer.apply area b
      let nwrite := c.transfer.blkcnt
      if !c.switchUser then (-1, area, [.written b])
      else if nwrite < 0 then (-1, area, [.written b])
      else (0, area, [.written b])

inductive IdmeVer where
  | ver1p2
  | ver2p0
  | ver2p1
  | ver3p0
  deriving DecidableEq, Repr

def idmeVerTable : List (List UInt8 × IdmeVer) :=
  [([0x31, 0x2e, 0x32], .ver1p2), ([0x32, 0x2e, 0x30], .ver2p0),
    ([0x32, 0x2e, 0x31], .ver2p1), ([0x33, 0x2e, 0x30], .ver3p0)]

/-- The function pointers `idme_init_var`, `idme_update_var` and
`idme_update_table`, which are always set and cleared together. -/
inductive Handlers where
  | null
  | v2p0
  deriving DecidableEq, Repr

/-- The loop over `idme_ver_table`. An unknown version keeps the pointers. -/
def selectHandlers (m : Memory) (current : Handlers) : Handlers :=
  match idmeVerTable.find? (fun v => strncmpEq v.1.length v.1 m 8) with
  | none => current
  | some (_, .ver2p0) => .v2p0
  | some (_, .ver2p1) => .v2p0
  | some (_, .ver1p2) => .null
  | some (_, .ver3p0) => .null

/-- `pidme_data` is NULL or points to `gidme_buff`. -/
structure IdmeState where
  pidmeData : Bool
  gidmeBuff : Memory
  handlers : Handlers
  area : Memory

def IdmeState.pidme (s : IdmeState) : Option Memory :=
  if s.pidmeData then some s.gidmeBuff else none

structure InitResult where
  ret : Int
  state : IdmeState
  events : List Event

/-- Tail of both writing branches of `idme_initialize`. -/
def writeBack (wr : BlockCall) (s : IdmeState) (events : List Event) : InitResult :=
  let (ret, area, issued) := idmePlatformWrite wr s.area (some s.gidmeBuff)
  { ret := if ret ≠ 0 then -1 else 0
    state := { s with area := area }
    events := events ++ issued }

/-- `idme_initialize` from the point where `pidme_data` has been set to the
buffer just read. -/
def idmeInitializeLoaded (table : List IdmeInitValues) (fresh : Option Memory) (wr : BlockCall)
    (s : IdmeState) (buff : Memory) : Option InitResult :=
  let iTmp := idmeCheckMagicNumber (some buff)
  let named := if iTmp = -2 then store (store buff 0 idmeMagicNumber) 8 idmeVersion2p1 else buff
  let handlers := selectHandlers named s.handlers
  let s := { s with pidmeData := true, gidmeBuff := named, handlers := handlers }
  if iTmp = -2 ∧ handlers = .v2p0 then
    match idmeInitVarV2p0 table named with
    | none => none
    | some (ret, image) =>
      let s := { s with gidmeBuff := image }
      if ret ≠ 0 then some ⟨-1, s, [.loaded buff, .generated]⟩
      else some (writeBack wr s [.loaded buff, .generated])
  else if handlers = .v2p0 then
    match idmeUpdateTableV2p0 table fresh (some named) with
    | none => none
    | some (ret, image) =>
      let s := { s with gidmeBuff := image.getD named }
      if ret = 0 then some (writeBack wr s [.loaded buff]) else some ⟨0, s, [.loaded buff]⟩
  else some ⟨0, s, [.loaded buff]⟩

/-- `fresh` is the buffer for a migration, `rd` and `wr` the hardware during the
read and the possible write back. `none` is the busy loop of `IDME_ITEM_INIT`. -/
def idmeInitialize (table : List IdmeInitValues) (fresh : Option Memory) (rd wr : BlockCall)
    (s : IdmeState) : Option InitResult :=
  if s.pidmeData then some ⟨0, s, []⟩
  else
    let zeroed := memset s.gidmeBuff 0 0 configIdmeSize
    match idmePlatformRead rd s.area (some zeroed) with
    | (ret, buff) =>
      let s := { s with gidmeBuff := buff.getD zeroed }
      if ret ≠ 0 then some ⟨-1, s, []⟩
      else idmeInitializeLoaded table fresh wr s s.gidmeBuff

/-- `idme_update_var_ex`: update in memory, then write the whole image. -/
def idmeUpdateVarEx (wr : BlockCall) (s : IdmeState) (name : Option CString)
    (value : Option Memory) (length : UInt32) : Int × IdmeState :=
  match name, value with
  | none, _ => (-1, s)
  | some _, none => (-1, s)
  | some name, some value =>
    match s.handlers with
    | .null => (-1, s)
    | .v2p0 =>
      match idmeUpdateVarV2p0 name (some value) length s.pidme with
      | (ret, image) =>
        let s := { s with gidmeBuff := image.getD s.gidmeBuff }
        if ret ≠ 0 then (-1, s)
        else
          let (ret, area, _) := idmePlatformWrite wr s.area s.pidme
          let s := { s with area := area }
          if ret ≠ 0 then (-1, s) else (0, s)

/-- The call reports success although the driver failed: the sign test of the
block count cannot see a return of 0. -/
def BlockCall.UnnoticedFault (c : BlockCall) (left : Memory) : Prop :=
  c.found = true ∧ c.switchBoot = true ∧ c.switchUser = true ∧ c.transfer = .fault left

theorem idmePlatformRead_unnoticed {c : BlockCall} {left : Memory} (h : c.UnnoticedFault left) (area b : Memory) :
    idmePlatformRead c area (some b) = (0, some (memcpy b 0 left 0 configIdmeSize)) := by
  obtain ⟨found, switchBoot, transfer, switchUser⟩ := c
  obtain ⟨rfl, rfl, rfl, rfl⟩ := h
  rfl

/-- Status 0 of `idme_platform_read`: all blocks arrived, or none of the tests
noticed the fault. -/
theorem idmePlatformRead_cases (c : BlockCall) (area b : Memory) :
    (∃ b', idmePlatformRead c area (some b) = (-1, some b')) ∨
    (idmePlatformRead c area (some b) = (0, some (memcpy b 0 area 0 configIdmeSize)) ∧ c.transfer = .complete) ∨
    (∃ left, c.UnnoticedFault left ∧
      idmePlatformRead c area (some b) = (0, some (memcpy b 0 left 0 configIdmeSize))) := by
  obtain ⟨found, switchBoot, transfer, switchUser⟩ := c
  cases found with
  | false => exact .inl ⟨b, rfl⟩
  | true =>
    cases switchBoot with
    | false => exact .inl ⟨b, rfl⟩
    | true =>
      cases switchUser with
      | false => exact .inl ⟨transfer.apply b area, rfl⟩
      | true =>
        cases transfer with
        | complete => exact .inr (.inl ⟨rfl, rfl⟩)
        | fault left =>
          have h : BlockCall.UnnoticedFault ⟨true, true, .fault left, true⟩ left :=
            ⟨rfl, rfl, rfl, rfl⟩
          exact .inr (.inr ⟨left, h, idmePlatformRead_unnoticed h area b⟩)

theorem idmeInitialize_read (table : List IdmeInitValues) (fresh : Option Memory) (rd wr : BlockCall) (s : IdmeState)
    (hpidme : s.pidmeData = false) {ret : Int} {buff : Memory}
    (hread : idmePlatformRead rd s.area (some (memset s.gidmeBuff 0 0 configIdmeSize)) = (ret, some buff)) :
    idmeInitialize table fresh rd wr s = if ret ≠ 0 then some ⟨-1, { s with gidmeBuff := buff }, []⟩
      else idmeInitializeLoaded table fresh wr { s with gidmeBuff := buff } buff := by
  simp only [idmeInitialize, hpidme, Bool.false_eq_true, if_false, hread, Option.getD_some]

theorem idmePlatformWrite_cases (c : BlockCall) (area b : Memory) :
    (∃ area' events, idmePlatformWrite c area (some b) = (-1, area', events)) ∨ (idmePlatformWrite c area (some b) =
        (0, memcpy area 0 b 0 configIdmeSize, [.written b]) ∧ c.transfer = .complete) ∨
    (∃ left, c.UnnoticedFault left ∧ idmePlatformWrite c area (some b) =
        (0, memcpy area 0 left 0 configIdmeSize, [.written b])) := by
  obtain ⟨found, switchBoot, transfer, switchUser⟩ := c
  cases found with
  | false => exact .inl ⟨area, [], rfl⟩
  | true =>
    cases switchBoot with
    | false => exact .inl ⟨area, [], rfl⟩
    | true =>
      cases switchUser with
      | false => exact .inl ⟨transfer.apply area b, [.written b], rfl⟩
      | true =>
        cases transfer with
        | complete => exact .inr (.inl ⟨rfl, rfl⟩)
        | fault left => exact .inr (.inr ⟨left, ⟨rfl, rfl, rfl, rfl⟩, rfl⟩)

theorem idmeUpdateVarEx_eq {wr : BlockCall} {s : IdmeState} {name : CString} {value : Memory} {length : UInt32}
    {ret wret : Int} {image area' : Memory} {events : List Event} (hpidme : s.pidmeData = true)
    (hhandlers : s.handlers = .v2p0)
    (hupdate : idmeUpdateVarV2p0 name (some value) length (some s.gidmeBuff) = (ret, some image))
    (hwrite : idmePlatformWrite wr s.area (some image) = (wret, area', events)) :
    idmeUpdateVarEx wr s (some name) (some value) length = if ret ≠ 0 then (-1, { s with gidmeBuff := image })
      else if wret ≠ 0 then (-1, { s with gidmeBuff := image, area := area' })
      else (0, { s with gidmeBuff := image, area := area' }) := by
  have hcur : s.pidme = some s.gidmeBuff := by rw [IdmeState.pidme, if_pos hpidme]
  simp only [idmeUpdateVarEx, hhandlers, hcur, hupdate, Option.getD_some]
  simp only [IdmeState.pidme, hpidme, if_true, hwrite]

theorem idmePlatformWrite_events (c : BlockCall) (area b : Memory) : (idmePlatformWrite c area (some b)).2.2 = [] ∨
      (idmePlatformWrite c area (some b)).2.2 = [.written b] := by
  simp only [idmePlatformWrite]
  split
  · exact .inl rfl
  split
  · exact .inl rfl
  right
  split
  · rfl
  · split <;> rfl

end AmlogicV901d.Source.Idme
