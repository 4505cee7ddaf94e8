import AmlogicV901d.Lib.Strings

/-!
# IDME image: flat item store of cmd_idme_v2_0.c

`idme/cmd_idme_v2_0.c:84-104, 230-332`, `cmd_idme.c:195-217`, `include/idme.h` and
`project/lagunaf.mk` (IDME_NUM_OF_EMMC_BLOCKS=200).

An image is the `Memory` behind the `struct idme_t *`, addressed from its start:
magic at 0, version at 8, items_num at 12 and the items from 16 on. An item is a
28-byte descriptor (name at 0, size at 16, exportable at 20, permission at 24)
followed by its data.
-/
namespace AmlogicV901d.Source.Idme
open Lib.ByteMemory Lib.Strings

def configMmcBlockSize : Nat := 512
def idmeNumOfEmmcBlocks : Nat := 200
def configIdmeSize : Nat := configMmcBlockSize * idmeNumOfEmmcBlocks

/-- "beefdeed" -/
def idmeMagicNumber : List UInt8 := [0x62, 0x65, 0x65, 0x66, 0x64, 0x65, 0x65, 0x64]

/-- "2.1", also IDME_DEFAULT_VERSION -/
def idmeVersion2p1 : List UInt8 := [0x32, 0x2e, 0x31]

/-- An entry of `idme_default_values`: the descriptor and the default string. -/
structure IdmeInitValues where
  name : CString
  size : UInt32
  exportable : UInt32
  permission : UInt32
  value : CString
  deriving DecidableEq

def itemsNum (m : Memory) : UInt32 := loadU32 m 12

def descSize (m : Memory) (p : Nat) : UInt32 := loadU32 m (p + 16)

/-- `IDME_ITEM_INIT`. A failed limit test spins forever (`while(1)`): `none`. -/
def idmeItemInit (m : Memory) (p limit : Nat) (item : CString)
    (maxSize exportable permission : UInt32) (value : CString) : Option Memory :=
  if p + 28 + maxSize.toNat > limit then none
  else
    let m := memset m (p + 28) 0 maxSize.toNat
    let m := store m (p + 28) (value.bytes.take (min maxSize.toNat (strlen value)))
    let m := memset m p 0 16
    let m := store m p (item.bytes.take (min 16 (strlen item)))
    let m := storeU32 m (p + 16) maxSize
    let m := storeU32 m (p + 20) exportable
    some (storeU32 m (p + 24) permission)

/-- `IDME_ITEM_NEXT`: the stride is rounded up to IDME_ALIGN_SIZE. -/
def idmeItemNext (m : Memory) (p : Nat) : Nat :=
  p + (28 + (descSize m p).toNat + 4 - 1) / 4 * 4

/-- The default table ends at the first entry without a name. -/
def namedPrefix : List IdmeInitValues → List IdmeInitValues
  | [] => []
  | e :: rest => if strlen e.name = 0 then [] else e :: namedPrefix rest

/-- The `while (strlen(ptr->desc.name))` loop of `idme_init_var_v2p0`. The item
pointer moves only when another named entry follows. -/
def idmeInitItems : List IdmeInitValues → Memory → Nat → Nat → Option (Memory × Nat)
  | [], m, _, num => some (m, num)
  | e :: rest, m, p, num =>
    if strlen e.name = 0 then some (m, num)
    else
      match idmeItemInit m p configIdmeSize e.name e.size e.exportable e.permission e.value with
      | none => none
      | some m =>
        let p := if namedPrefix rest = [] then p else idmeItemNext m p
        idmeInitItems rest m p (num + 1)

def idmeInitVarV2p0 (idmeDefaultValues : List IdmeInitValues) (data : Memory) : Option (Int × Memory) :=
  let m := memset data 0 0 configIdmeSize
  let m := store m 0 idmeMagicNumber
  let m := store m 8 idmeVersion2p1
  match idmeInitItems idmeDefaultValues m 16 0 with
  | none => none
  | some (m, num) => some (0, storeU32 m 12 (UInt32.ofNat num))

/-- `none` is the NULL pointer. -/
def idmeCheckMagicNumber (pidme : Option Memory) : Int :=
  match pidme with
  | none => -1
  | some m => if strncmpEq idmeMagicNumber.length idmeMagicNumber m 0 then 0 else -2

/-- The item walk shared by `idme_get_var_v2p0`, `idme_update_var_v2p0` and
`idme_get_item_desc_v2p0`: `count` items are left, the next one is at `p`. -/
def idmeFindItem (name : CString) (m : Memory) : Nat → Nat → Option Nat
  | 0, _ => none
  | count + 1, p =>
    if strcmpEq name.bytes m p then some p
    else idmeFindItem name m count (idmeItemNext m p)

/-- Returns the status and the caller's buffer after the call. -/
def idmeGetVarV2p0 (name : CString) (buf : Option Memory) (length : UInt32)
    (data : Option Memory) : Int × Option Memory :=
  match data with
  | none => (-1, buf)
  | some m =>
    if idmeCheckMagicNumber (some m) ≠ 0 then (-1, buf)
    else
      match buf with
      | none => (-1, none)
      | some b =>
        match idmeFindItem name m (itemsNum m).toNat 16 with
        | none => (-1, some b)
        | some p => (0, some (memcpy b 0 m (p + 28) (min (descSize m p).toNat length.toNat)))

/-- Returns the status and the image after the call. -/
def idmeUpdateVarV2p0 (name : CString) (value : Option Memory) (length : UInt32)
    (data : Option Memory) : Int × Option Memory :=
  match data with
  | none => (-1, none)
  | some m =>
    if idmeCheckMagicNumber (some m) ≠ 0 then (-1, some m)
    else
      match value with
      | none => (-1, some m)
      | some v =>
        match idmeFindItem name m (itemsNum m).toNat 16 with
        | none => (-1, some m)
        | some p =>
          let size := (descSize m p).toNat
          let zeroed := memset m (p + 28) 0 size
          (0, some (memcpy zeroed (p + 28) v 0 (min size length.toNat)))

end AmlogicV901d.Source.Idme
