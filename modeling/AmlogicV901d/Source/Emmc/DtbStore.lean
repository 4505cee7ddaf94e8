import AmlogicV901d.Lib.StateTriple

/-!
# The two stored device trees of the boot loader

`bl33/common/cmd_aml_mmc.c:187-202, 3453-3768`.

An image is the words that its checksum adds up. Every transfer asks the environment
whether it fails; a failed one leaves what the environment says.
-/
namespace AmlogicV901d.Source.DtbStore
open Lib.StateTriple

/-- `struct aml_dtb_rsv`, its data area as 32-bit words. -/
structure AmlDtbRsv where
  data : List UInt32
  magic : UInt32
  version : UInt32
  timestamp : UInt32
  checksum : UInt32
  deriving DecidableEq, Repr

/-- One of the two copies, DTB1 or DTB2. -/
inductive Cpy
  | dtb1
  | dtb2
  deriving DecidableEq, Repr

/-- An array of two. -/
structure Two (α : Type) where
  dtb1 : α
  dtb2 : α
  deriving DecidableEq, Repr

def Two.get {α : Type} (p : Two α) : Cpy → α
  | .dtb1 => p.dtb1
  | .dtb2 => p.dtb2

def Two.set {α : Type} (p : Two α) (a : α) : Cpy → Two α
  | .dtb1 => { p with dtb1 := a }
  | .dtb2 => { p with dtb2 := a }

/-- `struct aml_dtb_info` -/
structure AmlDtbInfo where
  stamp : Two UInt32
  valid : Two Bool
  deriving DecidableEq, Repr

def dtbInfosCleared : AmlDtbInfo := ⟨⟨0, 0⟩, ⟨false, false⟩⟩

/-- The copies on the device, `dtb_infos` and the buffer of the caller. -/
structure DtbState where
  copies : Two AmlDtbRsv
  infos : AmlDtbInfo
  addr : AmlDtbRsv
  tick : Nat
  deriving DecidableEq, Repr

structure DtbEnv where
  mmcFound : Bool
  fails : Nat → Bool
  left : Nat → AmlDtbRsv

abbrev DtbM := StateM DtbState

/-- `stamp_after`, on wrapped 32-bit integers. -/
def stampAfter (a b : UInt32) : Bool := b.toInt32 - a.toInt32 < 0

def calcDtbChecksum (dtb : AmlDtbRsv) : UInt32 :=
  (dtb.data ++ [dtb.magic, dtb.version, dtb.timestamp]).foldl (· + ·) 0

/-- Nonzero for a wrong checksum. -/
def verifyDtbChecksum (dtb : AmlDtbRsv) : Bool := !(calcDtbChecksum dtb == dtb.checksum)

section Transfers
variable (env : DtbEnv)

/-- `_dtb_read` of a whole copy into the buffer; true on failure. -/
def blockRead (cpy : Cpy) : DtbM Bool := fun s =>
  (env.fails s.tick, { s with
    addr := if env.fails s.tick then env.left s.tick else s.copies.get cpy
    tick := s.tick + 1 })

/-- `_dtb_write` of the buffer to a whole copy; true on failure. -/
def blockWrite (cpy : Cpy) : DtbM Bool := fun s =>
  (env.fails s.tick, { s with
    copies := s.copies.set (if env.fails s.tick then env.left s.tick else s.addr) cpy
    tick := s.tick + 1 })

/-! ## Reading -/

/-- A copy that was loaded before is read without a check. -/
def dtbReadShortcut : DtbM Int := do
  let s ← get
  if s.infos.valid.dtb1 then
    if ← blockRead env .dtb1 then
      if s.infos.valid.dtb2 then
        if ← blockRead env .dtb2 then pure (-1) else pure 0
      else pure 0
    else pure 0
  else pure (-2)

def noteCopy (cpy : Cpy) (s : DtbState) : DtbState :=
  { s with infos := { stamp := s.infos.stamp.set s.addr.timestamp cpy, valid := s.infos.valid.set true cpy } }

/-- One round of the loop of `update_dtb_info`. -/
def checkCopy (cpy : Cpy) : DtbM Nat := do
  if ← blockRead env cpy then
    let s ← get
    pure (s.infos.valid.get cpy).toNat
  else
    modify fun s => if !verifyDtbChecksum s.addr && s.addr.magic != 0 then noteCopy cpy s else s
    let s ← get
    pure (s.infos.valid.get cpy).toNat

/-- DTB2 first, so that DTB1 is left in the buffer. -/
def updateDtbInfo : DtbM Nat := do
  let valid2 ← checkCopy env .dtb2
  let valid1 ← checkCopy env .dtb1
  pure (valid2 + valid1)

/-- The copy that is not valid is written from the other one. -/
def updateInvalidDtb : DtbM Int := do
  let s ← get
  if s.infos.valid.dtb2 then
    let noRead ← blockRead env .dtb2
    let noWrite ← blockWrite env .dtb1
    modify (noteCopy .dtb1)
    pure (if noWrite then -4 else if noRead then -2 else 0)
  else
    let noWrite ← blockWrite env .dtb2
    modify (noteCopy .dtb2)
    pure (if noWrite then -2 else 0)

def noteStamp (cpy : Cpy) (s : DtbState) : DtbState :=
  { s with infos := { s.infos with stamp := s.infos.stamp.set s.addr.timestamp cpy } }

/-- The older copy is written from the newer one. -/
def updateOldDtb : DtbM Int := do
  let s ← get
  if stampAfter s.infos.stamp.dtb2 s.infos.stamp.dtb1 then
    let noRead ← blockRead env .dtb2
    let noWrite ← blockWrite env .dtb1
    modify (noteStamp .dtb1)
    pure (if noRead || noWrite then -3 else 0)
  else if stampAfter s.infos.stamp.dtb1 s.infos.stamp.dtb2 then
    let noWrite ← blockWrite env .dtb2
    modify (noteStamp .dtb2)
    pure (if noWrite then -3 else 0)
  else pure 0

def dtbRead : DtbM Int :=
  if !env.mmcFound then pure (-10)
  else do
    let short ← dtbReadShortcut env
    if short = 0 then pure 0
    else
      let valid ← updateDtbInfo env
      if valid = 0 then pure (-1)
      else if valid = 1 then
        let _ ← updateInvalidDtb env
        pure 0
      else
        let _ ← updateOldDtb env
        pure 0

/-! ## Writing -/

def newTimestamp (info : AmlDtbInfo) : UInt32 :=
  if !info.valid.dtb1 && !info.valid.dtb2 then 0
  else if !(info.valid.dtb1 && info.valid.dtb2) then
    1 + (if info.valid.dtb1 then info.stamp.dtb1 else info.stamp.dtb2)
  else if info.stamp.dtb1 ≠ info.stamp.dtb2 then
    1 + (if info.stamp.dtb2 > info.stamp.dtb1 then info.stamp.dtb2 else info.stamp.dtb1)
  else 1 + info.stamp.dtb1

/-- The tail of the image: time stamp, version, magic "A~D" and then the checksum. -/
def stamped (dtb : AmlDtbRsv) (timestamp : UInt32) : AmlDtbRsv :=
  let dtb := { dtb with timestamp, version := 1, magic := 0x00447e41 }
  { dtb with checksum := calcDtbChecksum dtb }

def writeCopy (cpy : Cpy) : DtbM Bool := do
  let failed ← blockWrite env cpy
  modify (noteCopy cpy)
  pure failed

/-- The loop of `dtb_write` over the copies it reaches. -/
def writeCopies : List Cpy → DtbM Bool
  | [] => pure false
  | cpy :: rest => do
    let failed ← writeCopy env cpy
    let more ← writeCopies rest
    pure (failed || more)

def stampBuffer (s : DtbState) : DtbState := { s with addr := stamped s.addr (newTimestamp s.infos) }

def dtbWrite : DtbM Int :=
  if !env.mmcFound then pure (-10)
  else do
    modify stampBuffer
    let failed ← writeCopies env [.dtb1, .dtb2]
    pure (if failed then 1 else 0)

end Transfers

/-! ## Power cuts -/

/-- The power fails when so many copies are written. The next one keeps its content or is
partly written; what is there then does not have the right checksum. -/
structure Cut where
  reached : Nat
  torn : Option AmlDtbRsv
  tornInvalid : ∀ dtb, torn = some dtb → verifyDtbChecksum dtb = true

/-- `dtb_infos` is lost with the memory. -/
def reboot (s : DtbState) : DtbState := { s with infos := dtbInfosCleared }

def tear (cut : Cut) (s : DtbState) : DtbState :=
  match cut.torn, [Cpy.dtb1, .dtb2].drop cut.reached with
  | some torn, cpy :: _ => { s with copies := s.copies.set torn cpy }
  | _, _ => s

/-- A `dtb_write` that gets as far as the cut. -/
def dtbWriteCut (env : DtbEnv) (cut : Cut) : DtbM Unit := do
  modify stampBuffer
  let _ ← writeCopies env ([.dtb1, .dtb2].take cut.reached)
  modify fun s => reboot (tear cut s)

end AmlogicV901d.Source.DtbStore
