/-!
# The manager of register DMA

Source: media/common/rdma/rdma_mgr.c:72-120, 438-624, 652-725, 756-962 and
include/linux/amlogic/media/rdma/rdma_mgr.h:26-36.

A read of the hardware register is a parameter, and the writes of registers of the tables are
kept in a list; the registers of the DMA unit itself, prints and traces are left out. A `long`
has 64 bits.
-/
namespace AmlogicV901d.Source.RdmaMgr

/-! ## State -/

def rdmaNum : Nat := 8

def maxConflict : Nat := 32

/-- `op` is set for a registered handle. -/
structure RdmaInstance where
  op : Bool
  rdmaTableSize : Nat
  rdmaItemCount : Nat
  rdmaWriteCount : Nat
  regBuf : Nat → UInt32
  rdmaTableAddr : Nat → UInt32

/-- `adr` and `val` are `struct rdma_conflict_regs_s`; `vcbus` are the writes to registers, the
last one first. -/
structure RdmaInfo where
  ins : Nat → RdmaInstance
  adr : Nat → UInt32
  val : Nat → UInt32
  readHandle : Nat
  vcbus : List (UInt32 × UInt32)

def RdmaInfo.setIns (info : RdmaInfo) (handle : Nat) (ins : RdmaInstance) : RdmaInfo :=
  { info with ins := fun h => if h = handle then ins else info.ins h }

def setWord (buf : Nat → UInt32) (i : Nat) (word : UInt32) : Nat → UInt32 := fun j => if j = i then word else buf j

/-- The loop from the last of the items down to the first. -/
def findItem (buf : Nat → UInt32) (adr : UInt32) : Nat → Option Nat
  | 0 => none
  | n + 1 => if buf (n * 2) = adr then some n else findItem buf adr n

/-- The value of the last item of a register. -/
def lastItem (buf : Nat → UInt32) (adr : UInt32) (count : Nat) : Option UInt32 :=
  (findItem buf adr count).map fun i => buf (i * 2 + 1)

/-! ## Conflicts -/

def conflictSlot (info : RdmaInfo) (adr : UInt32) : Option Nat := (List.range maxConflict).find? fun i => info.adr i = adr

/-- The tables of other handles. The test for a free slot is made with the number of the handle,
so a later item of the same table meets the same one. -/
def otherConflict (info : RdmaInfo) (handle : Nat) (adr : UInt32) : List Nat → Option (UInt32 × RdmaInfo)
  | [] => none
  | i :: rest =>
    let othIns := info.ins i
    if othIns.rdmaTableSize = 0 ∨ othIns.rdmaItemCount = 0 ∨ i = handle then otherConflict info handle adr rest
    else match (List.range othIns.rdmaItemCount).find? fun j => othIns.regBuf (j * 2) = adr with
      | none => otherConflict info handle adr rest
      | some j =>
        match (List.range maxConflict).find? fun _ => info.adr i = 0 with
        | none => otherConflict info handle adr rest
        | some k =>
          let word := othIns.regBuf (j * 2 + 1)
          some (word, { info with adr := setWord info.adr k adr, val := setWord info.val k word })

/-- The value of a register that another handle has in its table too. -/
def rdmaCheckConflict (handle : Nat) (adr : UInt32) (info : RdmaInfo) : Option UInt32 × RdmaInfo :=
  match conflictSlot info adr with
  | some i => (some (info.val i), info)
  | none =>
    match otherConflict info handle adr (List.range rdmaNum) with
    | some (word, info) => (some word, info)
    | none => (none, info)

def rdmaUpdateConflict (adr val : UInt32) (info : RdmaInfo) : RdmaInfo :=
  match conflictSlot info adr with
  | some i => { info with val := setWord info.val i val }
  | none => info

/-! ## Registers -/

/-- `hw` is the register. -/
def rdmaReadReg (handle : Nat) (adr hw : UInt32) (info : RdmaInfo) : UInt32 :=
  let ins := info.ins handle
  let slot := conflictSlot info adr
  let readVal := (slot.map info.val).getD hw
  let item := if slot.isSome then none else lastItem ins.regBuf adr ins.rdmaItemCount
  match item with
  | some word => word
  | none => (lastItem ins.rdmaTableAddr adr ins.rdmaWriteCount).getD readVal

def appendItem (adr val : UInt32) (ins : RdmaInstance) : RdmaInstance :=
  { ins with
    regBuf := setWord (setWord ins.regBuf (ins.rdmaItemCount * 2) adr) (ins.rdmaItemCount * 2 + 1) val
    rdmaItemCount := ins.rdmaItemCount + 1 }

/-- The items of a table, the first one first. -/
def items (buf : Nat → UInt32) (count : Nat) : List (UInt32 × UInt32) :=
  (List.range count).map fun i => (buf (i * 2), buf (i * 2 + 1))

def hasRoom (ins : RdmaInstance) : Bool := ins.rdmaItemCount * 2 + 1 < ins.rdmaTableSize / 4

/-- The item goes into the table; the registers of a full one are written at once. -/
def writeItem (handle : Nat) (adr val : UInt32) (info : RdmaInfo) : RdmaInfo :=
  let ins := info.ins handle
  if hasRoom ins then info.setIns handle (appendItem adr val ins)
  else
    { info.setIns handle (appendItem adr val { ins with rdmaItemCount := 0, rdmaWriteCount := 0 }) with
      vcbus := (items ins.regBuf ins.rdmaItemCount).reverse ++ info.vcbus }

def rdmaWriteReg (handle : Nat) (adr val : UInt32) (info : RdmaInfo) : Int × RdmaInfo :=
  if (info.ins handle).rdmaTableSize = 0 then (-1, info)
  else
    let (found, info) := rdmaCheckConflict handle adr info
    (0, writeItem handle adr val (if found.isSome then rdmaUpdateConflict adr val info else info))

/-- Some bits of a value are replaced. -/
def replaceBits (readVal val : UInt32) (start len : Nat) : UInt32 :=
  let mask : UInt64 := ((1 <<< UInt64.ofNat len) - 1) <<< UInt64.ofNat start
  (readVal.toUInt64 &&& ~~~mask).toUInt32 ||| (val <<< UInt32.ofNat start)

/-- The value whose bits are replaced. -/
def bitsReadVal (othVal : Option UInt32) (ins : RdmaInstance) (adr hw : UInt32) : UInt32 :=
  match othVal with
  | some word => word
  | none => ((lastItem ins.regBuf adr ins.rdmaItemCount).or (lastItem ins.rdmaTableAddr adr ins.rdmaWriteCount)).getD hw

/-- The result and the value that is written. -/
def rdmaWriteRegBits (handle : Nat) (adr val : UInt32) (start len : Nat) (hw : UInt32) (info : RdmaInfo) :
    (Int × UInt32) × RdmaInfo :=
  if (info.ins handle).rdmaTableSize = 0 then ((-1, hw), info)
  else
    let (othVal, info) := rdmaCheckConflict handle adr info
    let ins := info.ins handle
    let writeVal := replaceBits (bitsReadVal othVal ins adr hw) val start len
    let info := if othVal.isSome then rdmaUpdateConflict adr writeVal info else info
    match findItem ins.regBuf adr ins.rdmaItemCount with
    | some i => ((0, writeVal), info.setIns handle { ins with regBuf := setWord ins.regBuf (i * 2 + 1) writeVal })
    | none => ((0, writeVal), (rdmaWriteReg handle adr writeVal info).2)

/-! ## Submission -/

def rdmaTriggerManual : UInt32 := 0x100

def rdmaAutoStartMask : UInt32 := 0x80000

def rdmaReadMask : UInt32 := 0x100000

/-- The tables after a trigger, and the registers that a debug mode writes. -/
def submit (rdmaRead : Bool) (triggerType : UInt32) (ins : RdmaInstance) : RdmaInstance × List (UInt32 × UInt32) :=
  let words := ins.rdmaItemCount * (if rdmaRead then 1 else 2)
  let table := fun i => if i < words then ins.regBuf i else ins.rdmaTableAddr i
  if 0 < triggerType ∧ triggerType ≤ rdmaTriggerManual then
    ({ ins with rdmaTableAddr := table, rdmaWriteCount := ins.rdmaItemCount }, [])
  else if triggerType = 0x101 then
    ({ ins with rdmaTableAddr := table, rdmaWriteCount := 0 }, items table ins.rdmaItemCount)
  else if triggerType = 0x102 then
    ({ ins with rdmaTableAddr := table, rdmaWriteCount := 0 }, items ins.regBuf ins.rdmaItemCount)
  else ({ ins with rdmaTableAddr := table }, [])

def rdmaConfig (handle : Nat) (triggerType : UInt32) (info : RdmaInfo) : Int × RdmaInfo :=
  if handle = 0 ∨ handle ≥ rdmaNum then (-1, info)
  else if !(info.ins handle).op then (-1, info)
  else
    let ins := info.ins handle
    let rdmaRead := triggerType &&& rdmaReadMask ≠ 0
    let trigger := triggerType &&& ~~~rdmaReadMask
    let autoStart := trigger &&& rdmaAutoStartMask ≠ 0
    let trigger := trigger &&& ~~~rdmaAutoStartMask
    let (ret, ins, writes) : Int × RdmaInstance × List (UInt32 × UInt32) :=
      if autoStart then (1, { ins with rdmaWriteCount := 0 }, [])
      else if ins.rdmaItemCount = 0 ∨ trigger = 0 then (0, { ins with rdmaWriteCount := 0 }, [])
      else (1, submit rdmaRead trigger ins)
    -- don't reset rdma_item_count for read function
    let ins := if handle ≠ info.readHandle then { ins with rdmaItemCount := 0 } else ins
    (ret, { info.setIns handle ins with vcbus := writes.reverse ++ info.vcbus })

end AmlogicV901d.Source.RdmaMgr
