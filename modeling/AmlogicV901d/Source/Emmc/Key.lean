/-!
# The key area of the eMMC

`mmc/emmc_key.c:85-153`, with blocks of 512 bytes. The transfers that fail are given by their
number in a call. The buffer has `length` bytes; `none` is a transfer outside of it, or a loop that
takes more than `fuel` transfers.
-/
namespace AmlogicV901d.Source.Emmc.Key

/-- In blocks. -/
def emmcBlockSize : Nat := 256

/-- In bytes. -/
def maxEmmcBlockSize : Nat := 128 * 1024

abbrev Bytes := Nat → UInt8

/-- The loop of both functions. From the second transfer on `off` is the second part of the
buffer. The result is whether the transfers went well, and what they left. -/
def keyLoop (transfer : Nat → Nat → Bytes → Bytes) (fails : Nat → Bool) (length : Nat) :
    Nat → Nat → Nat → Nat → Int → Bytes → Option (Bool × Bytes)
  | 0, _, _, _, _, _ => none
  | fuel + 1, tick, blk, off, cnt, bytes =>
    if length < off + maxEmmcBlockSize then none
    else if fails tick then some (false, bytes)
    else if cnt - emmcBlockSize = 0 then some (true, transfer blk off bytes)
    else keyLoop transfer fails length fuel (tick + 1) (blk + emmcBlockSize) maxEmmcBlockSize
      (cnt - emmcBlockSize) (transfer blk off bytes)

/-- `claims` and `releases` count the calls of `mmc_claim_host` and `mmc_release_host`. -/
structure KeyCall where
  ok : Bool
  bytes : Bytes
  claims : Nat
  releases : Nat

def keyCall (transfer : Nat → Nat → Bytes → Bytes) (fails : Nat → Bool) (length fuel blk : Nat)
    (bytes : Bytes) : Option KeyCall :=
  (keyLoop transfer fails length fuel 0 blk 0 (length / 512) bytes).map fun r =>
    ⟨r.1, r.2, 1, if r.1 then 1 else 0⟩

/-- `mmc_read_internal` of EMMC_BLOCK_SIZE blocks -/
def readBlocks (card : Bytes) (blk off : Nat) (buffer : Bytes) : Bytes := fun i =>
  if off ≤ i ∧ i < off + maxEmmcBlockSize then card (blk * 512 + (i - off)) else buffer i

/-- `mmc_write_internal` of EMMC_BLOCK_SIZE blocks -/
def writeBlocks (buffer : Bytes) (blk off : Nat) (card : Bytes) : Bytes := fun a =>
  if blk * 512 ≤ a ∧ a < blk * 512 + maxEmmcBlockSize then buffer (off + (a - blk * 512)) else card a

def emmcKeyRead (card : Bytes) := keyCall (readBlocks card)

def emmcKeyWrite (buffer : Bytes) := keyCall (writeBlocks buffer)

end AmlogicV901d.Source.Emmc.Key
