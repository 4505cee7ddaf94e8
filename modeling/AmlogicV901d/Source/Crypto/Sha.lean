import Mathlib.Data.List.Basic

/-!
# What the hash driver hands to the engine

`crypto/aml-sha-dma.c`, for one request after the other.

A scatterlist is the list of the bytes of its entries; a pointer into it is the rest from
there on, and NULL is the empty list. A descriptor has the bytes the driver means, and the
fields for the length, the beginning and the end. Memory is mapped, no key is needed (HMAC is
0), the block size of the three hashes is 64, and the count of hashed bytes has 128 bits.
-/
namespace AmlogicV901d.Source.Crypto.Sha

/-- SHA1_BLOCK_SIZE, SHA224_BLOCK_SIZE, SHA256_BLOCK_SIZE -/
def blockSize : Nat := 64

/-- SHA_BUFFER_LEN -/
def shaBufferLen : Nat := 128

/-- MAX_NUM_TABLES -/
def maxNumTables : Nat := 341

abbrev Scatterlist := List (List UInt8)

/-- A `dma_dsc` with part of the message. -/
structure Dsc where
  src : List UInt8
  /-- the 17 bits of `length` -/
  length : Nat
  /-- `begin` -/
  first : Bool
  /-- `end` -/
  last : Bool
  deriving DecidableEq, Repr

/-- What 17 bits have of a number. -/
def lengthField (n : Nat) : Nat := n % 131072

structure ReqCtx where
  /-- SHA_FLAGS_FINAL -/
  final : Bool
  digcnt : Nat
  /-- the first `bufcnt` bytes -/
  buffer : List UInt8
  sg : Scatterlist
  offset : Nat
  total : Nat
  fastNents : Nat
  deriving DecidableEq, Repr

/-- After `aml_sha_init`. -/
def amlShaInit : ReqCtx := ⟨false, 0, [], [], 0, 0, 0⟩

/-- 0 is returned, or -EINPROGRESS for a transfer. -/
inductive Outcome where
  | ended (ctx : ReqCtx)
  | transfer (ctx : ReqCtx) (dscs : List Dsc)
  deriving DecidableEq, Repr

/-! ## Transfers -/

/-- The length that is counted is that of the first descriptor, once for each. -/
def amlShaXmitDma (srcs : List (List UInt8)) (final : Bool) (ctx : ReqCtx) : Outcome :=
  .transfer
    { ctx with
      digcnt := ctx.digcnt + srcs.length * lengthField (srcs.headD []).length
      final := ctx.final || final }
    (srcs.mapIdx fun i src => ⟨src, lengthField src.length, i == 0 && ctx.digcnt == 0, final⟩)

structure Appended where
  sg : Scatterlist
  offset : Nat
  total : Nat
  buffer : List UInt8

/-- The loop of `aml_sha_append_sg`. Where it does not come to the end of an entry the buffer is full or
nothing is left, and it ends. Without an entry there is a fault. -/
def appendSg : Scatterlist → Nat → Nat → List UInt8 → Option Appended
  | [], offset, total, buffer =>
    if buffer.length < shaBufferLen ∧ total ≠ 0 then none else some ⟨[], offset, total, buffer⟩
  | entry :: rest, offset, total, buffer =>
    if buffer.length < shaBufferLen ∧ total ≠ 0 then
      let count := min (min (entry.length - offset) total) (shaBufferLen - buffer.length)
      if count = 0 then some ⟨entry :: rest, offset, total, buffer⟩
      else if offset + count = entry.length then
        appendSg rest 0 (total - count) (buffer ++ (entry.drop offset).take count)
      else some ⟨entry :: rest, offset + count, total - count, buffer ++ (entry.drop offset).take count⟩
    else some ⟨entry :: rest, offset, total, buffer⟩

def amlShaAppendSg (ctx : ReqCtx) : Option ReqCtx :=
  (appendSg ctx.sg ctx.offset ctx.total ctx.buffer).map fun a =>
    { ctx with sg := a.sg, offset := a.offset, total := a.total, buffer := a.buffer }

def amlShaUpdateDmaSlow (ctx : ReqCtx) : Option Outcome :=
  (amlShaAppendSg ctx).map fun ctx =>
    let final := ctx.final && ctx.total == 0
    if ctx.buffer.length % blockSize = 0 ∨ final then amlShaXmitDma [ctx.buffer] final { ctx with buffer := [] }
    else .ended ctx

structure FastRun where
  srcs : List (List UInt8)
  total : Nat
  offset : Nat

/-- The loop over the entries for the fast path; `n` descriptors are left. -/
def fastLoop (final : Bool) : Scatterlist → Nat → Nat → Nat → FastRun
  | [], total, offset, _ => ⟨[], total, offset⟩
  | _ :: _, total, offset, 0 => ⟨[], total, offset⟩
  | entry :: rest, total, offset, n + 1 =>
    if total = 0 then ⟨[], total, offset⟩
    else
      let whole := min total entry.length
      let tail := if final && rest.isEmpty then 0 else whole % blockSize
      let length := whole - tail
      if tail = 0 then
        let run := fastLoop final rest (total - length) length n
        { run with srcs := entry.take length :: run.srcs }
      else ⟨[entry.take length], total - length, length⟩

def fastPath (ctx : ReqCtx) : Outcome :=
  let run := fastLoop ctx.final ctx.sg ctx.total ctx.offset maxNumTables
  let ctx := { ctx with total := run.total, offset := run.offset, fastNents := run.srcs.length }
  if run.srcs.isEmpty then .ended ctx else amlShaXmitDma run.srcs (ctx.final && ctx.total == 0) ctx

/-- The end of `aml_sha_update_dma_start`, with the entry to go on with. -/
def transferFrom (entry : List UInt8) (ctx : ReqCtx) : Option Outcome :=
  if ctx.buffer ≠ [] ∨ ctx.offset ≠ 0 ∨ ctx.total < blockSize ∨ entry.length < blockSize then
    amlShaUpdateDmaSlow ctx
  else some (fastPath ctx)

def amlShaUpdateDmaStart (ctx : ReqCtx) : Option Outcome :=
  if ctx.total = 0 then some (.ended ctx)
  else
    -- all entries of the fast path but the last are done with
    match ctx.sg.drop (ctx.fastNents - 1) with
    | [] => none
    | entry :: rest =>
      if ctx.offset = entry.length then
        match rest with
        | [] => some (.ended { ctx with sg := [], fastNents := min ctx.fastNents 1 })
        | next :: rest => transferFrom next { ctx with sg := next :: rest, offset := 0, fastNents := 0 }
      else transferFrom entry { ctx with sg := entry :: rest, fastNents := 0 }

/-! ## Requests -/

/-- `aml_sha_handle_queue` for an update, with `aml_sha_final_req` where nothing is left -/
def startUpdate (ctx : ReqCtx) : Option Outcome :=
  match amlShaUpdateDmaStart ctx with
  | some (.ended ctx) => if ctx.final then amlShaUpdateDmaSlow ctx else some (.ended ctx)
  | outcome => outcome

/-- The done tasks of a request; `n` bounds how many there are. -/
def doneTasks : Nat → Option Outcome → Option (ReqCtx × List Dsc)
  | _, none => none
  | _, some (.ended ctx) => some (ctx, [])
  | 0, some (.transfer ..) => none
  | n + 1, some (.transfer ctx dscs) =>
    (doneTasks n (amlShaUpdateDmaStart ctx)).map fun (ctx, more) => (ctx, dscs ++ more)

def nbytes (sg : Scatterlist) : Nat := sg.flatten.length

/-- A request of `aml_sha_update`, with all its descriptors. -/
def amlShaUpdate (sg : Scatterlist) (ctx : ReqCtx) : Option (ReqCtx × List Dsc) :=
  if nbytes sg = 0 then some (ctx, [])
  else doneTasks (nbytes sg + 2) (startUpdate { ctx with total := nbytes sg, sg := sg, offset := 0 })

def amlShaFinal (ctx : ReqCtx) : Option (ReqCtx × List Dsc) :=
  doneTasks 2 (amlShaUpdateDmaSlow { ctx with final := true, total := 0, sg := [], offset := 0 })

def amlShaFinup (sg : Scatterlist) (ctx : ReqCtx) : Option (ReqCtx × List Dsc) :=
  if nbytes sg = 0 then amlShaFinal { ctx with final := true } else amlShaUpdate sg { ctx with final := true }

/-! ## Messages -/

def updates : List Scatterlist → ReqCtx → Option (ReqCtx × List Dsc)
  | [], ctx => some (ctx, [])
  | sg :: sgs, ctx => do
    let (ctx, dscs) ← amlShaUpdate sg ctx
    let (ctx, more) ← updates sgs ctx
    return (ctx, dscs ++ more)

/-- The end of a message: `aml_sha_final`, or `aml_sha_finup` with a scatterlist. -/
def ending : Option Scatterlist → ReqCtx → Option (ReqCtx × List Dsc)
  | none, ctx => amlShaFinal ctx
  | some sg, ctx => amlShaFinup sg ctx

/-- Updates and the end of a message; `aml_sha_digest` is `aml_sha_finup` alone. -/
def hashMessage (sgs : List Scatterlist) (last : Option Scatterlist) (ctx : ReqCtx) : Option (ReqCtx × List Dsc) := do
  let (ctx, dscs) ← updates sgs ctx
  let (ctx, more) ← ending last ctx
  return (ctx, dscs ++ more)

end AmlogicV901d.Source.Crypto.Sha
