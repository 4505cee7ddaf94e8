import AmlogicV901d.Source.Crypto.Sha

/-!
# The state of a hash request in memory

`crypto/aml-sha-dma.c`: the memory `aml_sha_init` asks for and `aml_sha_finish` gives back,
`aml_sha_state_restore`, `aml_sha_export` and `aml_sha_import`.

A request has a digest buffer and a page for descriptors, and keeps their addresses in its
record. Memory that is not there faults: what was given back is not read, not handed to the
engine and not given back again. The engine is a parameter.
-/
namespace AmlogicV901d.Source.Crypto.ShaState
open Source.Crypto.Sha

variable {σ : Type}

/-- What the engine makes of the state in a digest buffer. Whole blocks are absorbed; what is left of a message is
padded, and gives the digest. -/
structure Engine (σ : Type) where
  /-- the state a hash begins with -/
  initial : σ
  /-- the bytes of `kzalloc` -/
  zeroed : σ
  absorb : σ → List UInt8 → σ
  close : σ → List UInt8 → σ
  close_absorb : ∀ state blocks rest, blocks.length % blockSize = 0 →
    close (absorb state blocks) rest = close state (blocks ++ rest)

/-- The digest of a message. -/
def Engine.digest (e : Engine σ) (message : List UInt8) : σ := e.close e.initial message

/-- One descriptor, of which the engine has the bytes up to its length. -/
def Engine.feed (e : Engine σ) (state : σ) (d : Dsc) : σ :=
  let state := if d.first then e.initial else state
  if d.last then e.close state (d.src.take d.length) else e.absorb state (d.src.take d.length)

inductive Resource where
  | digest (address : Nat)
  | descriptor (address : Nat)
  deriving DecidableEq, Repr

structure Memory (σ : Type) where
  digests : Nat → Option σ
  descriptors : Nat → Bool
  /-- the address the next request is given -/
  next : Nat
  /-- what was given back -/
  released : List Resource

def Memory.empty : Memory σ := ⟨fun _ => none, fun _ => false, 0, []⟩

def Memory.setDigest (m : Memory σ) (address : Nat) (state : σ) : Memory σ :=
  { m with digests := fun other => if other = address then some state else m.digests other }

/-- The record `aml_sha_reqctx`, with its addresses. -/
structure Request where
  ctx : ReqCtx
  digest : Nat
  descriptor : Nat
  deriving DecidableEq, Repr

/-- `aml_sha_init`, which gets its memory. -/
def init (e : Engine σ) (m : Memory σ) : Request × Memory σ :=
  (⟨amlShaInit, m.next, m.next⟩, { m.setDigest m.next e.zeroed with
      descriptors := fun address => if address = m.next then true else m.descriptors address
      next := m.next + 1 })

/-- `aml_sha_state_restore` reads the digest buffer by way of the page, unless nothing was hashed. -/
def amlShaStateRestore (r : Request) (m : Memory σ) : Option Unit :=
  if r.ctx.digcnt = 0 then some ()
  else if (m.digests r.digest).isSome ∧ m.descriptors r.descriptor = true then some () else none

/-- The transfers of a request. -/
def transfer (e : Engine σ) (dscs : List Dsc) (r : Request) (m : Memory σ) : Option (Memory σ) :=
  if dscs = [] then some m
  else if m.descriptors r.descriptor = true then
    (m.digests r.digest).map fun state => m.setDigest r.digest (dscs.foldl e.feed state)
  else none

/-- A request for which the driver does `run`. -/
def serve (e : Engine σ) (run : ReqCtx → Option (ReqCtx × List Dsc)) (r : Request) (m : Memory σ) :
    Option (Request × Memory σ) := do
  amlShaStateRestore r m
  let (ctx, dscs) ← run r.ctx
  let m ← transfer e dscs r m
  return ({ r with ctx := ctx }, m)

/-- The memory of a request is given back. -/
def Memory.release (m : Memory σ) (r : Request) : Memory σ :=
  { m with
    digests := fun address => if address = r.digest then none else m.digests address
    descriptors := fun address => if address = r.descriptor then false else m.descriptors address
    released := m.released ++ [.digest r.digest, .descriptor r.descriptor] }

/-- `aml_sha_finish`, without HMAC: the result, and the memory is given back. -/
def amlShaFinish (r : Request) (m : Memory σ) : Option (σ × Memory σ) := do
  let state ← m.digests r.digest
  if m.descriptors r.descriptor = true then some (state, m.release r) else none

def update (e : Engine σ) (sg : Scatterlist) (r : Request) (m : Memory σ) : Option (Request × Memory σ) :=
  if nbytes sg = 0 then some (r, m) else serve e (amlShaUpdate sg) r m

def updates (e : Engine σ) : List Scatterlist → Request → Memory σ → Option (Request × Memory σ)
  | [], r, m => some (r, m)
  | sg :: sgs, r, m => do
    let (r, m) ← update e sg r m
    updates e sgs r m

/-- Updates and the end of a message. -/
structure Continuation where
  sgs : List Scatterlist
  last : Option Scatterlist
  deriving DecidableEq, Repr

/-- A request to its end. -/
def finishWith (e : Engine σ) (c : Continuation) (r : Request) (m : Memory σ) : Option (σ × Memory σ) := do
  let (r, m) ← updates e c.sgs r m
  let (r, m) ← serve e (ending c.last) r m
  amlShaFinish r m

/-- The record as it is, with its addresses. -/
def amlShaExport (r : Request) : Request := r

/-- The record becomes that of another request. -/
def amlShaImport (state : Request) : Request := state

/-- A request is exported after a prefix and goes on with `a`, or is left there; then another request imports the
state and goes on with `b`. -/
def exported (e : Engine σ) (sgs : List Scatterlist) (a : Option Continuation) (b : Continuation) :
    Option (Option σ × σ × Memory σ) := do
  let (r, m) := init e Memory.empty
  let (r, m) ← updates e sgs r m
  let state := amlShaExport r
  let (first, m) ←
    match a with
    | none => some (none, m)
    | some a => (finishWith e a r m).map fun (digest, m) => (some digest, m)
  let (second, m) ← finishWith e b (amlShaImport state) m
  return (first, second, m)

end AmlogicV901d.Source.Crypto.ShaState
