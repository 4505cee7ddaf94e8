import Mathlib.Logic.Function.Basic

/-!
# Three drivers of one crypto engine

`crypto/aml-aes-dma.c`, `crypto/aml-tdes-dma.c` and `crypto/aml-sha-dma.c`: the queues, the
interrupt handlers and the tasklets; the queue functions are those of `crypto/algapi.c`.

A request is known by a number and has what the attempts to process it return: what writes the
key, what starts the first transfer, and what goes on after each transfer. The engine runs at
most one transfer; when it ends the status register is not zero until it is written. The waits
for the status after a key was written end within the call. `err` of a device is always 0.
-/
namespace AmlogicV901d.Source.Crypto.Engine

def eInProgress : Int := -115
def eInval : Int := -22
def eBusy : Int := -16

inductive Driver where
  | tdes | aes | sha
  deriving DecidableEq, Repr

/-! ## Requests -/

/-- SHA_OP_UPDATE, SHA_OP_FINAL -/
inductive ShaOp where
  | update | final
  deriving DecidableEq, Repr

inductive Work where
  /-- what `aml_tdes_write_ctrl` returns -/
  | tdes (ctrl : Int)
  /-- what `aml_aes_write_ctrl` returns, the size, and AES_FLAGS_CTR -/
  | aes (ctrl : Int) (total : Nat) (ctr : Bool)
  /-- what `aml_hmac_install_key` returns if the key is needed, the operation, SHA_FLAGS_FINAL, and
  what `aml_sha_update_req` and `aml_sha_final_req` return -/
  | sha (key : Option Int) (op : ShaOp) (final : Bool) (updateReq finalReq : Int)
  deriving DecidableEq, Repr

def Work.driver : Work → Driver
  | .tdes .. => .tdes
  | .aes .. => .aes
  | .sha .. => .sha

/-- AML_AES_DMA_THRESHOLD -/
def amlAesDmaThreshold : Nat := 16

def shaStart (op : ShaOp) (final : Bool) (updateReq finalReq : Int) : Int :=
  match op with
  | .update => if updateReq ≠ eInProgress ∧ final then finalReq else updateReq
  | .final => finalReq

/-- `err` of `handle_queue` for the request it has taken. -/
def Work.start : Work → Int
  | .tdes ctrl => if ctrl = 0 then eInProgress else ctrl
  | .aes ctrl total ctr =>
    if ctrl = 0 then (if total % amlAesDmaThreshold = 0 ∨ ctr then eInProgress else eInval) else ctrl
  | .sha none op final updateReq finalReq => shaStart op final updateReq finalReq
  | .sha (some key) op final updateReq finalReq =>
    if key = 0 then shaStart op final updateReq finalReq else key

structure Req where
  id : Nat
  /-- CRYPTO_TFM_REQ_MAY_BACKLOG -/
  mayBacklog : Bool
  work : Work
  /-- for each transfer, what the done task comes to after it: -EINPROGRESS if it starts another -/
  next : List Int
  deriving DecidableEq, Repr

/-! ## Queues -/

/-- AML_AES_QUEUE_LENGTH, AML_TDES_QUEUE_LENGTH and AML_SHA_QUEUE_LENGTH -/
def queueLength : Nat := 50

structure CryptoQueue where
  list : List Req
  /-- place of the first request of the backlog; none where it points to the head of the list -/
  backlog : Option Nat
  deriving DecidableEq

def CryptoQueue.accepts (q : CryptoQueue) (r : Req) : Bool := q.list.length < queueLength || r.mayBacklog

def cryptoEnqueueRequest (q : CryptoQueue) (r : Req) : CryptoQueue × Int :=
  if q.list.length ≥ queueLength then
    if r.mayBacklog then (⟨q.list ++ [r], q.backlog <|> some q.list.length⟩, eBusy) else (q, eBusy)
  else (⟨q.list ++ [r], q.backlog⟩, eInProgress)

/-- The next of the request at place `i` is at that place once the first one is gone. -/
def cryptoDequeueRequest (q : CryptoQueue) : Option (Req × CryptoQueue) :=
  match q.list with
  | [] => none
  | r :: rest => some (r, ⟨rest, q.backlog.filter fun i => i < rest.length⟩)

def cryptoGetBacklog (q : CryptoQueue) : Option Req := q.backlog.bind fun i => q.list[i]?

/-! ## State -/

structure Dev where
  queue : CryptoQueue
  /-- AES_FLAGS_BUSY, TDES_FLAGS_BUSY, SHA_FLAGS_BUSY -/
  busy : Bool
  /-- AES_FLAGS_DMA, TDES_FLAGS_DMA, SHA_FLAGS_DMA_ACTIVE -/
  dma : Bool
  /-- SHA_FLAGS_OUTPUT_READY -/
  outputReady : Bool
  req : Option Req
  /-- what is left of `next` of the request -/
  left : List Int
  /-- the tasklet is scheduled -/
  doneTask : Bool
  queueTask : Bool
  deriving DecidableEq

structure Sys where
  dev : Driver → Dev
  /-- DMA_FLAG_MAY_OCCUPY of `dma_busy` -/
  mayOccupy : Bool
  /-- DMA_FLAG_TDES_IN_USE, DMA_FLAG_AES_IN_USE, DMA_FLAG_SHA_IN_USE -/
  inUse : Driver → Bool
  /-- a transfer is going on -/
  running : Bool
  /-- the status register is not zero -/
  status : Bool
  /-- numbers of the requests that were put in a queue -/
  accepted : List Nat
  /-- calls of `complete` -/
  calls : List (Nat × Int)

def Sys.anyInUse (s : Sys) : Bool := s.inUse .tdes || s.inUse .aes || s.inUse .sha

/-- `dma_busy` is not 0 -/
def Sys.dmaBusy (s : Sys) : Bool := s.mayOccupy || s.anyInUse

def Sys.setDev (s : Sys) (d : Driver) (dd : Dev) : Sys := { s with dev := Function.update s.dev d dd }

def complete (r : Req) (err : Int) (s : Sys) : Sys := { s with calls := s.calls ++ [(r.id, err)] }

/-! ## Requests on the engine -/

/-- `aml_aes_finish_req`, `aml_tdes_finish_req`, `aml_sha_finish_req`; only the last has a flag for its
output. -/
def finishReq (d : Driver) (r : Req) (err : Int) (s : Sys) : Sys :=
  complete r err
    ({ s with mayOccupy := false }.setDev d { s.dev d with busy := false, outputReady := false })

/-- `aml_aes_crypt_dma`, `aml_tdes_crypt_dma`, `aml_sha_xmit_dma` -/
def startTransfer (d : Driver) (r : Req) (left : List Int) (s : Sys) : Sys :=
  { s with inUse := Function.update s.inUse d true, running := true }.setDev d
    { s.dev d with dma := true, req := some r, left := left }

/-- The request that was taken from the queue. A cipher that ends it here schedules its queue task. -/
def process (d : Driver) (r : Req) (s : Sys) : Sys :=
  if r.work.start = eInProgress then startTransfer d r r.next s
  else if d = .sha then finishReq d r r.work.start s
  else
    let s := finishReq d r r.work.start (s.setDev d { s.dev d with req := some r })
    s.setDev d { s.dev d with queueTask := true }

def notifyBacklog (backlog : Option Req) (s : Sys) : Sys :=
  match backlog with
  | none => s
  | some r => complete r eInProgress s

/-- The next request of a queue, and what the queue then is, are taken. -/
def occupy (d : Driver) (q : CryptoQueue) (s : Sys) : Sys :=
  { s with mayOccupy := true }.setDev d { s.dev d with queue := q, busy := true }

/-- `handle_queue` after a request was put in the queue, if there is one -/
def restart (d : Driver) (s : Sys) : Sys :=
  if (s.dev d).busy || s.dmaBusy then s
  else
    match cryptoDequeueRequest (s.dev d).queue with
    | none => s
    | some (r, q) => process d r (notifyBacklog (cryptoGetBacklog (s.dev d).queue) (occupy d q s))

/-- The first lines of `handle_queue`, and that the request is in the queue. -/
def enqueue (d : Driver) (r : Req) (s : Sys) : Sys :=
  let q := (s.dev d).queue
  { s.setDev d { s.dev d with queue := (cryptoEnqueueRequest q r).1 } with
    accepted := if q.accepts r then s.accepted ++ [r.id] else s.accepted }

/-- `aml_aes_handle_queue`, `aml_tdes_handle_queue`, `aml_sha_handle_queue` -/
def handleQueue (d : Driver) (r : Option Req) (s : Sys) : Sys × Int :=
  match r with
  | none => (restart d s, 0)
  | some r => (restart d (enqueue d r s), (cryptoEnqueueRequest (s.dev d).queue r).2)

/-! ## Interrupt handlers and tasklets -/

/-- The transfer ends. -/
def transferEnds (s : Sys) : Sys := if s.running then { s with running := false, status := true } else s

/-- `aml_aes_irq`, `aml_tdes_irq`, `aml_sha_irq`; true for IRQ_HANDLED -/
def irq (d : Driver) (s : Sys) : Sys × Bool :=
  if s.status then
    if s.mayOccupy && !s.anyInUse then (s, true)
    else if (s.dev d).dma && s.inUse d then
      ({ s with status := false, inUse := Function.update s.inUse d false }.setDev d
        { s.dev d with doneTask := true, outputReady := (s.dev d).outputReady || decide (d = Driver.sha) }, true)
    else (s, false)
  else (s, false)

/-- The end of the done tasks: go on with the request, or finish it and take the next. -/
def goOn (d : Driver) (r : Req) (s : Sys) : Sys :=
  let err := (s.dev d).left.headD 0
  if err = eInProgress then startTransfer d r (s.dev d).left.tail s
  else (handleQueue d none (finishReq d r err s)).1

/-- `aml_aes_done_task`, `aml_tdes_done_task`; without AES_FLAGS_DMA there is nothing to stop. -/
def cipherDoneTask (d : Driver) (r : Req) (s : Sys) : Sys :=
  if (s.dev d).dma then goOn d r (s.setDev d { s.dev d with dma := false })
  else (handleQueue d none (finishReq d r eInval s)).1

def amlShaDoneTask (r : Req) (s : Sys) : Sys :=
  if (s.dev .sha).busy then
    if (s.dev .sha).outputReady && (s.dev .sha).dma then
      goOn .sha r (s.setDev .sha { s.dev .sha with dma := false, outputReady := false })
    else s
  else (handleQueue .sha none s).1

/-- The done task, if it is scheduled, with `req` of the device. -/
def doneTask (d : Driver) (s : Sys) : Sys :=
  match (s.dev d).doneTask, (s.dev d).req with
  | true, some r =>
    let s := s.setDev d { s.dev d with doneTask := false }
    if d = .sha then amlShaDoneTask r s else cipherDoneTask d r s
  | _, _ => s

/-- `aml_aes_queue_task`, `aml_tdes_queue_task`, if it is scheduled. -/
def queueTask (d : Driver) (s : Sys) : Sys :=
  if (s.dev d).queueTask then (handleQueue d none (s.setDev d { s.dev d with queueTask := false })).1
  else s

/-! ## Runs -/

inductive Event where
  /-- a request to its driver -/
  | enqueue (r : Req)
  | transferEnds
  /-- the handler of one driver is called -/
  | irq (d : Driver)
  | doneTask (d : Driver)
  | queueTask (d : Driver)
  deriving DecidableEq, Repr

def step (s : Sys) : Event → Sys
  | .enqueue r => (handleQueue r.work.driver (some r) s).1
  | .transferEnds => transferEnds s
  | .irq d => (irq d s).1
  | .doneTask d => doneTask d s
  | .queueTask d => queueTask d s

def Dev.initial : Dev := ⟨⟨[], none⟩, false, false, false, none, [], false, false⟩

def Sys.initial : Sys := ⟨fun _ => .initial, false, fun _ => false, false, false, [], []⟩

def run (evs : List Event) : Sys := evs.foldl step .initial

end AmlogicV901d.Source.Crypto.Engine
