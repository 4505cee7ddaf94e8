import AmlogicV901d.Lib.ByteMemory

/-!
# The daemon of the voice remote

`vendor/amazon/audio/libs/btremoted/btremoted.c`.

A turn of the main loop is a function of what `poll` and the calls on the sockets return in it.
The mSBC decoder and the loss concealment are a parameter. A descriptor of -1 is `none`. Beside
the state stands a trace of the accepted clients, the frames and the bytes sent.
-/
namespace AmlogicV901d.Source.Btremoted
open Lib.ByteMemory

/-! ## Configuration -/

def scoSeqOffset : Nat := 1

def msbcSyncOffset : Nat := 2

def msbcSyncCode : UInt8 := 0xAD

def bufferSize : Nat := 320000

def decodeBufSize : Nat := 256

def numSeqCodes : Nat := 4

/-- The properties of the daemon, and the descriptor of the server socket. -/
structure Config where
  decodeEnabled : Bool
  plcEnabled : Bool
  ntrim : Int32
  server : Nat

/-- `pcm_buf` and `len` of `handle_msbc_data`. -/
structure Pcm where
  bytes : List UInt8
  len : Nat

/-- `sbc_decode` with the frame length it returns; `uchar_to_short_array`, `PLC_good_frame` or
`PLC_bad_frame`, and `short_to_uchar_array`; `InitPLC`. -/
structure Codec (σ : Type) where
  sbcDecode : σ → List UInt8 → Pcm → Int × Pcm × σ
  plcFrame : σ → Bool → List UInt8 → List UInt8 × σ
  initPLC : σ → σ

inductive Status
  | success
  | clientFailed
  | scoClosed
  | scoFailed
  | scoNoData
  | scoDataFailed
  deriving DecidableEq, Repr

inductive Id
  | sco
  | server
  | client
  deriving DecidableEq, Repr

/-! ## State -/

/-- A frame comes with the position `tail` that it finds. -/
inductive Event
  | accept (fd : Nat)
  | frame (bytes : List UInt8) (tail : Nat)
  | send (fd : Nat) (bytes : List UInt8)
  deriving DecidableEq, Repr

/-- The trace has the last event first. -/
structure Daemon (σ : Type) where
  codec : σ
  lastSeqNum : Nat
  mainBuf : Memory
  head : Nat
  tail : Nat
  firstWrite : Bool
  sco : Option Nat
  client : Option Nat
  trace : List Event

def pollIn : UInt16 := 0x1

/-- POLLHUP | POLLERR | POLLNVAL -/
def pollGone : UInt16 := 0x38

/-- What the calls of one turn return: `revents` of `poll`, the packet of `recv` or an error
(with `errno` one that stands for no data), the descriptors of `accept` and
`open_sco_socket`, and how much `send` would take. -/
structure Poll where
  revents : Id → UInt16
  recv : Option (List UInt8)
  again : Bool
  accept : Option Nat
  openSco : Option Nat
  send : Option Nat

section Functions
variable {σ : Type} (cfg : Config) (codec : Codec σ)

/-! ## The buffer -/

def trim : Nat := if cfg.decodeEnabled then cfg.ntrim.toUInt32.toNat else 0

def clearMainBuf (d : Daemon σ) : Daemon σ := { d with head := trim cfg, tail := 0 }

/-- The end of `write_to_main_buf`: a frame for which there is no room is left out. -/
def appendFrame (d : Daemon σ) (frame : List UInt8) : Daemon σ :=
  let d' := { d with trace := .frame frame d.tail :: d.trace }
  if d.tail + frame.length ≤ bufferSize then
    { d' with mainBuf := store d.mainBuf d.tail frame, tail := d.tail + frame.length }
  else d'

/-! ## Frames -/

def beToLe : Nat → List UInt8 → List UInt8
  | len + 1, a :: b :: rest => b :: a :: beToLe (len - 1) rest
  | _, rest => rest

/-- The start of `write_to_main_buf`, in place; decoding is enabled. -/
def convert (good : Bool) (pcm : Pcm) (st : σ) : Pcm × σ :=
  let bytes := beToLe pcm.len pcm.bytes
  if cfg.plcEnabled then
    let (out, st) := codec.plcFrame st good (bytes.take pcm.len)
    ({ pcm with bytes := out ++ bytes.drop pcm.len }, st)
  else ({ pcm with bytes }, st)

def seqCodeToNum (code : UInt8) : Option Nat :=
  if code = 0x0 then some 0
  else if code = 0x3 then some 1
  else if code = 0xc then some 2
  else if code = 0xf then some 3
  else none

/-- The mSBC frame of digital silence. -/
def indices0 : List UInt8 :=
  [0xad, 0x00, 0x00, 0xc5, 0x00, 0x00, 0x00, 0x00, 0x77, 0x6d,
   0xb6, 0xdd, 0xdb, 0x6d, 0xb7, 0x76, 0xdb, 0x6d, 0xdd, 0xb6,
   0xdb, 0x77, 0x6d, 0xb6, 0xdd, 0xdb, 0x6d, 0xb7, 0x76, 0xdb,
   0x6d, 0xdd, 0xb6, 0xdb, 0x77, 0x6d, 0xb6, 0xdd, 0xdb, 0x6d,
   0xb7, 0x76, 0xdb, 0x6d, 0xdd, 0xb6, 0xdb, 0x77, 0x6d, 0xb6,
   0xdd, 0xdb, 0x6d, 0xb7, 0x76, 0xdb, 0x6c, 0x0]

/-- The frames that are concealed for lost packets; what `sbc_decode` returns is not looked at. -/
def concealLost : Nat → Pcm → σ → List (List UInt8) × Pcm × σ
  | 0, pcm, st => ([], pcm, st)
  | n + 1, pcm, st =>
    let (_, pcm, st) := codec.sbcDecode st indices0 pcm
    let (pcm, st) := convert cfg codec false pcm st
    let frame := pcm.bytes.take pcm.len
    let (frames, pcm, st) := concealLost n pcm st
    (frame :: frames, pcm, st)

/-- What a packet comes to. -/
structure Decoded (σ : Type) where
  status : Status
  frames : List (List UInt8)
  codec : σ
  lastSeqNum : Nat

/-- A good frame behind the concealed ones. -/
def decodeGood (data : List UInt8) (frames : List (List UInt8)) (pcm : Pcm) (st : σ) (lastSeqNum : Nat) : Decoded σ :=
  let (framelen, pcm, st) := codec.sbcDecode st data pcm
  if framelen > 0 then
    let (pcm, st) := convert cfg codec true pcm st
    ⟨.success, frames ++ [pcm.bytes.take pcm.len], st, lastSeqNum⟩
  else ⟨.scoDataFailed, frames, st, lastSeqNum⟩

/-- `handle_msbc_data` up to the buffer. -/
def decodePacket (packet : List UInt8) (st : σ) (lastSeqNum : Nat) : Decoded σ :=
  let data := packet.drop msbcSyncOffset
  let pcm : Pcm := ⟨List.replicate decodeBufSize 0, 0⟩
  if data.head? ≠ some msbcSyncCode then ⟨.scoDataFailed, [], st, lastSeqNum⟩
  else if !cfg.decodeEnabled then ⟨.success, [data], st, lastSeqNum⟩
  else if cfg.plcEnabled then
    match seqCodeToNum (packet.getD scoSeqOffset 0 >>> 4) with
    | none => ⟨.scoDataFailed, [], st, lastSeqNum⟩
    | some seqNum =>
      let (frames, pcm, st) := concealLost cfg codec ((seqNum + numSeqCodes - lastSeqNum - 1) % numSeqCodes) pcm st
      decodeGood cfg codec data frames pcm st seqNum
  else decodeGood cfg codec data [] pcm st lastSeqNum

def handleMsbcData (packet : List UInt8) (d : Daemon σ) : Status × Daemon σ :=
  let decoded := decodePacket cfg codec packet d.codec d.lastSeqNum
  (decoded.status, decoded.frames.foldl appendFrame { d with codec := decoded.codec, lastSeqNum := decoded.lastSeqNum })

def handleScoPacket (p : Poll) (d : Daemon σ) : Status × Daemon σ :=
  match p.recv with
  | none => (if p.again then .scoNoData else .scoDataFailed, d)
  | some packet =>
    if packet.length < msbcSyncOffset then (if p.again then .scoNoData else .scoDataFailed, d)
    else handleMsbcData cfg codec packet d

/-! ## The client -/

def writeToClient (p : Poll) (d : Daemon σ) : Status × Daemon σ :=
  match d.client with
  | none => (.clientFailed, d)
  | some fd =>
    if d.tail < d.head then (.success, d)
    else
      let d := { d with firstWrite := true }
      match p.send with
      | none => (.clientFailed, d)
      | some accepted =>
        let written := min accepted (d.tail - d.head)
        let d' := { d with trace := .send fd (load d.mainBuf d.head written) :: d.trace }
        if d.head + written ≥ d.tail then (.success, { d' with head := 0, tail := 0 })
        else (.success, { d' with head := d.head + written })

/-! ## Events -/

def Daemon.fd (d : Daemon σ) : Id → Option Nat
  | .sco => d.sco
  | .server => some cfg.server
  | .client => d.client

def handleDisconnectionEvent (id : Id) (d : Daemon σ) : Status × Daemon σ :=
  if d.fd cfg id = d.sco then (.scoClosed, { d with sco := none })
  else if d.fd cfg id = d.client then
    (.success, clearMainBuf cfg { d with client := none, firstWrite := false, sco := none })
  else (.success, d)

def handleConnectionEvent (p : Poll) (d : Daemon σ) : Status × Daemon σ :=
  match p.accept with
  | none => (.clientFailed, { d with client := none })
  | some fd =>
    let d := { d with client := some fd, trace := .accept fd :: d.trace }
    match d.sco with
    | some _ => (.success, { d with codec := codec.initPLC d.codec, lastSeqNum := 3 })
    | none =>
      match p.openSco with
      | none => (.scoFailed, d)
      | some sco =>
        let d := clearMainBuf cfg { d with sco := some sco }
        (.success, { d with codec := codec.initPLC d.codec, lastSeqNum := 3 })

/-! ## The main loop -/

/-- One socket of a turn, and whether the loop over the sockets ends with it. -/
def pollSocket (p : Poll) (id : Id) (ret : Status) (d : Daemon σ) : Bool × Status × Daemon σ :=
  match d.fd cfg id with
  | none => (false, ret, d)
  | some fd =>
    if p.revents id = 0 then (false, ret, d)
    else if p.revents id &&& pollGone ≠ 0 then
      let (ret, d) := handleDisconnectionEvent cfg id d
      (ret ≠ .success, ret, d)
    else if fd = cfg.server ∧ p.revents id &&& pollIn ≠ 0 then (true, handleConnectionEvent cfg codec p d)
    else if some fd = d.sco then (false, handleScoPacket cfg codec p d)
    else if some fd = d.client then (false, ret, if d.tail > 0 then (writeToClient p d).2 else d)
    else (false, ret, d)

def pollSockets (p : Poll) : List Id → Status → Daemon σ → Status × Daemon σ
  | [], ret, d => (ret, d)
  | id :: ids, ret, d =>
    match pollSocket cfg codec p id ret d with
    | (true, ret, d) => (ret, d)
    | (false, ret, d) => pollSockets p ids ret d

/-- The client is closed after a failure of the SCO socket. -/
def restart (d : Daemon σ) : Daemon σ :=
  match d.client with
  | none => d
  | some _ =>
    let d := clearMainBuf cfg { d with client := none, firstWrite := false }
    { d with codec := codec.initPLC d.codec }

def turn (p : Poll) (d : Daemon σ) : Daemon σ :=
  let (ret, d) := pollSockets cfg codec p [.sco, .server, .client] .success d
  if ret = .scoFailed ∨ ret = .scoClosed then restart cfg codec d else d

/-- Before the main loop. -/
def boot (st : σ) : Daemon σ where
  codec := st
  lastSeqNum := 0
  mainBuf := zeroed
  head := 0
  tail := 0
  firstWrite := false
  sco := none
  client := none
  trace := []

def startMainLoop (polls : List Poll) (st : σ) : Daemon σ := polls.foldl (fun d p => turn cfg codec p d) (boot st)

end Functions

end AmlogicV901d.Source.Btremoted
