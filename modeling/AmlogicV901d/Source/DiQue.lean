import AmlogicV901d.Lib.SlotPool

/-!
# The queues of the deinterlacer

Source: media/di_multi/di_que.c:50-230, 258-275, 329-497, 511-519, 552-592, 661-772,
897-985, deinterlace.h:66-73, 330-347, 593-603 and di_data_l.h:713-739.

A buffer is named by its array and its place in it, and its `queue_index` is kept by the
channel. A `kfifo` is the list of its words. Prints and the recovery flag are left out.
-/
namespace AmlogicV901d.Source.DiQue
open Lib.SlotPool

/-! ## Buffers -/

/-- VFRAME_TYPE_IN, VFRAME_TYPE_LOCAL and VFRAME_TYPE_POST -/
inductive VframeType
  | input
  | localBuf
  | post
  deriving DecidableEq, Repr

def VframeType.toNat : VframeType → Nat
  | .input => 1
  | .localBuf => 2
  | .post => 3

/-- MAX_IN_BUF_NUM, MAX_LOCAL_BUF_NUM * 2 and MAX_POST_BUF_NUM -/
def VframeType.bufNum : VframeType → Nat
  | .input => 15
  | .localBuf => 14
  | .post => 20

structure DiBuf where
  type : VframeType
  index : Fin type.bufNum
  deriving DecidableEq, Repr

/-- `pw_buf_2_qindex`, which is also what the pools have. -/
def pwBuf2Qindex (diBuf : DiBuf) : Nat := (diBuf.type.toNat <<< 8) ||| diBuf.index.val

def bufAt (type : VframeType) (index : Nat) : Option DiBuf :=
  if h : index < type.bufNum then some ⟨type, ⟨index, h⟩⟩ else none

def pwQindex2Buf (qindex : Nat) : Option DiBuf :=
  match qindex / 0x100 % 0x100 with
  | 1 => bufAt .input (qindex % 0x100)
  | 2 => bufAt .localBuf (qindex % 0x100)
  | 3 => bufAt .post (qindex % 0x100)
  | _ => none

/-! ## Channels -/

/-- 0, first in first out; 1, general; 2, fix position for di buf -/
inductive PoolType
  | firstOut
  | general
  | fixed
  deriving DecidableEq, Repr

structure QueueS where
  num : Nat
  inIdx : Nat
  outIdx : Nat
  type : PoolType
  pool : Nat → Nat

def maxQueuePoolSize : Nat := 256

def queueNum : Nat := 5

/-- QUEUE_LOCAL_FREE, QUEUE_RECYCLE, QUEUE_DISPLAY and QUEUE_TMP -/
def queueLocalFree : Nat := 0

def queueRecycle : Nat := 1

def queueDisplay : Nat := 2

def queueTmp : Nat := 3

inductive QueType
  | inFree
  | preReady
  | postFree
  | postReady
  | postBack
  | postDoing
  | postKeepReAlloc
  | preNoBufWait
  | pstNoBufWait
  | preNoBuf
  | pstNoBuf
  | dbg
  deriving DecidableEq, Repr

def QueType.all : List QueType :=
  [.inFree, .preReady, .postFree, .postReady, .postBack, .postDoing, .postKeepReAlloc, .preNoBufWait, .pstNoBufWait,
    .preNoBuf, .pstNoBuf, .dbg]

def QueType.toNat (qtype : QueType) : Nat := QueType.all.idxOf qtype

def maxFifoSize : Nat := 32

structure Channel where
  queue : Nat → QueueS
  fifo : QueType → List Nat
  queueIndex : DiBuf → Int

def Channel.setQueue (ch : Channel) (i : Nat) (q : QueueS) : Channel :=
  { ch with queue := fun j => if j = i then q else ch.queue j }

def Channel.setFifo (ch : Channel) (qtype : QueType) (words : List Nat) : Channel :=
  { ch with fifo := fun t => if t = qtype then words else ch.fifo t }

def Channel.setIndex (ch : Channel) (diBuf : DiBuf) (value : Int) : Channel :=
  { ch with queueIndex := fun b => if b = diBuf then value else ch.queueIndex b }

/-! ## Fifos -/

def pwQueueClear (qtype : QueType) (ch : Channel) : Channel := ch.setFifo qtype []

def pwQueueIn (qtype : QueType) (bufIndex : Nat) (ch : Channel) : Bool × Channel :=
  if (ch.fifo qtype).length < maxFifoSize then (true, ch.setFifo qtype (ch.fifo qtype ++ [bufIndex])) else (false, ch)

def pwQueueOut (qtype : QueType) (ch : Channel) : Channel := ch.setFifo qtype (ch.fifo qtype).tail

def pwQueuePeek (qtype : QueType) (ch : Channel) : Option Nat := (ch.fifo qtype).head?

/-- The copy in `QUE_DBG` is emptied while it is listed, before the words are counted. -/
def diQueList (qtype : QueType) (ch : Channel) : List Nat × Channel :=
  if ch.fifo qtype = [] then ([], ch)
  else
    let after := ch.setFifo .dbg []
    ((ch.fifo qtype).take (after.fifo qtype).length, after)

def diQueInit (ch : Channel) : Channel :=
  QueType.all.foldl (fun ch qtype => if qtype = .postKeepReAlloc then ch else pwQueueClear qtype ch) ch

def diQueOutToDiBuf (qtype : QueType) (ch : Channel) : Option DiBuf × Channel :=
  match pwQueuePeek qtype ch with
  | none => (none, ch)
  | some qIndex =>
    match pwQindex2Buf qIndex with
    | none => (none, ch)
    | some diBuf => (some diBuf, (pwQueueOut qtype ch).setIndex diBuf (-1))

def diQueOut (qtype : QueType) (diBuf : DiBuf) (ch : Channel) : Bool × Channel :=
  match pwQueuePeek qtype ch with
  | none => (false, ch)
  | some qIndex =>
    if pwBuf2Qindex diBuf ≠ qIndex then (false, ch) else (true, (pwQueueOut qtype ch).setIndex diBuf (-1))

def diQueIn (qtype : QueType) (diBuf : Option DiBuf) (ch : Channel) : Bool × Channel :=
  match diBuf with
  | none => (false, ch)
  | some diBuf =>
    -- a buffer that is in some queue is only reported
    let ch := if ch.queueIndex diBuf ≠ -1 then ch.setIndex diBuf (-1) else ch
    match pwQueueIn qtype (pwBuf2Qindex diBuf) ch with
    | (false, ch) => (false, ch)
    | (true, ch) => (true, ch.setIndex diBuf (qtype.toNat + queueNum))

/-- One round of the loop that builds the queue again. -/
def rebuild (qtype : QueType) (diBuf : DiBuf) (r : Bool × Channel) (word : Nat) : Bool × Channel :=
  if word = pwBuf2Qindex diBuf then (true, r.2.setIndex diBuf (-1)) else (r.1, (pwQueueIn qtype word r.2).2)

def diQueOutNotFifo (qtype : QueType) (diBuf : DiBuf) (ch : Channel) : Bool × Channel :=
  match pwQueuePeek qtype ch with
  | none => (false, ch)
  | some _ =>
    let (arr, ch) := diQueList qtype ch
    arr.foldl (rebuild qtype diBuf) (false, pwQueueClear qtype ch)

/-- QUEUE_NEW_THD_MIN < q_type < QUEUE_NEW_THD_MAX; the last number in this range is that of no
fifo. -/
def diQueType2New (qType : Int) : Option QueType :=
  if 4 < qType ∧ qType < 18 then QueType.all[(qType - queueNum).toNat]? else none

/-! ## Pools -/

def queueInit (use2InterlaceBuff : Bool) (ch : Channel) : Channel :=
  { ch with queue := fun i =>
      if i < queueNum then
        { num := 0, inIdx := 0, outIdx := 0, pool := fun _ => 0
          type :=
            if i = queueLocalFree ∧ use2InterlaceBuff then .fixed
            else if i = queueRecycle ∨ i = queueDisplay ∨ i = queueTmp then .general
            else .firstOut }
      else ch.queue i }

/-- The first slot with a value. -/
def findSlot (pool : Nat → Nat) (value : Nat) : Option Nat := (List.range maxQueuePoolSize).find? fun i => pool i = value

/-- The next slot. -/
def wrap (idx : Nat) : Nat := if idx + 1 ≥ maxQueuePoolSize then 0 else idx + 1

/-- A pool without a value, or nothing. -/
def poolOut (diBuf : DiBuf) (q : QueueS) : Option QueueS :=
  if q.num > 0 then
    match q.type with
    | .firstOut =>
      if q.pool q.outIdx = pwBuf2Qindex diBuf then
        some { q with num := q.num - 1, pool := setSlot q.pool q.outIdx 0, outIdx := wrap q.outIdx }
      else none
    | .general => (findSlot q.pool (pwBuf2Qindex diBuf)).map fun i =>
        { q with num := q.num - 1, pool := setSlot q.pool i 0 }
    | .fixed =>
      if diBuf.index.val < maxQueuePoolSize ∧ q.pool diBuf.index.val = pwBuf2Qindex diBuf then
        some { q with num := q.num - 1, pool := setSlot q.pool diBuf.index.val 0 }
      else none
  else none

/-- Whether the buffer is taken out of its queue. -/
def queueOut (diBuf : Option DiBuf) (ch : Channel) : Bool × Channel :=
  match diBuf with
  | none => (false, ch)
  | some diBuf =>
    match diQueType2New (ch.queueIndex diBuf) with
    | some nqtype => diQueOut nqtype diBuf ch
    | none =>
      if 0 ≤ ch.queueIndex diBuf ∧ ch.queueIndex diBuf < queueNum then
        let i := (ch.queueIndex diBuf).toNat
        match poolOut diBuf (ch.queue i) with
        | none => (false, ch)
        | some q => (true, (ch.setQueue i q).setIndex diBuf (-1))
      else (false, ch)

/-- A pool with one more value, or nothing. -/
def poolIn (diBuf : DiBuf) (q : QueueS) : Option QueueS :=
  match q.type with
  | .firstOut =>
    some { q with pool := setSlot q.pool q.inIdx (pwBuf2Qindex diBuf), inIdx := wrap q.inIdx, num := q.num + 1 }
  | .general => (findSlot q.pool 0).map fun i =>
      { q with pool := setSlot q.pool i (pwBuf2Qindex diBuf), num := q.num + 1 }
  | .fixed =>
    if diBuf.index.val < maxQueuePoolSize ∧ q.pool diBuf.index.val = 0 then
      some { q with pool := setSlot q.pool diBuf.index.val (pwBuf2Qindex diBuf), num := q.num + 1 }
    else none

def queueIn (diBuf : Option DiBuf) (queueIdx : Nat) (ch : Channel) : Channel :=
  match diBuf with
  | none => ch
  | some diBuf =>
    match diQueType2New queueIdx with
    | some nqtype => (diQueIn nqtype (some diBuf) ch).2
    | none =>
      if ch.queueIndex diBuf ≠ -1 then ch
      else match poolIn diBuf (ch.queue queueIdx) with
        | none => ch
        | some q => (ch.setQueue queueIdx q).setIndex diBuf queueIdx

end AmlogicV901d.Source.DiQue
