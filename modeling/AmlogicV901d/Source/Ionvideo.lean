import AmlogicV901d.Lib.RingQueue

/-!
# The ion video capture device

`media/video_processor/ionvideo/ionvideo.c`, with the queues of `ionvideo.h`. The tables by
index are `ionvideo_input`, with 17 entries, and `phy_addr` of the ppmgr2 device, with 16.

A description that the user queues is the number of its `vidioc_qbuf`. A queue has the
indices of the entries of `ionvideo_input` its pointers go to. An access outside of a table
or through the error pointer of `dma_buf_get` is a fault.
-/
namespace AmlogicV901d.Source.Ionvideo
open Lib.RingQueue

/-- IONVIDEO_POOL_SIZE -/
def ionvideoPoolSize : Nat := 16

/-- PPMGR2_MAX_CANVAS -/
def ppmgr2MaxCanvas : Nat := 16

abbrev V4l2q := RingQ Nat (ionvideoPoolSize + 1)

structure Dev where
  inputQueue : V4l2q
  outputQueue : V4l2q
  /-- `ionvideo_input` -/
  input : Nat → Nat
  /-- `phy_addr`, 0 for NULL -/
  phyAddr : Nat → Nat
  vbReady : Int
  /-- calls of `vidioc_qbuf` -/
  queued : Nat
  /-- descriptions in the order in which `vidioc_dqbuf` returned them -/
  returned : List Nat
  /-- descriptions that were in a queue when streaming was turned off -/
  stopped : List Nat

/-- The physical address of an index that has none. `dmaBuf` is what the descriptor of the user is:
no buffer, or one at an address. -/
def mapIndex (index : Nat) (dmaBuf : Option Nat) (dev : Dev) : Option Dev :=
  if dev.phyAddr index = 0 then dmaBuf.map fun addr => { dev with phyAddr := Function.update dev.phyAddr index addr }
  else some dev

/-- The first part of `vidioc_qbuf`: the description is stored and its entry queued. -/
def enqueue (index : Nat) (dev : Dev) : Dev :=
  { dev with
    input := Function.update dev.input index dev.queued
    inputQueue := dev.inputQueue.push index
    queued := dev.queued + 1 }

def vidiocQbuf (index : Nat) (dmaBuf : Option Nat) (dev : Dev) : Option Dev :=
  if index ≥ ionvideoPoolSize + 1 then none
  else if index ≥ ppmgr2MaxCanvas then none
  else mapIndex index dmaBuf (enqueue index dev)

/-- A filled buffer goes to the output queue. -/
def finishBuffer (index : Nat) (dev : Dev) : Dev :=
  { dev with
    inputQueue := dev.inputQueue.drop
    outputQueue := dev.outputQueue.push index
    vbReady := dev.vbReady + 1 }

/-- `reached` says that the tick comes to the input queue; `ret` is what `ionvideo_fillbuff`
returns, which looks up the index of the buffer in `phy_addr`. -/
def ionvideoThreadTick (reached : Bool) (ret : Int) (dev : Dev) : Option Dev :=
  if reached then
    match dev.inputQueue.peek with
    | none => some dev
    | some index =>
      if index ≥ ppmgr2MaxCanvas then none
      else if ret ≠ 0 then some dev
      else some (finishBuffer index dev)
  else some dev

def vidiocDqbuf (dev : Dev) : Dev :=
  match dev.outputQueue.peek with
  | none => dev
  | some index =>
    { dev with
      outputQueue := dev.outputQueue.drop
      vbReady := dev.vbReady - 1
      returned := dev.returned ++ [dev.input index] }

def vidiocStreamon (dev : Dev) : Dev := { dev with vbReady := 0 }

def vidiocStreamoff (dev : Dev) : Dev :=
  { dev with
    inputQueue := dev.inputQueue.init
    outputQueue := dev.outputQueue.init
    stopped := dev.stopped ++ (dev.inputQueue.contents.map dev.input ++ dev.outputQueue.contents.map dev.input) }

/-- Whether data is reported. -/
def vidiocPoll (dev : Dev) : Bool := dev.vbReady > 0

inductive Event where
  | qbuf (index : Nat) (dmaBuf : Option Nat)
  | tick (reached : Bool) (ret : Int)
  | dqbuf
  | streamon
  | streamoff
  deriving DecidableEq

def step (dev : Dev) : Event → Option Dev
  | .qbuf index dmaBuf => vidiocQbuf index dmaBuf dev
  | .tick reached ret => ionvideoThreadTick reached ret dev
  | .dqbuf => some (vidiocDqbuf dev)
  | .streamon => some (vidiocStreamon dev)
  | .streamoff => some (vidiocStreamoff dev)

def emptyQueue : V4l2q := ⟨0, 0, fun _ => 0, by decide, by decide⟩

/-- After the first `vidioc_open`. -/
def opened : Dev := ⟨emptyQueue, emptyQueue, fun _ => 0, fun _ => 0, 0, 0, [], []⟩

@[simp] theorem enqueue_returned (index : Nat) (dev : Dev) : (enqueue index dev).returned = dev.returned := rfl

@[simp] theorem enqueue_stopped (index : Nat) (dev : Dev) : (enqueue index dev).stopped = dev.stopped := rfl

@[simp] theorem finishBuffer_returned (index : Nat) (dev : Dev) : (finishBuffer index dev).returned = dev.returned := rfl

end AmlogicV901d.Source.Ionvideo
