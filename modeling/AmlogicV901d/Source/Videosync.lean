import AmlogicV901d.Lib.RingQueue
import Mathlib.Data.Nat.Bitwise

/-!
# Video synchronisation

`media/video_processor/videosync/videosync.c`, with the queues of `vfp.h` and one instance
(VIDEOSYNC_S_COUNT).

A frame is the number of its `vf_get`, so that a frame that comes again is another one.
Whether a frame has expired, `async_mode`, `no_render` and the number of frames that wait
upstream are inputs of every tick. The model keeps what was taken, delivered and returned.
-/
namespace AmlogicV901d.Source.Videosync
open Lib.RingQueue List

/-- VIDEOSYNC_S_POOL_SIZE -/
def videosyncPoolSize : Nat := 16

abbrev Vfq := RingQ Nat (videosyncPoolSize + 1)

inductive ActiveState where
  | active | inactiveReq | inactive
  deriving DecidableEq

structure DevS where
  queuedQ : Vfq
  readyQ : Vfq
  activeState : ActiveState
  /-- `active_dev_s_num` of the device -/
  activeDevNum : BitVec 32
  /-- frames got from upstream: those below this number -/
  taken : Nat
  /-- frames the receiver holds -/
  hands : List Nat
  /-- frames in the order in which the receiver got them -/
  delivered : List Nat
  /-- frames in the order in which they were put upstream -/
  returned : List Nat

/-- Pops until the queue is empty. -/
def drain : Nat → Vfq → List Nat → Vfq × List Nat
  | 0, q, returned => (q, returned)
  | n + 1, q, returned =>
    match q.peek with
    | none => (q, returned)
    | some vf => drain n q.drop (returned ++ [vf])

def clearQueuedQueue (s : DevS) : DevS :=
  let (queuedQ, returned) := drain (videosyncPoolSize + 1) s.queuedQ s.returned
  { s with queuedQ := queuedQ, returned := returned }

def clearReadyQueue (s : DevS) : DevS :=
  let (readyQ, returned) := drain (videosyncPoolSize + 1) s.readyQ s.returned
  { s with readyQ := readyQ, returned := returned }

/-- Room in the ready queue for the next frame; asynchronous mode empties it. -/
def makeReady (async : Bool) (s : DevS) : DevS :=
  if async ∧ s.readyQ.level > 0 then clearReadyQueue s else s

/-- An expired frame goes to the ready queue. -/
def expireOne (async : Bool) (vf : Nat) (s : DevS) : DevS :=
  let s := makeReady async { s with queuedQ := s.queuedQ.drop }
  { s with readyQ := s.readyQ.push vf }

/-- The loop of `videosync_sync`, with what `omx_vpts_expire` (or `show_nosync`) says of
each frame. -/
def videosyncSync (async : Bool) : List Bool → DevS → DevS
  | [], s => s
  | expired :: rest, s =>
    match s.queuedQ.peek with
    | none => s
    | some vf =>
      if expired then
        let s := expireOne async vf s
        if s.readyQ.level > videosyncPoolSize - 1 then s else videosyncSync async rest s
      else s

/-- The `while` loop of `prepare_queued_queue` with `n` frames upstream. -/
def takeFrames : Nat → DevS → DevS
  | 0, s => s
  | n + 1, s => takeFrames n { s with queuedQ := s.queuedQ.push s.taken, taken := s.taken + 1 }

def prepareQueuedQueue (waiting : Nat) (s : DevS) : DevS :=
  if s.activeState = .inactive then s else if s.queuedQ.isFull then s else takeFrames waiting s

def prepareReadyQueue (async noRender : Bool) (expired : List Bool) (s : DevS) : DevS :=
  if s.activeState = .inactive then s
  else if s.readyQ.isFull then s
  else
    let s := videosyncSync async expired s
    if noRender then clearReadyQueue s else s

/-- The request of `VFRAME_EVENT_PROVIDER_UNREG` is answered. -/
def answerRequest (s : DevS) : DevS :=
  if s.activeState = .inactiveReq then { s with activeState := .inactive } else s

def videosyncThreadTick (async noRender : Bool) (waiting : Nat) (expired : List Bool) (s : DevS) : DevS :=
  let s := answerRequest s
  if s.activeDevNum ≠ 0#32 then prepareReadyQueue async noRender expired (prepareQueuedQueue waiting s) else s

def videosyncVfGet (s : DevS) : DevS :=
  match s.readyQ.peek with
  | none => s
  | some vf => { s with readyQ := s.readyQ.drop, hands := s.hands ++ [vf], delivered := s.delivered ++ [vf] }

/-- The receiver puts the frame at place `k` of those it holds. -/
def videosyncVfPut (k : Nat) (s : DevS) : DevS :=
  match s.hands[k]? with
  | none => s
  | some vf => { s with hands := s.hands.eraseIdx k, returned := s.returned ++ [vf] }

/-- VFRAME_EVENT_PROVIDER_REG -/
def providerReg (s : DevS) : DevS :=
  { s with
    activeState := .active
    activeDevNum := s.activeDevNum + 1#32
    queuedQ := s.queuedQ.init
    readyQ := s.readyQ.init }

/-- The thread answers before the wait ends (`answered`) or later. -/
def requestInactive (answered : Bool) (s : DevS) : DevS :=
  if s.activeState = .active then
    let s := { s with activeState := .inactiveReq }
    if answered then answerRequest s else s
  else s

/-- VFRAME_EVENT_PROVIDER_UNREG -/
def providerUnreg (answered : Bool) (s : DevS) : DevS :=
  clearQueuedQueue (clearReadyQueue (requestInactive answered { s with activeDevNum := s.activeDevNum - 1#32 }))

inductive Event where
  | tick (async noRender : Bool) (waiting : Nat) (expired : List Bool)
  | get
  | put (k : Nat)
  | reg
  | unreg (answered : Bool)
  deriving DecidableEq

def step (s : DevS) : Event → DevS
  | .tick async noRender waiting expired => videosyncThreadTick async noRender waiting expired s
  | .get => videosyncVfGet s
  | .put k => videosyncVfPut k s
  | .reg => providerReg s
  | .unreg answered => providerUnreg answered s

def emptyQ : Vfq := ⟨0, 0, fun _ => 0, by decide, by decide⟩

/-- After `videosync_create_instance`. -/
def start : DevS := ⟨emptyQ, emptyQ, .inactive, 0#32, 0, [], [], []⟩

theorem drain_eq (n : Nat) (q : Vfq) (returned : List Nat) (h : q.level ≤ n) :
    (drain n q returned).1.contents = [] ∧ (drain n q returned).2 = returned ++ q.contents := by
  fun_induction drain n q returned with
  | case1 q =>
    have hnil : q.contents = [] := by
      rw [← length_eq_zero_iff, RingQ.contents_length]
      omega
    simp [hnil]
  | case2 _ q _ hpeek =>
    rw [q.peek_eq, head?_eq_none_iff] at hpeek
    simp [hpeek]
  | case3 n q returned vf hpeek ih =>
    have hcontents := q.contents_of_peek hpeek
    have hlength := q.contents_length
    rw [hcontents, length_cons, RingQ.contents_length] at hlength
    obtain ⟨hempty, hreturned⟩ := ih (by omega)
    refine ⟨hempty, ?_⟩
    rw [hreturned, hcontents, append_assoc, singleton_append]

theorem clearReadyQueue_readyQ (s : DevS) : (clearReadyQueue s).readyQ.contents = [] :=
  (drain_eq _ s.readyQ s.returned (Nat.le_of_lt s.readyQ.level_lt)).1

theorem clearReadyQueue_returned (s : DevS) : (clearReadyQueue s).returned = s.returned ++ s.readyQ.contents :=
  (drain_eq _ s.readyQ s.returned (Nat.le_of_lt s.readyQ.level_lt)).2

theorem clearQueuedQueue_queuedQ (s : DevS) : (clearQueuedQueue s).queuedQ.contents = [] :=
  (drain_eq _ s.queuedQ s.returned (Nat.le_of_lt s.queuedQ.level_lt)).1

theorem clearQueuedQueue_returned (s : DevS) : (clearQueuedQueue s).returned = s.returned ++ s.queuedQ.contents :=
  (drain_eq _ s.queuedQ s.returned (Nat.le_of_lt s.queuedQ.level_lt)).2

theorem takeFrames_eq (n : Nat) (s : DevS) :
    takeFrames n s = { s with queuedQ := s.queuedQ.pushAll (List.range' s.taken n), taken := s.taken + n } := by
  induction n generalizing s with
  | zero => rfl
  | succ n ih =>
    rw [takeFrames, ih]
    simp only [range'_succ, RingQ.pushAll, foldl_cons]
    congr 1
    omega

/-! ## The clock -/

/-- What `videosync_pcrscr_update` works on, of the instance and of the globals. -/
structure Clock where
  videosyncInited : Bool
  activeState : ActiveState
  systemTimeUp : Bool
  vmasterMode : Bool
  systemTime : Nat
  systemTimeScaleRemainder : Nat
  systemTimeScaleBase : Nat
  systemTimeIncAdj : Int
  vsyncPtsInc : Nat
  omxPts : Nat
  omxPtsIntervalUpper : Int
  omxPtsIntervalLower : Int
  durationGcd : Int
  deriving DecidableEq

/-- The remainder of one base as a remainder of another. -/
def Clock.rescale (s : Clock) (base : Nat) : Clock :=
  if s.systemTimeScaleBase ≠ base then
    { s with
      systemTimeScaleRemainder := s.systemTimeScaleRemainder * base % 2 ^ 32 / s.systemTimeScaleBase
      systemTimeScaleBase := base }
  else s

/-- Whole ticks, and the rest kept until it makes another one. -/
def Clock.advance (s : Clock) (inc : Int) (base : Nat) : Clock :=
  let dividend := (90000 * inc % 2 ^ 64).toNat
  let s := { s with
    systemTime := ((s.systemTime + (dividend / base : Nat) + s.systemTimeIncAdj) % 2 ^ 32).toNat
    vsyncPtsInc := (90000 * inc % 2 ^ 32).toNat / base
    systemTimeScaleRemainder := (s.systemTimeScaleRemainder + dividend % base) % 2 ^ 32 }
  if s.systemTimeScaleRemainder ≥ s.systemTimeScaleBase then
    { s with
      systemTime := (s.systemTime + 1) % 2 ^ 32
      systemTimeScaleRemainder := s.systemTimeScaleRemainder - s.systemTimeScaleBase }
  else s

/-- A clock that is not the master is set to `omx_pts` when it is too far off. -/
def Clock.correct (s : Clock) : Clock :=
  let diff := Int.bmod (s.systemTime - s.omxPts) (2 ^ 32)
  if Int.bmod (diff - s.omxPtsIntervalUpper) (2 ^ 32) > 0 ∨ Int.bmod (diff - s.omxPtsIntervalLower) (2 ^ 32) < 0 then
    { s with systemTime := ((s.omxPts + s.durationGcd) % 2 ^ 32).toNat }
  else s

def videosyncPcrscrUpdate (s : Clock) (inc : Int) (base : Nat) : Clock :=
  if s.videosyncInited ∧ s.activeState = .active then
    let s := s.rescale base
    let s := if s.systemTimeUp then s.advance inc base else s
    if s.vmasterMode then s else s.correct
  else s

end AmlogicV901d.Source.Videosync
