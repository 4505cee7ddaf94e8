import AmlogicV901d.Lib.KeyedList

/-!
# The media resource manager

`media/common/resource_mgr/resourcemanage.c`.

Sections under the lock of a resource are single steps. What a thread with the session lock
is about to do is kept with the session. A wait may end at any time. Whether the lock of
another session (or its pending release) is obtained and whether the secure memory is enabled
are parameters, one answer a call; a section that needs more answers has not ended.
-/
namespace AmlogicV901d.Source.ResourceMgr
open Lib.KeyedList

inductive ResmanStatus
  | inited
  | acquired
  | preempted
  deriving DecidableEq, Repr

/-- The union of a node. All of it is zero at first. -/
structure NodeData where
  toggleType : Option Char
  score : UInt32
  secure : Bool
  deriving DecidableEq, Repr

def NodeData.zeroed : NodeData := ⟨none, 0, false⟩

structure ResmanNode where
  session : Nat
  resource : Nat
  s : NodeData
  deriving DecidableEq, Repr

inductive ResmanType
  | counter (avail : UInt32)
  | toggle
  | tvp
  | codecMm (total uhd fhd secure : UInt32)
  deriving DecidableEq, Repr

structure ResmanResource where
  id : Nat
  type : ResmanType
  value : Int32
  sessions : List ResmanNode
  deriving DecidableEq, Repr

/-- The arguments of an acquire. -/
structure Acquire where
  resource : Nat
  preempt : Bool
  timeout : UInt32
  arg : Option (List Char)
  deriving DecidableEq, Repr

/-- What the thread that has the session lock does next. -/
inductive Doing
  | idle
  | entering (acquire : Acquire)
  | waiting (acquire : Acquire)
  | releasing (nodes : List ResmanNode) (close : Bool)
  deriving DecidableEq, Repr

structure ResmanSession where
  id : Nat
  resources : List ResmanNode
  doing : Doing
  deriving DecidableEq, Repr

structure Resman where
  sessions : List ResmanSession
  resources : List ResmanResource
  status : Nat → ResmanStatus
  nextSession : Nat
  preemptTimeoutMs : UInt32

def resmanIdMax : Nat := 6

def resmanIdCodecMm : Nat := 5

def resmanFindResourceById (id : Nat) (resources : List ResmanResource) : Option ResmanResource :=
  lookup ResmanResource.id id resources

def resmanFindNodeByResourceId (sess : ResmanSession) (id : Nat) : Option ResmanNode :=
  lookup ResmanNode.resource id sess.resources

def resmanCountCodecMmSession (secure : Bool) (resources : List ResmanResource) : Int32 :=
  match resmanFindResourceById resmanIdCodecMm resources with
  | none => 0
  | some resource => Int32.ofNat (resource.sessions.filter (·.s.secure == secure)).length

def setStatus (session : Nat) (next : ResmanStatus) (status : Nat → ResmanStatus) : Nat → ResmanStatus :=
  fun id => if id = session then next else status id

/-! ## Preemption -/

/-- The statuses of the sessions, and the answers that are left. -/
abbrev PreemptM := StateT ((Nat → ResmanStatus) × List Bool) Option

def resmanPreemptSession (node : Option ResmanNode) : PreemptM Bool := fun (status, answers) =>
  match node with
  | none => some (false, status, answers)
  | some node =>
    if status node.session ≠ .acquired then some (false, status, answers)
    else match answers with
      | [] => none
      | false :: answers => some (false, status, answers)
      | true :: answers => some (true, setStatus node.session .preempted status, answers)

def resmanCounterPreempt (resource : ResmanResource) : PreemptM Bool := do
  let (status, _) ← get
  let selected := (resource.sessions.find? fun node => status node.session = .preempted).or resource.sessions.head?
  resmanPreemptSession selected

/-- The oldest decoder that is not secure. -/
def resmanTvpPreempt (curr : Nat) (resources : List ResmanResource) : PreemptM Bool :=
  match resmanFindResourceById resmanIdCodecMm resources with
  | none => pure false
  | some resource => resmanPreemptSession (resource.sessions.find? fun node => node.session ≠ curr ∧ ¬ node.s.secure)

/-- Secure decoders above the limit. -/
def reclaimSecure (secure : Bool) (limit : UInt32) : List ResmanNode → Int32 → Bool → PreemptM Bool
  | [], _, ret => pure ret
  | node :: rest, secureCount, ret =>
    if !secure || secureCount.toUInt32 < limit then pure ret
    else if node.s.secure then do
      let got ← resmanPreemptSession (some node)
      reclaimSecure secure limit rest (secureCount - 1) (ret || got)
    else reclaimSecure secure limit rest secureCount ret

/-- The score that is left once the preempted sessions are gone. -/
def newScore (status : Nat → ResmanStatus) (resource : ResmanResource) : UInt32 :=
  resource.sessions.foldl (fun score node => if status node.session = .preempted then score - node.s.score else score)
    resource.value.toUInt32

/-- The do-while loop; `rounds` bounds it by the answers that are left. -/
def reclaimScore (total score : UInt32) (resource : ResmanResource) : Nat → Bool → PreemptM Bool
  | 0, _ => fun _ => none
  | rounds + 1, ret => do
    let (status, _) ← get
    let left := newScore status resource
    if left + score ≤ total then pure ret
    else match resource.sessions.find? fun node => status node.session = .acquired with
      | none => pure ret
      | some selected => do
        let got ← resmanPreemptSession (some selected)
        let left := if got then left - selected.s.score else left
        if left + score > total then reclaimScore total score resource rounds (ret || got) else pure (ret || got)

def resmanCodecMmPreempt (total limit score : UInt32) (secure : Bool) (resources : List ResmanResource)
    (resource : ResmanResource) : PreemptM Bool := do
  let ret ← reclaimSecure secure limit resource.sessions (resmanCountCodecMmSession true resources) false
  let (_, answers) ← get
  reclaimScore total score resource (answers.length + 1) ret

/-! ## Acquiring -/

/-- A section ends with a wait, or with the new value and the node of a grant. -/
inductive Section
  | wait (acquire : Acquire)
  | done (granted : Option (Int32 × NodeData))

/-- The timeout after a try to preempt. -/
def preemptTimeout (m : Resman) (acquire : Acquire) (preempted : PreemptM Bool) : PreemptM UInt32 :=
  if acquire.preempt then do
    let timeout := if acquire.timeout = 0 then m.preemptTimeoutMs else acquire.timeout
    if ← preempted then pure timeout else pure 0
  else pure acquire.timeout

def counterTry (avail : UInt32) (resource : ResmanResource) : Option (Int32 × NodeData) :=
  if resource.value.toUInt32 < avail then some (resource.value + 1, .zeroed) else none

def resmanCounterAcquire (m : Resman) (avail : UInt32) (resource : ResmanResource) (acquire : Acquire) : PreemptM Section := do
  if resource.value.toUInt32 ≥ avail then
    let timeout ← preemptTimeout m acquire (resmanCounterPreempt resource)
    if timeout ≠ 0 then pure (.wait { acquire with timeout }) else pure (.done (counterTry avail resource))
  else pure (.done (counterTry avail resource))

def resmanToggleAcquire (resource : ResmanResource) (acquire : Acquire) : Option (Int32 × NodeData) :=
  match acquire.arg with
  | some ('+' :: _) => if resource.value ≥ 0 then some (resource.value + 1, ⟨some '+', 0, false⟩) else none
  | some ('-' :: _) => if resource.value ≤ 0 then some (resource.value - 1, ⟨some '-', 0, false⟩) else none
  | _ => none

/-- One answer of `codec_mm_enable_tvp` for every round; without an argument the comparison
with "uhd" faults. -/
def resmanTvpAcquire (m : Resman) (sess : Nat) (resource : ResmanResource) (acquire : Acquire) : List Bool → PreemptM Section
  | [] => fun _ => none
  | enabled :: more =>
    if acquire.arg = none then fun _ => none
    else if enabled then pure (.done (some (resource.value + 1, .zeroed)))
    else if !acquire.preempt || resmanCountCodecMmSession false m.resources = 0 then pure (.done none)
    else do
      let timeout := if acquire.timeout = 0 then m.preemptTimeoutMs else acquire.timeout
      if ← resmanTvpPreempt sess m.resources then
        if timeout ≠ 0 then pure (.wait { acquire with timeout }) else resmanTvpAcquire m sess resource acquire more
      else pure (.done none)

/-- `strsep` at the commas. -/
def options : List Char → List (List Char)
  | [] => [[]]
  | c :: rest =>
    match c, options rest with
    | ',', found => [] :: found
    | c, [] => [[c]]
    | c, opt :: found => (c :: opt) :: found

/-- The score and whether it is secure. -/
def codecMmScore (total uhd fhd : UInt32) (arg : Option (List Char)) : UInt32 × Bool :=
  ((arg.map options).getD []).foldl (fun (score, secure) opt =>
    if opt = "uhd".toList then (uhd, secure)
    else if opt = "single".toList then (total, secure)
    else if opt = "secure".toList then (uhd, true)
    else (score, secure)) (fhd, false)

def codecMmTry (total score : UInt32) (secure : Bool) (resource : ResmanResource) : Option (Int32 × NodeData) :=
  if resource.value.toUInt32 + score ≤ total then
    some ((resource.value.toUInt32 + score).toInt32, ⟨none, score, secure⟩)
  else none

def resmanCodecMmAcquire (m : Resman) (total uhd fhd limit : UInt32) (resource : ResmanResource) (acquire : Acquire) :
    PreemptM Section := do
  let (score, secure) := codecMmScore total uhd fhd acquire.arg
  if resource.value.toUInt32 + score > total then
    let timeout ← preemptTimeout m acquire (resmanCodecMmPreempt total limit score secure m.resources resource)
    if timeout ≠ 0 then pure (.wait { acquire with timeout }) else pure (.done (codecMmTry total score secure resource))
  else pure (.done (codecMmTry total score secure resource))

/-- `resource->acquire` up to its wait. -/
def acquireHook (m : Resman) (sess : Nat) (resource : ResmanResource) (acquire : Acquire) (enabled : List Bool) :
    PreemptM Section :=
  match resource.type with
  | .counter avail => resmanCounterAcquire m avail resource acquire
  | .toggle => pure (.done (resmanToggleAcquire resource acquire))
  | .tvp => resmanTvpAcquire m sess resource acquire enabled
  | .codecMm total uhd fhd limit => resmanCodecMmAcquire m total uhd fhd limit resource acquire

/-- `resource->acquire` after its wait. -/
def resumeHook (m : Resman) (sess : Nat) (resource : ResmanResource) (acquire : Acquire) (enabled : List Bool) :
    PreemptM Section :=
  match resource.type with
  | .counter avail => pure (.done (counterTry avail resource))
  | .toggle => pure (.done (resmanToggleAcquire resource acquire))
  | .tvp => resmanTvpAcquire m sess resource acquire enabled
  | .codecMm total uhd fhd _ =>
    let (score, secure) := codecMmScore total uhd fhd acquire.arg
    pure (.done (codecMmTry total score secure resource))

/-! ## Releasing -/

/-- `resource->release` -/
def releaseHook (resource : ResmanResource) (node : ResmanNode) : Int32 :=
  match resource.type with
  | .counter _ => if resource.value > 0 then resource.value - 1 else resource.value
  | .toggle =>
    match node.s.toggleType with
    | some '+' => if resource.value > 0 then resource.value - 1 else resource.value
    | some '-' => if resource.value < 0 then resource.value + 1 else resource.value
    | _ => resource.value
  | .tvp => if resource.value > 0 then resource.value - 1 else resource.value
  | .codecMm _ _ _ _ =>
    if resource.value.toUInt32 ≥ node.s.score then (resource.value.toUInt32 - node.s.score).toInt32 else resource.value

/-! ## Steps -/

def Resman.setDoing (m : Resman) (sess : Nat) (doing : Doing) : Resman :=
  { m with sessions := update ResmanSession.id sess (fun x => { x with doing }) m.sessions }

/-- The node is added to both lists. -/
def Resman.grant (m : Resman) (sess resource : Nat) (value : Int32) (s : NodeData) : Resman :=
  let node := ⟨sess, resource, s⟩
  { m with
    sessions := update ResmanSession.id sess (fun x => { x with resources := x.resources ++ [node], doing := .idle }) m.sessions
    resources := update ResmanResource.id resource (fun x => { x with value, sessions := x.sessions ++ [node] }) m.resources
    status := setStatus sess .acquired m.status }

/-- The end of a section of `resman_acquire_resource`. -/
def Resman.endSection (m : Resman) (sess resource : Nat) : Section → Resman
  | .wait acquire => m.setDoing sess (.waiting acquire)
  | .done none => m.setDoing sess .idle
  | .done (some (value, s)) => m.grant sess resource value s

/-- `resman_release_resource` -/
def Resman.resmanReleaseResource (m : Resman) (node : ResmanNode) (left : List ResmanNode) (close : Bool) : Resman :=
  { m with
    sessions := update ResmanSession.id node.session
      (fun x => { x with resources := x.resources.erase node, doing := .releasing left close }) m.sessions
    resources := update ResmanResource.id node.resource
      (fun x => { x with value := releaseHook x node, sessions := x.sessions.erase node }) m.resources }

inductive Act
  | openSession
  | acquire (sess : Nat) (acquire : Acquire)
  | enter (sess : Nat) (answers enabled : List Bool)
  | resume (sess : Nat) (answers enabled : List Bool)
  | release (sess resource : Nat)
  | releaseAll (sess : Nat)
  | close (sess : Nat)
  | releaseOne (sess : Nat)
  | finish (sess : Nat)
  deriving Repr

/-- A section of an acquire. -/
def Resman.acquireSection (m : Resman) (sess : Nat) (acquire : Acquire) (answers : List Bool)
    (hook : ResmanResource → PreemptM Section) : Option Resman :=
  match resmanFindResourceById acquire.resource m.resources with
  | none => none
  | some resource =>
    match hook resource (m.status, answers) with
    | none => none
    | some (outcome, status, _) => some ({ m with status }.endSection sess acquire.resource outcome)

/-- `none` where the step is not possible. -/
def step (act : Act) (m : Resman) : Option Resman :=
  match act with
  | .openSession => some { m with
      sessions := m.sessions ++ [⟨m.nextSession, [], .idle⟩]
      status := setStatus m.nextSession .inited m.status
      nextSession := m.nextSession + 1 }
  | .acquire sess acquire =>
    match lookup ResmanSession.id sess m.sessions with
    | some ⟨id, nodes, .idle⟩ =>
      if (resmanFindResourceById acquire.resource m.resources).isNone then some m
      else if (resmanFindNodeByResourceId ⟨id, nodes, .idle⟩ acquire.resource).isSome then some m
      else some (m.setDoing sess (.entering acquire))
    | _ => none
  | .enter sess answers enabled =>
    match lookup ResmanSession.id sess m.sessions with
    | some ⟨_, _, .entering acquire⟩ =>
      m.acquireSection sess acquire answers fun resource => acquireHook m sess resource acquire enabled
    | _ => none
  | .resume sess answers enabled =>
    match lookup ResmanSession.id sess m.sessions with
    | some ⟨_, _, .waiting acquire⟩ =>
      m.acquireSection sess acquire answers fun resource => resumeHook m sess resource acquire enabled
    | _ => none
  | .release sess resource =>
    match lookup ResmanSession.id sess m.sessions with
    | some ⟨id, nodes, .idle⟩ =>
      if (resmanFindResourceById resource m.resources).isNone then some m
      else some (m.setDoing sess (.releasing (resmanFindNodeByResourceId ⟨id, nodes, .idle⟩ resource).toList false))
    | _ => none
  | .releaseAll sess =>
    match lookup ResmanSession.id sess m.sessions with
    | some ⟨_, nodes, .idle⟩ => some (m.setDoing sess (.releasing nodes false))
    | _ => none
  | .close sess =>
    match lookup ResmanSession.id sess m.sessions with
    | some ⟨_, nodes, .idle⟩ => some (m.setDoing sess (.releasing nodes true))
    | _ => none
  | .releaseOne sess =>
    match lookup ResmanSession.id sess m.sessions with
    | some ⟨_, _, .releasing (node :: left) close⟩ => some (m.resmanReleaseResource node left close)
    | _ => none
  | .finish sess =>
    match lookup ResmanSession.id sess m.sessions with
    | some ⟨_, _, .releasing [] false⟩ => some (m.setDoing sess .idle)
    | some ⟨_, _, .releasing [] true⟩ => some { m with sessions := remove ResmanSession.id sess m.sessions }
    | _ => none

/-! ## Configuration -/

/-- A name that is not in `resources_map` has no id, and an id is given once. -/
def resmanCreateResource (resources : List ResmanResource) (config : Nat × ResmanType) : Option (List ResmanResource) :=
  if config.1 ≥ resmanIdMax ∨ (resmanFindResourceById config.1 resources).isSome then none
  else some (resources ++ [⟨config.1, config.2, 0, []⟩])

/-- A configuration with an error leaves no resource. -/
def resmanParserConfig (configs : List (Nat × ResmanType)) : List ResmanResource :=
  (configs.foldlM resmanCreateResource []).getD []

def resmanInit (configs : List (Nat × ResmanType)) (preemptTimeoutMs : UInt32) : Resman :=
  ⟨[], resmanParserConfig configs, fun _ => .inited, 0, preemptTimeoutMs⟩

def defaultConfigs : List (Nat × ResmanType) :=
  [(0, .counter 1), (1, .counter 1), (2, .counter 1), (3, .tvp), (4, .counter 1), (5, .codecMm 6 4 2 1)]

end AmlogicV901d.Source.ResourceMgr
