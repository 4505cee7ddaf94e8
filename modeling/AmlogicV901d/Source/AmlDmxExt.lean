import Mathlib.Logic.Function.Basic

/-!
# Demux extension devices

`stream_input/parser/demux/aml_dmx_ext.c`.

Of the kernel the model has the registered numbers, each with the device that asked for
it, the device nodes and the class. `class_create`, `device_create` and `register_chrdev`
may fail. `device_create` refuses what is no class and a name that exists;
`device_destroy` finds nothing in what is no class.

`PVR_PID_NUM` is defined outside of the sources and is a parameter. So is what `wake_up`
does: no function of the driver initialises the wait queue of a device, so that it is
called for a queue head that was only cleared.
-/
namespace AmlogicV901d.Source.AmlDmxExt

/-- DMX_EXT_NUM -/
abbrev dmxExtNum : Nat := 3

abbrev Id := Fin dmxExtNum

structure DmxExt where
  majorId : Nat
  id : Nat
  update : Bool
  /-- the first `pvr_count` entries of `pvr_pid` -/
  pvrPid : List Int
  user : BitVec 32
  used : Bool
  deriving DecidableEq

/-- After `memset`. -/
def DmxExt.cleared : DmxExt := ⟨0, 0, false, [], 0#32, false⟩

/-- `dmx_ext_class` -/
inductive ClassPtr where
  | null | error | live
  deriving DecidableEq

structure Sys where
  data : Id → DmxExt
  dmxExtClass : ClassPtr
  /-- registered numbers -/
  numbers : List (Nat × Id)
  /-- nodes, by number -/
  nodes : List (Nat × Id)
  /-- the device of every open file -/
  files : List Id
  /-- `dmx_ext_init` returned 0 and `dmx_ext_exit` was not called since -/
  initialised : Id → Bool

/-- What the sources leave open. -/
structure Kernel where
  pvrPidNum : Nat
  /-- `wake_up` returns for a queue head that was only cleared -/
  wakesCleared : Bool

def Sys.setData (s : Sys) (id : Id) (d : DmxExt) : Sys := { s with data := Function.update s.data id d }

def einval : Int := 22
def enodev : Int := 19
def eexist : Int := 17

/-! ## Files -/

def dmxExtOpen (id : Id) (s : Sys) : Sys :=
  let d := s.data id
  { s.setData id { d with user := d.user + 1#32, id := id } with files := s.files ++ [id] }

/-- The file at place `k` of the open ones is closed. -/
def dmxExtClose (k : Nat) (s : Sys) : Sys :=
  match s.files[k]? with
  | none => s
  | some id =>
    let d := s.data id
    let user := d.user - 1#32
    { s.setData id { d with user := user, used := if user = 0#32 then false else d.used } with
      files := s.files.eraseIdx k }

/-- Returns the PIDs that are copied to the user, if any are. -/
def dmxExtRead (id : Id) (s : Sys) : Option (List Int) × Sys :=
  let d := s.data id
  if d.update then (some d.pvrPid, s.setData id { d with update := false }) else (none, s)

/-- `sw` is `dmx_write_sw_from_user` for each demux. -/
def dmxExtWrite (sw : Nat → Int) (wrOnly : Bool) (id : Id) (s : Sys) : Int :=
  if ¬ wrOnly then -einval else if ¬ (s.data id).used then -enodev else sw (s.data id).id

/-! ## Devices -/

/-- What the kernel answers while a device is initialised. -/
structure Answers where
  /-- the number from `register_chrdev` -/
  major : Option Nat
  classCreated : Bool
  /-- 0, or the error of `device_create` -/
  device : Int
  deriving DecidableEq

/-- A number that is taken is not given again. -/
def registerChrdev (s : Sys) (a : Answers) : Option Nat :=
  a.major.filter fun m => m ∉ s.numbers.map Prod.fst

/-- The name of the device exists. -/
def Sys.hasNode (s : Sys) (id : Id) : Bool := id ∈ s.nodes.map Prod.snd

def deviceCreate (s : Sys) (id : Id) (a : Answers) : Int :=
  if s.dmxExtClass ≠ .live then -enodev else if s.hasNode id then -eexist else a.device

/-- The class, if it is there or can be created. -/
def openClass (s : Sys) (a : Answers) : ClassPtr :=
  if s.dmxExtClass = .null then (if a.classCreated then .live else .error) else s.dmxExtClass

/-- From `device_create` on. -/
def finishInit (id : Id) (a : Answers) (major : Nat) (s : Sys) : Int × Sys :=
  let ret := deviceCreate s id a
  if ret ≠ 0 then (ret, s)
  else
    (0, { s.setData id { s.data id with id := id, used := true } with nodes := s.nodes ++ [(major, id)] })

def dmxExtInit (id : Id) (a : Answers) (s : Sys) : Int × Sys :=
  let s := s.setData id .cleared
  match registerChrdev s a with
  | none => (-1, s)
  | some major =>
    let failed : Bool := s.dmxExtClass = .null ∧ a.classCreated = false
    let s := { s.setData id { s.data id with majorId := major } with
      numbers := s.numbers ++ [(major, id)], dmxExtClass := openClass s a }
    if failed then (-1, s) else finishInit id a major s

def deviceDestroy (s : Sys) (major : Nat) (id : Id) : List (Nat × Id) :=
  if s.dmxExtClass = .live then s.nodes.filter (· ≠ (major, id)) else s.nodes

/-- The loop of `dmx_ext_exit`: every turn looks at the device that is removed. -/
def unusedCount (s : Sys) (id : Id) : Nat :=
  (List.range dmxExtNum).countP fun _ => (s.data id).used = false

def dmxExtExit (id : Id) (s : Sys) : Sys :=
  let d := s.data id
  if ¬ d.used then s
  else
    let s := { s.setData id { d with used := false } with
      nodes := deviceDestroy s d.majorId id, numbers := s.numbers.filter (·.1 ≠ d.majorId) }
    if unusedCount s id = dmxExtNum then { s with dmxExtClass := .null } else s

/-! ## Recording PIDs -/

/-- Also says whether `wake_up` was called. -/
def dmxExtAddPvrPid (k : Kernel) (id : Id) (pid : Int) (s : Sys) : Sys × Bool :=
  let d := s.data id
  if ¬ d.used then (s, false)
  else if pid ∈ d.pvrPid then (s, false)
  else if d.pvrPid.length < k.pvrPidNum then (s.setData id { d with pvrPid := d.pvrPid ++ [pid], update := true }, true)
  else (s, false)

def dmxExtRemovePvrPid (id : Id) (pid : Int) (s : Sys) : Sys × Bool :=
  let d := s.data id
  if ¬ d.used then (s, false)
  else if pid ∈ d.pvrPid then (s.setData id { d with pvrPid := d.pvrPid.erase pid }, true)
  else (s, false)

/-! ## Runs -/

inductive Event where
  | init (id : Id) (answers : Answers)
  | exit (id : Id)
  | openFile (id : Id)
  | closeFile (k : Nat)
  | read (id : Id)
  | addPvrPid (id : Id) (pid : Int)
  | removePvrPid (id : Id) (pid : Int)

/-- A device is initialised by a call that returned 0. -/
def noteInit (id : Id) (r : Int × Sys) : Sys :=
  if r.1 = 0 then { r.2 with initialised := Function.update r.2.initialised id true } else r.2

/-- A state after which `wake_up` was called for the queue of the device. -/
def woken (k : Kernel) (r : Sys × Bool) : Option Sys := if r.2 ∧ ¬ k.wakesCleared then none else some r.1

/-- `none` is a fault. A device without a node cannot be opened. -/
def step (k : Kernel) (s : Sys) : Event → Option Sys
  | .init id a => some (noteInit id (dmxExtInit id a s))
  | .exit id =>
    let s := dmxExtExit id s
    some { s with initialised := Function.update s.initialised id false }
  | .openFile id => some (if s.hasNode id then dmxExtOpen id s else s)
  | .closeFile k => some (dmxExtClose k s)
  | .read id => some (dmxExtRead id s).2
  | .addPvrPid id pid => woken k (dmxExtAddPvrPid k id pid s)
  | .removePvrPid id pid => woken k (dmxExtRemovePvrPid id pid s)

/-- Before the first device. -/
def start : Sys := ⟨fun _ => .cleared, .null, [], [], [], fun _ => false⟩

@[simp] theorem setData_self (s : Sys) (id : Id) (d : DmxExt) : (s.setData id d).data id = d := by
  simp [Sys.setData]

theorem setData_ne {s : Sys} {id other : Id} (d : DmxExt) (h : other ≠ id) : (s.setData id d).data other = s.data other := by
  simp [Sys.setData, h]

@[simp] theorem setData_setData (s : Sys) (id : Id) (d d' : DmxExt) : (s.setData id d).setData id d' = s.setData id d' := by
  unfold Sys.setData
  simp

theorem unusedCount_of_unused {s : Sys} {id : Id} (h : (s.data id).used = false) : unusedCount s id = dmxExtNum := by
  simp [unusedCount, h]

end AmlogicV901d.Source.AmlDmxExt
