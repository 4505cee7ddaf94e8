import AmlogicV901d.Lib.Runs
import AmlogicV901d.Source.AmlDmxExt

/-!
# A demux extension device and its flag

`used` says that a device was initialised, but the last close of a file clears it too.
`dmx_ext_exit` does nothing for a device that is not used, and where it does its work it
takes the class with it whatever other devices there are. A run goes well exactly if none
of its steps is one of these, and no initialisation fails or is repeated in a way that
leaves something behind.
-/
namespace AmlogicV901d.Guarantees.DemuxExtension
open Source.AmlDmxExt List Function

variable {k : Kernel} {s s' : Sys} {id other : Id} {a : Answers} {major : Nat} {ev : Event}

/-! ## What is asked of a run -/

/-- Every initialised device takes writes for its demux and records PIDs while there is
room, and the class is there exactly for them. -/
structure Works (k : Kernel) (s : Sys) : Prop where
  writes : ∀ id, s.initialised id → ∀ sw, dmxExtWrite sw true id s = sw id
  records : ∀ id, s.initialised id → ∀ pid,
    pid ∈ ((dmxExtAddPvrPid k id pid s).1.data id).pvrPid ∨ k.pvrPidNum ≤ (s.data id).pvrPid.length
  classLive : s.dmxExtClass = .live ↔ ∃ id, s.initialised id

/-- Nothing of the device is left in the kernel. -/
def Removed (id : Id) (s : Sys) : Prop := id ∉ s.nodes.map Prod.snd ∧ id ∉ s.numbers.map Prod.snd

def GoesWell (k : Kernel) (ev : Event) (s' : Sys) : Prop :=
  Works k s' ∧ ∀ id, ev = .exit id → Removed id s'

/-- No step of the run faults and every one goes well. -/
def RunGoesWell (k : Kernel) : Sys → List Event → Prop
  | _, [] => True
  | s, ev :: evs => ∃ s', step k s ev = some s' ∧ GoesWell k ev s' ∧ RunGoesWell k s' evs

/-- The condition on an event and the state before it. -/
def Plain (k : Kernel) (s : Sys) : Event → Prop
  | .init id a =>
    s.initialised id = false ∧
      ¬ (s.dmxExtClass = .null ∧ registerChrdev s a ≠ none ∧ a.classCreated = true ∧ a.device ≠ 0)
  | .exit id =>
    (∀ major, (major, id) ∈ s.numbers → s.initialised id ∧ major = (s.data id).majorId) ∧
      (s.initialised id → ∀ other, s.initialised other → other = id)
  | .closeFile k => ∀ id, s.files[k]? = some id → s.initialised id → (s.data id).user ≠ 1#32
  | .addPvrPid id pid => k.wakesCleared ∨ (dmxExtAddPvrPid k id pid s).2 = false
  | .removePvrPid id pid => k.wakesCleared ∨ (dmxExtRemovePvrPid id pid s).2 = false
  | .openFile _ | .read _ => True

def RunPlain (k : Kernel) : Sys → List Event → Prop
  | _, [] => True
  | s, ev :: evs => Plain k s ev ∧ ∀ s', step k s ev = some s' → RunPlain k s' evs

/-! ## The invariant -/

structure Inv (s : Sys) : Prop where
  used : ∀ id, (s.data id).used = s.initialised id
  demux : ∀ id, s.initialised id → (s.data id).id = id
  node : ∀ major id, (major, id) ∈ s.nodes ↔ s.initialised id ∧ major = (s.data id).majorId
  classLive : s.dmxExtClass = .live ↔ ∃ id, s.initialised id

theorem start_inv : Inv start where
  used _ := rfl
  demux _ h := by simp [start] at h
  node _ _ := by simp [start]
  classLive := by simp [start]

theorem Inv.works (h : Inv s) : Works k s where
  writes id hid sw := by
    simp [dmxExtWrite, h.used, hid, h.demux id hid]
  records id hid pid := by
    have hused : (s.data id).used = true := by rw [h.used, hid]
    fun_cases dmxExtAddPvrPid k id pid s with
    | case1 _ hnot => exact absurd hused hnot
    | case2 _ _ hmem => exact .inl hmem
    | case3 => exact .inl (by simp)
    | case4 _ _ _ hfull => exact .inr (Nat.not_lt.mp hfull)
  classLive := h.classLive

theorem Inv.hasNode (h : Inv s) (id : Id) : s.hasNode id = s.initialised id := by
  rw [Bool.eq_iff_iff, Sys.hasNode, decide_eq_true_eq, mem_map]
  constructor
  · rintro ⟨⟨m, id⟩, hmem, rfl⟩
    exact ((h.node m id).mp hmem).1
  · intro hid
    exact ⟨_, (h.node _ id).mpr ⟨hid, rfl⟩, rfl⟩

theorem Works.used (h : Works k s) (hid : s.initialised id) : (s.data id).used = true := by
  have hwrite := h.writes id hid fun _ => 0
  by_contra hused
  simp [dmxExtWrite, hused, enodev] at hwrite

/-- Only the record of one device changes, and nothing that matters of it. -/
theorem Inv.setData (h : Inv s) {d : DmxExt} (hused : d.used = (s.data id).used) (hdemux : s.initialised id → d.id = id)
    (hmajor : d.majorId = (s.data id).majorId) : Inv (s.setData id d) where
  used other := by
    by_cases hother : other = id
    · subst hother
      simp [hused, h.used, Sys.setData]
    · simp only [setData_ne d hother]
      exact h.used other
  demux other hin := by
    by_cases hother : other = id
    · subst hother
      rw [setData_self]
      exact hdemux hin
    · simp only [setData_ne d hother]
      exact h.demux other hin
  node major other := by
    by_cases hother : other = id
    · subst hother
      rw [setData_self, hmajor]
      exact h.node major other
    · simp only [setData_ne d hother]
      exact h.node major other
  classLive := h.classLive

theorem Inv.setFiles (h : Inv s) (files : List Id) : Inv { s with files := files } :=
  { h with }

/-! ## Initialising a device -/

/-- The device has a number and nothing else. -/
def numbered (s : Sys) (id : Id) (major : Nat) (cls : ClassPtr) : Sys :=
  { s.setData id { DmxExt.cleared with majorId := major } with
    numbers := s.numbers ++ [(major, id)], dmxExtClass := cls }

/-- The device is there. -/
def created (s : Sys) (id : Id) (major : Nat) : Sys :=
  { s.setData id ⟨major, id, false, [], 0#32, true⟩ with
    numbers := s.numbers ++ [(major, id)], dmxExtClass := .live, nodes := s.nodes ++ [(major, id)] }

theorem dmxExtInit_unregistered (h : registerChrdev s a = none) : dmxExtInit id a s = (-1, s.setData id .cleared) := by
  have h' : registerChrdev (s.setData id .cleared) a = none := h
  simp [dmxExtInit, h']

theorem dmxExtInit_registered (h : registerChrdev s a = some major) : dmxExtInit id a s =
      if s.dmxExtClass = .null ∧ a.classCreated = false then (-1, numbered s id major (openClass s a))
      else finishInit id a major (numbered s id major (openClass s a)) := by
  have h' : registerChrdev (s.setData id .cleared) a = some major := h
  simp only [dmxExtInit, h', setData_self, setData_setData, decide_eq_true_eq]
  rfl

theorem deviceCreate_numbered (s : Sys) (id : Id) (major : Nat) (cls : ClassPtr) (a : Answers) :
    deviceCreate (numbered s id major cls) id a =
      if cls ≠ .live then -enodev else if s.hasNode id then -eexist else a.device := rfl

theorem finishInit_created (h : deviceCreate (numbered s id major .live) id a = 0) :
    finishInit id a major (numbered s id major .live) = (0, created s id major) := by
  unfold finishInit
  rw [h, if_neg (by simp)]
  simp [numbered, created, Sys.setData, DmxExt.cleared]

/-- The four ways in which `dmx_ext_init` ends. -/
theorem dmxExtInit_cases (id : Id) (a : Answers) (s : Sys) : dmxExtInit id a s = (-1, s.setData id .cleared) ∨
    (∃ major, s.dmxExtClass = .null ∧ dmxExtInit id a s = (-1, numbered s id major .error)) ∨
    (∃ major ret, registerChrdev s a ≠ none ∧ (s.dmxExtClass = .null → a.classCreated = true) ∧
      deviceCreate (numbered s id major (openClass s a)) id a = ret ∧ ret ≠ 0 ∧
      dmxExtInit id a s = (ret, numbered s id major (openClass s a))) ∨
    ∃ major, s.hasNode id = false ∧ dmxExtInit id a s = (0, created s id major) := by
  cases hreg : registerChrdev s a with
  | none => exact .inl (dmxExtInit_unregistered hreg)
  | some major =>
    right
    rw [dmxExtInit_registered hreg]
    by_cases hfailed : s.dmxExtClass = .null ∧ a.classCreated = false
    · have hclass : openClass s a = .error := by simp [openClass, hfailed]
      rw [if_pos hfailed, hclass]
      exact .inl ⟨major, hfailed.1, rfl⟩
    right
    rw [if_neg hfailed]
    by_cases hret : deviceCreate (numbered s id major (openClass s a)) id a = 0
    · right
      have hclass : openClass s a = .live := by
        by_contra hclass
        simp [deviceCreate_numbered, hclass, enodev] at hret
      have hname : s.hasNode id = false := by
        by_contra hname
        rw [deviceCreate_numbered, if_neg (by simp [hclass]), if_pos (by simpa using hname)] at hret
        simp [eexist] at hret
      rw [hclass] at hret ⊢
      exact ⟨major, hname, finishInit_created hret⟩
    · left
      refine ⟨major, _, by simp, ?_, rfl, hret, ?_⟩
      · intro hnull
        by_contra hcreated
        exact hfailed ⟨hnull, by simpa using hcreated⟩
      · unfold finishInit
        rw [if_pos hret]

section
variable (h : Inv s)
include h

/-- A device that is not initialised and not used changes its record. -/
theorem Inv.cleared (hid : s.initialised id = false) {d : DmxExt} (hused : d.used = false)
    {cls : ClassPtr} (hclass : cls = .live ↔ s.dmxExtClass = .live) {numbers : List (Nat × Id)} :
    Inv { s.setData id d with dmxExtClass := cls, numbers := numbers } where
  used other := by
    by_cases hother : other = id
    · subst hother
      rw [setData_self, hused]
      exact hid.symm
    · simp only [setData_ne d hother]
      exact h.used other
  demux other hin := by
    have hother : other ≠ id := by
      rintro rfl
      exact Bool.false_ne_true (hid.symm.trans hin)
    simp only [setData_ne d hother]
    exact h.demux other hin
  node major other := by
    by_cases hother : other = id
    · subst hother
      have hnode := h.node major other
      simp [Sys.setData, hnode, hid]
    · simp only [setData_ne d hother]
      exact h.node major other
  classLive := hclass.trans h.classLive

theorem Inv.created (hid : s.initialised id = false) (major : Nat) :
    Inv { created s id major with initialised := Function.update s.initialised id true } where
  used other := by
    by_cases hother : other = id
    · subst hother
      simp [DemuxExtension.created]
    · simp [DemuxExtension.created, setData_ne _ hother, hother, h.used]
  demux other hin := by
    by_cases hother : other = id
    · subst hother
      simp [DemuxExtension.created]
    · simp only [update_of_ne hother] at hin
      simp [DemuxExtension.created, setData_ne _ hother, h.demux other hin]
  node major' other := by
    have hnode := h.node major' other
    by_cases hother : other = id
    · subst hother
      simp only [hid, Bool.false_eq_true, false_and, iff_false] at hnode
      simp [DemuxExtension.created, Sys.setData, hnode]
    · simp only [DemuxExtension.created, setData_ne _ hother, update_of_ne hother, ← hnode]
      simp [hother]
  classLive := by
    simp only [DemuxExtension.created, true_iff]
    exact ⟨id, by simp⟩

theorem init_plain (hplain : Plain k s (.init id a)) : ∃ s', step k s (.init id a) = some s' ∧ Inv s' := by
  obtain ⟨hid, hclass⟩ := hplain
  refine ⟨noteInit id (dmxExtInit id a s), rfl, ?_⟩
  obtain heq | ⟨major, hnull, heq⟩ | ⟨major, ret, hreg, hcreated, hdevice, hret, heq⟩ | ⟨major, -, heq⟩ :=
    dmxExtInit_cases id a s
  · rw [heq, noteInit, if_neg (by simp)]
    exact h.cleared hid rfl .rfl
  · rw [heq, noteInit, if_neg (by simp)]
    exact h.cleared hid rfl (by simp [hnull])
  · rw [heq, noteInit, if_neg hret]
    apply h.cleared hid rfl
    by_cases hnull : s.dmxExtClass = .null
    · -- the class was created for nothing, which a plain run excludes
      refine absurd ⟨hnull, hreg, hcreated hnull, ?_⟩ hclass
      have hname : s.hasNode id = false := by rw [h.hasNode, hid]
      rw [deviceCreate_numbered, if_neg (by simp [openClass, hnull, hcreated hnull]), if_neg (by simp [hname])] at hdevice
      rw [hdevice]
      exact hret
    · simp [openClass, hnull]
  · rw [heq, noteInit, if_pos rfl]
    exact h.created hid major

theorem init_again (hid : s.initialised id = true) (hworks : Works k (noteInit id (dmxExtInit id a s))) : False := by
  obtain heq | ⟨major, hnull, heq⟩ | ⟨major, ret, -, -, -, hret, heq⟩ | ⟨major, hname, heq⟩ := dmxExtInit_cases id a s
  · rw [heq, noteInit, if_neg (by simp)] at hworks
    have hused := hworks.used hid
    simp [DmxExt.cleared] at hused
  · have hlive := h.classLive.mpr ⟨id, hid⟩
    simp [hnull] at hlive
  · rw [heq, noteInit, if_neg hret] at hworks
    have hused := hworks.used hid
    simp [numbered, DmxExt.cleared] at hused
  · rw [h.hasNode, hid] at hname
    exact nomatch hname

theorem init_class_only (hnull : s.dmxExtClass = .null) (hreg : registerChrdev s a ≠ none)
    (hcreated : a.classCreated = true) (hdevice : a.device ≠ 0) (hworks : Works k (noteInit id (dmxExtInit id a s))) : False := by
  have hclass : openClass s a = .live := by simp [openClass, hnull, hcreated]
  have hname : s.hasNode id = false := by
    rw [h.hasNode]
    by_contra hid
    have hlive := h.classLive.mpr ⟨id, by simpa using hid⟩
    simp [hnull] at hlive
  obtain ⟨major, hmajor⟩ := Option.ne_none_iff_exists'.mp hreg
  have hret : deviceCreate (numbered s id major .live) id a = a.device := by
    rw [deviceCreate_numbered, if_neg (by simp), if_neg (by simp [hname])]
  rw [dmxExtInit_registered hmajor, if_neg (by simp [hcreated]), hclass, finishInit, hret, if_pos hdevice, noteInit,
    if_neg hdevice] at hworks
  obtain ⟨other, hother⟩ := hworks.classLive.mp rfl
  have hlive := h.classLive.mpr ⟨other, hother⟩
  simp [hnull] at hlive

/-! ## The other events -/

/-- The state after `dmx_ext_exit`. -/
def exited (id : Id) (s : Sys) : Sys :=
  { dmxExtExit id s with initialised := Function.update (dmxExtExit id s).initialised id false }

/-- The class goes with any device that is removed. -/
def removed (id : Id) (s : Sys) : Sys where
  data := Function.update s.data id { s.data id with used := false }
  dmxExtClass := .null
  numbers := s.numbers.filter (·.1 ≠ (s.data id).majorId)
  nodes := s.nodes.filter (· ≠ ((s.data id).majorId, id))
  files := s.files
  initialised := Function.update s.initialised id false

theorem exited_unused (hid : s.initialised id = false) : exited id s = s := by
  have hused : (s.data id).used = false := by rw [h.used, hid]
  have hsame : dmxExtExit id s = s := by simp [dmxExtExit, hused]
  rw [exited, hsame, ← hid, update_eq_self]

theorem exited_used (hid : s.initialised id = true) : exited id s = removed id s := by
  have hused : (s.data id).used = true := by rw [h.used, hid]
  have hlive := h.classLive.mpr ⟨id, hid⟩
  unfold exited dmxExtExit
  rw [if_neg (by simp [hused])]
  rw [if_pos (unusedCount_of_unused (by simp)), deviceDestroy, if_pos hlive]
  rfl

theorem removed_inv (honly : ∀ other, s.initialised other → other = id) : Inv (removed id s) := by
  have hothers : ∀ other, other ≠ id → s.initialised other = false := by
    intro other hne
    by_contra hin
    exact hne (honly other (by simpa using hin))
  have hnone : ∀ other, (removed id s).initialised other = false := by
    intro other
    by_cases hother : other = id
    · simp [removed, hother]
    · simp [removed, hother, hothers]
  refine ⟨?_, ?_, ?_, ?_⟩
  · intro other
    by_cases hother : other = id
    · subst hother
      simp [removed]
    · simp [removed, hother, h.used, hothers]
  · intro other hin
    rw [hnone] at hin
    exact nomatch hin
  · intro major other
    simp only [hnone, Bool.false_eq_true, false_and, iff_false]
    intro hmem
    simp only [removed, mem_filter, decide_eq_true_eq] at hmem
    obtain ⟨hin, hmajor⟩ := (h.node major other).mp hmem.1
    have hother := honly other hin
    subst hother
    exact hmem.2 (by rw [hmajor])
  · simp only [hnone]
    simp [removed]

theorem exit_inv (honly : s.initialised id → ∀ other, s.initialised other → other = id) : Inv (exited id s) := by
  cases hid : s.initialised id with
  | false =>
    rw [exited_unused h hid]
    exact h
  | true =>
    rw [exited_used h hid]
    exact removed_inv h (honly hid)

theorem exit_removed : Removed id (exited id s) ↔
      ∀ major, (major, id) ∈ s.numbers → s.initialised id ∧ major = (s.data id).majorId := by
  cases hid : s.initialised id with
  | false =>
    have hnodes : id ∉ s.nodes.map Prod.snd := by
      have hname := h.hasNode id
      rw [hid] at hname
      exact of_decide_eq_false hname
    rw [exited_unused h hid, Removed]
    simp only [hnodes, not_false_eq_true, true_and, Bool.false_eq_true, false_and]
    simp
  | true =>
    have hnodes : id ∉ (removed id s).nodes.map Prod.snd := by
      intro hmem
      obtain ⟨⟨m, id⟩, hnode, rfl⟩ := mem_map.mp hmem
      simp only [removed, mem_filter, decide_eq_true_eq] at hnode
      have hmajor := ((h.node m id).mp hnode.1).2
      exact hnode.2 (by rw [hmajor])
    rw [exited_used h hid, Removed]
    simp only [hnodes, not_false_eq_true, true_and]
    simp [removed]

theorem exit_well : GoesWell k (.exit id) (exited id s) ↔ Plain k s (.exit id) := by
  constructor
  · rintro ⟨hworks, hgone⟩
    refine ⟨(exit_removed h).mp (hgone id rfl), ?_⟩
    intro hid other hother
    by_contra hne
    rw [exited_used h hid] at hworks
    have hlive := hworks.classLive.mpr ⟨other, by simp [removed, hne, hother]⟩
    simp [removed] at hlive
  · rintro ⟨hnumbers, honly⟩
    refine ⟨(exit_inv h honly).works, ?_⟩
    intro id' heq
    obtain rfl := Event.exit.inj heq
    exact (exit_removed h).mpr hnumbers

omit h in
theorem dmxExtClose_some {n : Nat} (h : s.files[n]? = some id) : dmxExtClose n s = { s.setData id { s.data id with
        user := (s.data id).user - 1#32
        used := if (s.data id).user - 1#32 = 0#32 then false else (s.data id).used } with
      files := s.files.eraseIdx n } := by
  simp [dmxExtClose, h]

omit h in
theorem sub_one_eq_zero (user : BitVec 32) : user - 1#32 = 0#32 ↔ user = 1#32 := by
  constructor <;> intro h <;> bv_omega

theorem close_inv {n : Nat} (hplain : Plain k s (.closeFile n)) : Inv (dmxExtClose n s) := by
  cases hfile : s.files[n]? with
  | none =>
    rw [dmxExtClose, hfile]
    exact h
  | some id =>
    rw [dmxExtClose_some hfile]
    apply Inv.setFiles
    apply h.setData
    · split
      · rename_i hzero
        rw [h.used]
        by_contra hid
        exact hplain id hfile (by simpa using hid) ((sub_one_eq_zero _).mp hzero)
      · rfl
    · exact h.demux id
    · rfl

omit h in
theorem close_last {n : Nat} (hfile : s.files[n]? = some id) (hid : s.initialised id) (huser : (s.data id).user = 1#32)
    (hworks : Works k (dmxExtClose n s)) : False := by
  rw [dmxExtClose_some hfile] at hworks
  have hused := hworks.used hid
  simp [huser] at hused

theorem open_inv : Inv (dmxExtOpen id s) := by
  apply Inv.setFiles
  exact h.setData rfl (fun _ => rfl) rfl

theorem read_inv : Inv (dmxExtRead id s).2 := by
  fun_cases dmxExtRead id s with
  | case1 => exact h.setData rfl (h.demux id) rfl
  | case2 => exact h

theorem addPvrPid_inv {pid : Int} : Inv (dmxExtAddPvrPid k id pid s).1 := by
  fun_cases dmxExtAddPvrPid k id pid s with
  | case1 | case2 | case4 => exact h
  | case3 => exact h.setData rfl (h.demux id) rfl

theorem removePvrPid_inv {pid : Int} : Inv (dmxExtRemovePvrPid id pid s).1 := by
  fun_cases dmxExtRemovePvrPid id pid s with
  | case1 | case3 => exact h
  | case2 => exact h.setData rfl (h.demux id) rfl

end

theorem woken_iff {r : Sys × Bool} : (∃ s', woken k r = some s') ↔ k.wakesCleared ∨ r.2 = false := by
  unfold woken
  cases k.wakesCleared <;> cases r.2 <;> simp

theorem woken_eq {r : Sys × Bool} (h : woken k r = some s') : s' = r.1 := by
  unfold woken at h
  split at h
  · simp at h
  · exact (Option.some.inj h).symm

/-! ## Runs -/

theorem goesWell_of_inv (h : Inv s') (hexit : ∀ id, ev ≠ .exit id) : GoesWell k ev s' :=
  ⟨h.works, fun id heq => absurd heq (hexit id)⟩

/-- A plain step goes on, goes well and keeps the invariant. -/
theorem step_plain (h : Inv s) (hplain : Plain k s ev) : ∃ s', step k s ev = some s' ∧ GoesWell k ev s' ∧ Inv s' := by
  cases ev with
  | init id a =>
    obtain ⟨s', hstep, hinv⟩ := init_plain h hplain
    exact ⟨s', hstep, goesWell_of_inv hinv (by simp), hinv⟩
  | exit id => exact ⟨exited id s, rfl, (exit_well h).mpr hplain, exit_inv h hplain.2⟩
  | openFile id =>
    have hinv : Inv (if s.hasNode id then dmxExtOpen id s else s) := by
      split
      · exact open_inv h
      · exact h
    exact ⟨_, rfl, goesWell_of_inv hinv (by simp), hinv⟩
  | closeFile n =>
    have hinv := close_inv h hplain
    exact ⟨_, rfl, goesWell_of_inv hinv (by simp), hinv⟩
  | read id => exact ⟨_, rfl, goesWell_of_inv (read_inv h) (by simp), read_inv h⟩
  | addPvrPid id pid =>
    obtain ⟨s', hstep⟩ := woken_iff.mpr hplain
    have hinv : Inv s' := woken_eq hstep ▸ addPvrPid_inv h
    exact ⟨s', hstep, goesWell_of_inv hinv (by simp), hinv⟩
  | removePvrPid id pid =>
    obtain ⟨s', hstep⟩ := woken_iff.mpr hplain
    have hinv : Inv s' := woken_eq hstep ▸ removePvrPid_inv h
    exact ⟨s', hstep, goesWell_of_inv hinv (by simp), hinv⟩

theorem plain_of_goesWell (h : Inv s) (hstep : step k s ev = some s') (hwell : GoesWell k ev s') : Plain k s ev := by
  cases ev with
  | init id a =>
    cases hstep
    constructor
    · by_contra hid
      exact init_again h (by simpa using hid) hwell.1
    · rintro ⟨hnull, hreg, hcreated, hdevice⟩
      exact init_class_only h hnull hreg hcreated hdevice hwell.1
  | exit id =>
    cases hstep
    exact (exit_well h).mp hwell
  | openFile id => trivial
  | closeFile n =>
    cases hstep
    intro id hfile hid huser
    exact close_last hfile hid huser hwell.1
  | read id => trivial
  | addPvrPid id pid | removePvrPid id pid => exact woken_iff.mp ⟨s', hstep⟩

theorem run_well_iff (h : Inv s) (evs : List Event) : RunGoesWell k s evs ↔ RunPlain k s evs := by
  induction evs generalizing s with
  | nil => exact .rfl
  | cons ev evs ih =>
    refine Lib.Runs.step_iff (fun s' => plain_of_goesWell h) fun hplain => ?_
    obtain ⟨s', hstep, hwell, hinv⟩ := step_plain h hplain
    exact ⟨s', hstep, hwell, ih hinv⟩

theorem extension_works_iff (k : Kernel) (evs : List Event) : RunGoesWell k start evs ↔ RunPlain k start evs :=
  run_well_iff start_inv evs

/-! ## Runs that do not go well -/

def runFrom (k : Kernel) : Sys → List Event → Option Sys
  | s, [] => some s
  | s, ev :: evs => (step k s ev).bind fun s' => runFrom k s' evs

def given (major : Nat) : Answers := ⟨some major, true, 0⟩

/-- One user opens and closes the device: it refuses writes, records nothing, and is not removed
by its exit. A device is removed while another is there: the class goes, and the other is left. -/
theorem closed_or_alone :
    let k : Kernel := ⟨16, true⟩
    let closed := (runFrom k start [.init 0 (given 240), .openFile 0, .closeFile 0]).getD start
    let left := exited 0 closed
    let two := (runFrom k start [.init 0 (given 240), .init 1 (given 241), .exit 0]).getD start
    (closed.initialised 0 = true ∧ dmxExtWrite (fun _ => 188) true 0 closed = -enodev ∧
        ((dmxExtAddPvrPid k 0 256 closed).1.data 0).pvrPid = []) ∧
      (left.nodes = [(240, 0)] ∧ left.numbers = [(240, 0)]) ∧
      two.initialised 1 = true ∧ two.dmxExtClass = .null ∧ (exited 1 two).nodes = [(241, 1)] := by
  decide

end AmlogicV901d.Guarantees.DemuxExtension
