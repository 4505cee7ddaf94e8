import Mathlib.Data.Nat.Bitwise
import AmlogicV901d.Lib.SignedWord
import AmlogicV901d.Lib.StateTriple
import AmlogicV901d.Source.ResourceMgr

/-!
# Media resources are not oversold

Every interleaving of the sections of all sessions. The value of a resource is accounted
for by the nodes of its list as long as a toggle has fewer than 2^31 of them, and a session
has at most one node of a resource.
-/
namespace AmlogicV901d.Guarantees.MediaResources
open Lib.KeyedList Lib.SignedWord Lib.StateTriple Source.ResourceMgr List

/-! ## Runs -/

def run (acts : List Act) (m : Resman) : Resman := acts.foldl (fun m act => (step act m).getD m) m

/-! ## What is promised -/

/-- The value of a resource against its nodes. -/
def Accounted (resource : ResmanResource) : Prop :=
  match resource.type with
  | .counter avail =>
    resource.value.toInt = resource.sessions.length ∧ resource.sessions.length ≤ avail.toNat
  | .toggle =>
    (resource.value.toInt = resource.sessions.length ∧ ∀ node ∈ resource.sessions, node.s.toggleType = some '+') ∨
      (resource.value.toInt = -resource.sessions.length ∧ ∀ node ∈ resource.sessions, node.s.toggleType = some '-')
  | .tvp => True
  | .codecMm total _ _ _ =>
    resource.value.toInt = sumBy (fun node => (node.s.score.toNat : Int)) resource.sessions ∧
      resource.value.toInt ≤ total.toNat

structure NotOversold (m : Resman) : Prop where
  accounted : ∀ resource ∈ m.resources, Accounted resource
  sessionOnce : ∀ resource ∈ m.resources, (resource.sessions.map ResmanNode.session).Nodup
  resourceOnce : ∀ sess ∈ m.sessions, (sess.resources.map ResmanNode.resource).Nodup

/-- Limits and scores below 2^30. -/
def Bounded : ResmanType → Prop
  | .counter avail => avail.toNat < 2 ^ 30
  | .toggle => True
  | .tvp => True
  | .codecMm total uhd fhd _ => total.toNat < 2 ^ 30 ∧ uhd.toNat < 2 ^ 30 ∧ fhd.toNat < 2 ^ 30

instance : (type : ResmanType) → Decidable (Bounded type)
  | .counter avail => inferInstanceAs (Decidable (avail.toNat < 2 ^ 30))
  | .toggle => instDecidableTrue
  | .tvp => instDecidableTrue
  | .codecMm total uhd fhd _ =>
    inferInstanceAs (Decidable (total.toNat < 2 ^ 30 ∧ uhd.toNat < 2 ^ 30 ∧ fhd.toNat < 2 ^ 30))

/-- The nodes of a toggle can be counted with an int. -/
def ToggleFits (m : Resman) : Prop :=
  ∀ resource ∈ m.resources, resource.type = .toggle → resource.sessions.length < 2 ^ 31

instance (m : Resman) : Decidable (ToggleFits m) :=
  inferInstanceAs (Decidable (∀ resource ∈ m.resources, resource.type = .toggle → resource.sessions.length < 2 ^ 31))

/-- Every state of the run after the first. -/
def ToggleFitsRun : List Act → Resman → Prop
  | [], _ => True
  | act :: acts, m => ToggleFits ((step act m).getD m) ∧ ToggleFitsRun acts ((step act m).getD m)

def decideToggleFitsRun : (acts : List Act) → (m : Resman) → Decidable (ToggleFitsRun acts m)
  | [], _ => instDecidableTrue
  | act :: acts, m => @instDecidableAnd _ _ inferInstance (decideToggleFitsRun acts ((step act m).getD m))

instance (acts : List Act) (m : Resman) : Decidable (ToggleFitsRun acts m) := decideToggleFitsRun acts m

/-! ## Sections -/

/-- What a grant has checked, and what it sets. -/
def Grants (resource : ResmanResource) (value : Int32) (s : NodeData) : Prop :=
  match resource.type with
  | .counter avail => resource.value.toUInt32 < avail ∧ value = resource.value + 1
  | .toggle =>
    (0 ≤ resource.value ∧ value = resource.value + 1 ∧ s.toggleType = some '+') ∨
      (resource.value ≤ 0 ∧ value = resource.value - 1 ∧ s.toggleType = some '-')
  | .tvp => True
  | .codecMm total uhd fhd _ =>
    (s.score = total ∨ s.score = uhd ∨ s.score = fhd) ∧ resource.value.toUInt32 + s.score ≤ total ∧
      value = (resource.value.toUInt32 + s.score).toInt32

/-- A section waits for the same resource, fails, or grants. -/
def Ends (resource : ResmanResource) (acquire : Acquire) : Section → Prop
  | .wait waiting => waiting.resource = acquire.resource
  | .done none => True
  | .done (some (value, s)) => Grants resource value s

section Hooks
variable {m : Resman} {sess : Nat} {res : ResmanResource} {acquire : Acquire}

theorem counterTry_ends {avail : UInt32} (htype : res.type = .counter avail) :
    Ends res acquire (.done (counterTry avail res)) := by
  rw [counterTry]
  split
  next hlt =>
    show Grants res _ _
    rw [Grants, htype]
    exact ⟨hlt, rfl⟩
  next => trivial

theorem toggle_ends (htype : res.type = .toggle) : Ends res acquire (.done (resmanToggleAcquire res acquire)) := by
  rw [resmanToggleAcquire]
  split
  · split
    next hpos =>
      show Grants res _ _
      rw [Grants, htype]
      exact .inl ⟨hpos, rfl, rfl⟩
    next => trivial
  · split
    next hneg =>
      show Grants res _ _
      rw [Grants, htype]
      exact .inr ⟨hneg, rfl, rfl⟩
    next => trivial
  · trivial

theorem counter_ends {avail : UInt32} (htype : res.type = .counter avail) :
    Ensures (resmanCounterAcquire m avail res acquire) (Ends res acquire) := by
  refine .ite (fun _ => .bind fun timeout => ?_) fun _ => .pure (counterTry_ends htype)
  exact .ite (fun _ => .pure rfl) fun _ => .pure (counterTry_ends htype)

theorem tvp_ends (htype : res.type = .tvp) (enabled : List Bool) :
    Ensures (resmanTvpAcquire m sess res acquire enabled) (Ends res acquire) := by
  induction enabled with
  | nil => exact .fail
  | cons now more ih =>
    have hgrant : Ends res acquire (.done (some (res.value + 1, .zeroed))) := by
      show Grants res _ _
      rw [Grants, htype]
      trivial
    refine .ite (fun _ => .fail) fun _ => .ite (fun _ => .pure hgrant) fun _ => ?_
    refine .ite (fun _ => .pure trivial) fun _ => .bind fun preempted => ?_
    refine .ite (fun _ => ?_) fun _ => .pure trivial
    exact .ite (fun _ => .pure rfl) fun _ => ih

theorem codecMmScore_mem (total uhd fhd : UInt32) (arg : Option (List Char)) :
    (codecMmScore total uhd fhd arg).1 = total ∨ (codecMmScore total uhd fhd arg).1 = uhd ∨
      (codecMmScore total uhd fhd arg).1 = fhd := by
  rw [codecMmScore]
  generalize (arg.map options).getD [] = opts
  refine List.foldlRecOn (motive := fun r : UInt32 × Bool => r.1 = total ∨ r.1 = uhd ∨ r.1 = fhd) opts _ (.inr (.inr rfl)) ?_
  intro r hr opt _
  dsimp only
  split
  · exact .inr (.inl rfl)
  split
  · exact .inl rfl
  · split
    · exact .inr (.inl rfl)
    · exact hr

theorem codecMmTry_ends {total uhd fhd limit score : UInt32} {secure : Bool} (htype : res.type = .codecMm total uhd fhd limit)
    (hscore : score = total ∨ score = uhd ∨ score = fhd) :
    Ends res acquire (.done (codecMmTry total score secure res)) := by
  rw [codecMmTry]
  split
  next hle =>
    show Grants res _ _
    rw [Grants, htype]
    exact ⟨hscore, hle, rfl⟩
  next => trivial

theorem codecMm_ends {total uhd fhd limit : UInt32} (htype : res.type = .codecMm total uhd fhd limit) :
    Ensures (resmanCodecMmAcquire m total uhd fhd limit res acquire) (Ends res acquire) := by
  have hscore := codecMmScore_mem total uhd fhd acquire.arg
  refine .ite (fun _ => .bind fun timeout => ?_) fun _ => .pure (codecMmTry_ends htype hscore)
  exact .ite (fun _ => .pure rfl) fun _ => .pure (codecMmTry_ends htype hscore)

theorem acquireHook_ends (enabled : List Bool) :
    Ensures (acquireHook m sess res acquire enabled) (Ends res acquire) := by
  rw [acquireHook]
  split
  next htype => exact counter_ends htype
  next htype => exact .pure (toggle_ends htype)
  next htype => exact tvp_ends htype enabled
  next htype => exact codecMm_ends htype

theorem resumeHook_ends (enabled : List Bool) : Ensures (resumeHook m sess res acquire enabled) (Ends res acquire) := by
  rw [resumeHook]
  split
  next htype => exact .pure (counterTry_ends htype)
  next htype => exact .pure (toggle_ends htype)
  next htype => exact tvp_ends htype enabled
  next htype => exact .pure (codecMmTry_ends htype (codecMmScore_mem _ _ _ _))

end Hooks

/-! ## What a step can do -/

/-- The acquire that a session is in the middle of. -/
def Acquiring (sess : ResmanSession) (acquire : Acquire) : Prop :=
  sess.doing = .entering acquire ∨ sess.doing = .waiting acquire

inductive Effect (m : Resman) : Resman → Prop
  | same : Effect m m
  | opened (status : Nat → ResmanStatus) : Effect m { m with
      sessions := m.sessions ++ [⟨m.nextSession, [], .idle⟩]
      status
      nextSession := m.nextSession + 1 }
  | entered {id : Nat} {sess : ResmanSession} {acquire : Acquire}
      (hsess : lookup ResmanSession.id id m.sessions = some sess)
      (hnone : resmanFindNodeByResourceId sess acquire.resource = none) : Effect m (m.setDoing id (.entering acquire))
  | waits {id : Nat} {sess : ResmanSession} {acquire waiting : Acquire} (status : Nat → ResmanStatus)
      (hsess : lookup ResmanSession.id id m.sessions = some sess) (hacquire : Acquiring sess acquire)
      (hsame : waiting.resource = acquire.resource) : Effect m ({ m with status }.setDoing id (.waiting waiting))
  | idle {id : Nat} (status : Nat → ResmanStatus) : Effect m ({ m with status }.setDoing id .idle)
  | granted {id : Nat} {sess : ResmanSession} {acquire : Acquire} {resource : ResmanResource} {value : Int32} {s : NodeData}
      (status : Nat → ResmanStatus) (hsess : lookup ResmanSession.id id m.sessions = some sess)
      (hacquire : Acquiring sess acquire)
      (hresource : lookup ResmanResource.id acquire.resource m.resources = some resource)
      (hgrant : Grants resource value s) : Effect m ({ m with status }.grant id acquire.resource value s)
  | releases {id : Nat} {sess : ResmanSession} {nodes : List ResmanNode} {close : Bool}
      (hsess : lookup ResmanSession.id id m.sessions = some sess) (hnodup : nodes.Sublist sess.resources)
      (hclose : close = true → nodes = sess.resources) : Effect m (m.setDoing id (.releasing nodes close))
  | released {id : Nat} {sess : ResmanSession} {node : ResmanNode} {left : List ResmanNode} {close : Bool}
      (hsess : lookup ResmanSession.id id m.sessions = some sess) (hdoing : sess.doing = .releasing (node :: left) close) :
      Effect m (m.resmanReleaseResource node left close)
  | closed {id : Nat} {sess : ResmanSession} (hsess : lookup ResmanSession.id id m.sessions = some sess)
      (hdoing : sess.doing = .releasing [] true) : Effect m { m with sessions := remove ResmanSession.id id m.sessions }

variable {m m' : Resman} {sess : ResmanSession} {acquire : Acquire}

theorem acquireSection_effect {id : Nat} {answers : List Bool} {hook : ResmanResource → PreemptM Section}
    (hsess : lookup ResmanSession.id id m.sessions = some sess) (hacquire : Acquiring sess acquire)
    (hhook : ∀ res, Ensures (hook res) (Ends res acquire))
    (h : m.acquireSection id acquire answers hook = some m') : Effect m m' := by
  rw [Resman.acquireSection] at h
  split at h
  next => cases h
  next res hresource =>
    split at h
    next => cases h
    next outcome status left hrun =>
      have hends := hhook res _ _ _ hrun
      cases h
      cases outcome with
      | wait waiting => exact .waits status hsess hacquire hends
      | done granted =>
        cases granted with
        | none => exact .idle status
        | some grant => exact .granted status hsess hacquire hresource hends

theorem step_effect {act : Act} (h : step act m = some m') : Effect m m' := by
  cases act with
  | openSession =>
    cases h
    exact .opened _
  | acquire id acquire =>
    simp only [step] at h
    split at h
    next sess nodes hsess =>
      split at h
      · cases h
        exact .same
      split at h
      · cases h
        exact .same
      next hnone =>
        cases h
        exact .entered hsess (Option.not_isSome_iff_eq_none.mp hnone)
    next => cases h
  | enter id answers enabled =>
    simp only [step] at h
    split at h
    next sess nodes acquire hsess => exact acquireSection_effect hsess (.inl rfl) (fun _ => acquireHook_ends enabled) h
    next => cases h
  | resume id answers enabled =>
    simp only [step] at h
    split at h
    next sess nodes acquire hsess => exact acquireSection_effect hsess (.inr rfl) (fun _ => resumeHook_ends enabled) h
    next => cases h
  | release id res =>
    simp only [step] at h
    split at h
    next sess nodes hsess =>
      split at h
      · cases h
        exact .same
      cases h
      refine .releases hsess ?_ nofun
      cases hfind : resmanFindNodeByResourceId ⟨sess, nodes, .idle⟩ res with
      | none => exact nil_sublist _
      | some node => exact singleton_sublist.mpr (mem_of_lookup hfind)
    next => cases h
  | releaseAll id | close id =>
    simp only [step] at h
    split at h
    next sess nodes hsess =>
      cases h
      exact .releases hsess (List.Sublist.refl _) fun _ => rfl
    next => cases h
  | releaseOne id =>
    simp only [step] at h
    split at h
    next sess nodes node left close hsess =>
      cases h
      exact .released hsess rfl
    next => cases h
  | finish id =>
    simp only [step] at h
    split at h
    next =>
      cases h
      exact .idle m.status
    next sess nodes hsess =>
      cases h
      exact .closed hsess rfl
    next => cases h

/-! ## The invariant -/

/-- A session in the middle of an acquire has no node of that resource; a session that releases
has the nodes that are left. -/
def DoingFits (sess : ResmanSession) : Prop :=
  match sess.doing with
  | .idle => True
  | .entering acquire => ∀ node ∈ sess.resources, node.resource ≠ acquire.resource
  | .waiting acquire => ∀ node ∈ sess.resources, node.resource ≠ acquire.resource
  | .releasing nodes close => nodes.Sublist sess.resources ∧ (close = true → nodes = sess.resources)

structure Books (m : Resman) : Prop where
  sessionIds : (m.sessions.map ResmanSession.id).Nodup
  resourceIds : (m.resources.map ResmanResource.id).Nodup
  fresh : ∀ sess ∈ m.sessions, sess.id < m.nextSession
  owned : ∀ sess ∈ m.sessions, ∀ node ∈ sess.resources, node.session = sess.id ∧
    ∃ resource ∈ m.resources, resource.id = node.resource ∧ node ∈ resource.sessions
  listed : ∀ resource ∈ m.resources, ∀ node ∈ resource.sessions, node.resource = resource.id ∧
    ∃ sess ∈ m.sessions, sess.id = node.session ∧ node ∈ sess.resources
  sessionOnce : ∀ resource ∈ m.resources, (resource.sessions.map ResmanNode.session).Nodup
  resourceOnce : ∀ sess ∈ m.sessions, (sess.resources.map ResmanNode.resource).Nodup
  doing : ∀ sess ∈ m.sessions, DoingFits sess
  bounded : ∀ resource ∈ m.resources, Bounded resource.type
  accounted : ∀ resource ∈ m.resources, Accounted resource

/-- The lists of the sessions and of the resources agree, and `P` holds of every resource. -/
structure Ledger (P : ResmanResource → Prop) (m : Resman) : Prop where
  sessionIds : (m.sessions.map ResmanSession.id).Nodup
  resourceIds : (m.resources.map ResmanResource.id).Nodup
  fresh : ∀ sess ∈ m.sessions, sess.id < m.nextSession
  owned : ∀ sess ∈ m.sessions, ∀ node ∈ sess.resources, node.session = sess.id ∧
    ∃ resource ∈ m.resources, resource.id = node.resource ∧ node ∈ resource.sessions
  listed : ∀ resource ∈ m.resources, ∀ node ∈ resource.sessions, node.resource = resource.id ∧
    ∃ sess ∈ m.sessions, sess.id = node.session ∧ node ∈ sess.resources
  sessionOnce : ∀ resource ∈ m.resources, (resource.sessions.map ResmanNode.session).Nodup
  resourceOnce : ∀ sess ∈ m.sessions, (sess.resources.map ResmanNode.resource).Nodup
  doing : ∀ sess ∈ m.sessions, DoingFits sess
  kept : ∀ resource ∈ m.resources, P resource

section Steps
variable {P : ResmanResource → Prop} {m : Resman} (h : Ledger P m) {id : Nat}
include h

variable (status : Nat → ResmanStatus)

theorem ledger_setDoing {doing : Doing} (hfits : ∀ sess ∈ m.sessions, sess.id = id → DoingFits { sess with doing }) :
    Ledger P ({ m with status }.setDoing id doing) := by
  have hforth : ∀ sess ∈ m.sessions, ∃ sess' ∈ (m.setDoing id doing).sessions, sess'.id = sess.id ∧
      sess'.resources = sess.resources := by
    intro sess hsess
    by_cases hid : sess.id = id
    · exact ⟨_, mem_update_self hsess hid, rfl, rfl⟩
    · exact ⟨sess, mem_update_ne hsess hid, rfl, rfl⟩
  refine { h with
    sessionIds := keys_update_nodup (fun _ hid => hid) h.sessionIds
    fresh := forall_update h.fresh fun sess hsess _ => h.fresh sess hsess
    owned := forall_update h.owned fun sess hsess _ => h.owned sess hsess
    listed := fun res hresource node hnode => ?_
    resourceOnce := forall_update h.resourceOnce fun sess hsess _ => h.resourceOnce sess hsess
    doing := forall_update h.doing hfits }
  obtain ⟨hid, sess, hsess, howner, hin⟩ := h.listed res hresource node hnode
  obtain ⟨sess', hsess', hid', hres'⟩ := hforth sess hsess
  exact ⟨hid, sess', hsess', hid'.trans howner, hres' ▸ hin⟩

theorem ledger_opened : Ledger P { m with
    sessions := m.sessions ++ [⟨m.nextSession, [], .idle⟩]
    status
    nextSession := m.nextSession + 1 } := by
  refine { h with
    sessionIds := keys_append_nodup h.sessionIds fun sess hsess => Nat.ne_of_lt (h.fresh sess hsess)
    fresh := forall_append_single (fun sess hsess => Nat.lt_succ_of_lt (h.fresh sess hsess)) (Nat.lt_succ_self _)
    owned := forall_append_single h.owned nofun
    listed := fun res hresource node hnode => ?_
    resourceOnce := forall_append_single h.resourceOnce nodup_nil
    doing := forall_append_single h.doing trivial }
  obtain ⟨hid, sess, hsess, howner, hin⟩ := h.listed res hresource node hnode
  exact ⟨hid, sess, mem_append_left _ hsess, howner, hin⟩

theorem ledger_closed (hsess : lookup ResmanSession.id id m.sessions = some sess)
    (hdoing : sess.doing = .releasing [] true) :
    Ledger P { m with sessions := remove ResmanSession.id id m.sessions } := by
  have hempty : sess.resources = [] := by
    have hfits := h.doing sess (mem_of_lookup hsess)
    rw [DoingFits, hdoing] at hfits
    exact (hfits.2 rfl).symm
  refine { h with
    sessionIds := keys_remove_nodup h.sessionIds
    fresh := fun b hb => h.fresh b (mem_remove.mp hb).1
    owned := fun b hb => h.owned b (mem_remove.mp hb).1
    listed := fun res hresource node hnode => ?_
    resourceOnce := fun b hb => h.resourceOnce b (mem_remove.mp hb).1
    doing := fun b hb => h.doing b (mem_remove.mp hb).1 }
  obtain ⟨hid, b, hb, howner, hin⟩ := h.listed res hresource node hnode
  refine ⟨hid, b, mem_remove.mpr ⟨hb, fun hbid => ?_⟩, howner, hin⟩
  rw [eq_of_lookup h.sessionIds hsess hb hbid, hempty] at hin
  exact nomatch hin

theorem acquiring_none (hsess : sess ∈ m.sessions) (hacquire : Acquiring sess acquire) :
    ∀ node ∈ sess.resources, node.resource ≠ acquire.resource := by
  have hfits := h.doing sess hsess
  rcases hacquire with hdoing | hdoing <;> rw [DoingFits, hdoing] at hfits <;> exact hfits

/-- One session and one resource change, and agree about the nodes they share. -/
theorem ledger_update {rid : Nat} {res : ResmanResource} (fs : ResmanSession → ResmanSession)
    (fr : ResmanResource → ResmanResource) (hsess : lookup ResmanSession.id id m.sessions = some sess)
    (hsessId : (fs sess).id = id) (hresource : lookup ResmanResource.id rid m.resources = some res)
    (hresourceId : (fr res).id = rid)
    (hothersS : ∀ node, node.resource ≠ rid → (node ∈ (fs sess).resources ↔ node ∈ sess.resources))
    (hothersR : ∀ node, node.session ≠ id → (node ∈ (fr res).sessions ↔ node ∈ res.sessions))
    (hshared : ∀ node, node.session = id → node.resource = rid →
      (node ∈ (fs sess).resources ↔ node ∈ (fr res).sessions))
    (hmine : ∀ node ∈ (fs sess).resources, node.session = id)
    (htheirs : ∀ node ∈ (fr res).sessions, node.resource = rid)
    (hsessionOnce : ((fr res).sessions.map ResmanNode.session).Nodup)
    (hresourceOnce : ((fs sess).resources.map ResmanNode.resource).Nodup) (hdoing : DoingFits (fs sess))
    (hkept : P (fr res)) :
    Ledger P { m with
      sessions := update ResmanSession.id id fs m.sessions
      resources := update ResmanResource.id rid fr m.resources
      status } := by
  have honlySess : ∀ b ∈ m.sessions, b.id = id → b = sess := fun _ => eq_of_lookup h.sessionIds hsess
  have honlyResource : ∀ b ∈ m.resources, b.id = rid → b = res := fun _ => eq_of_lookup h.resourceIds hresource
  rw [update_congr (f := fs) (g := fun _ => fs sess) fun b hb hid => by rw [honlySess b hb hid],
    update_congr (f := fr) (g := fun _ => fr res) fun b hb hid => by rw [honlyResource b hb hid]]
  generalize fs sess = sess' at *
  generalize fr res = resource' at *
  have hsessIn : sess' ∈ update ResmanSession.id id (fun _ => sess') m.sessions :=
    mem_update_self (mem_of_lookup hsess) (key_of_lookup hsess)
  have hresourceIn : resource' ∈ update ResmanResource.id rid (fun _ => resource') m.resources :=
    mem_update_self (mem_of_lookup hresource) (key_of_lookup hresource)
  refine ⟨keys_update_nodup (fun _ _ => hsessId) h.sessionIds, keys_update_nodup (fun _ _ => hresourceId) h.resourceIds,
    forall_update h.fresh fun b hb hid => ?_, fun b hb node hnode => ?_, fun b hb node hnode => ?_,
    forall_update h.sessionOnce fun _ _ _ => hsessionOnce, forall_update h.resourceOnce fun _ _ _ => hresourceOnce,
    forall_update h.doing fun _ _ _ => hdoing, forall_update h.kept fun _ _ _ => hkept⟩
  · rw [hsessId, ← hid]
    exact h.fresh b hb
  · obtain ⟨hb, hid⟩ | ⟨_, _, _, rfl⟩ := mem_update hb
    · obtain ⟨howner, r, hr, hrid, hin⟩ := h.owned b hb node hnode
      refine ⟨howner, ?_⟩
      by_cases hr' : r.id = rid
      · obtain rfl := honlyResource r hr hr'
        exact ⟨resource', hresourceIn, hresourceId.trans (hr'.symm.trans hrid), (hothersR node (howner ▸ hid)).mpr hin⟩
      · exact ⟨r, mem_update_ne hr hr', hrid, hin⟩
    · refine ⟨(hmine node hnode).trans hsessId.symm, ?_⟩
      by_cases hr' : node.resource = rid
      · exact ⟨resource', hresourceIn, hresourceId.trans hr'.symm, (hshared node (hmine node hnode) hr').mp hnode⟩
      · obtain ⟨_, r, hr, hrid, hin⟩ := h.owned sess (mem_of_lookup hsess) node ((hothersS node hr').mp hnode)
        exact ⟨r, mem_update_ne hr (hrid ▸ hr'), hrid, hin⟩
  · obtain ⟨hb, hid⟩ | ⟨_, _, _, rfl⟩ := mem_update hb
    · obtain ⟨howner, c, hc, hcid, hin⟩ := h.listed b hb node hnode
      refine ⟨howner, ?_⟩
      by_cases hc' : c.id = id
      · obtain rfl := honlySess c hc hc'
        exact ⟨sess', hsessIn, hsessId.trans (hc'.symm.trans hcid), (hothersS node (howner ▸ hid)).mpr hin⟩
      · exact ⟨c, mem_update_ne hc hc', hcid, hin⟩
    · refine ⟨(htheirs node hnode).trans hresourceId.symm, ?_⟩
      by_cases hc' : node.session = id
      · exact ⟨sess', hsessIn, hsessId.trans hc'.symm, (hshared node hc' (htheirs node hnode)).mpr hnode⟩
      · obtain ⟨_, c, hc, hcid, hin⟩ := h.listed res (mem_of_lookup hresource) node ((hothersR node hc').mp hnode)
        exact ⟨c, mem_update_ne hc (hcid ▸ hc'), hcid, hin⟩

theorem ledger_granted {res : ResmanResource} {value : Int32} {s : NodeData}
    (hsess : lookup ResmanSession.id id m.sessions = some sess) (hacquire : Acquiring sess acquire)
    (hresource : lookup ResmanResource.id acquire.resource m.resources = some res)
    (hkept : P { res with value, sessions := res.sessions ++ [⟨id, acquire.resource, s⟩] }) :
    Ledger P ({ m with status }.grant id acquire.resource value s) := by
  have hnone := acquiring_none h (mem_of_lookup hsess) hacquire
  have hsessId := key_of_lookup hsess
  have hresourceId := key_of_lookup hresource
  -- a node of the session in the list would be a node of the res at the session
  have hfree : ∀ node ∈ res.sessions, node.session ≠ id := by
    intro node hnode hid
    obtain ⟨hrid, b, hb, hbid, hin⟩ := h.listed res (mem_of_lookup hresource) node hnode
    obtain rfl := eq_of_lookup h.sessionIds hsess hb (hbid.trans hid)
    exact hnone node hin (hrid.trans hresourceId)
  refine ledger_update h _ _ _ hsess hsessId hresource hresourceId (fun node hrid => ?_) (fun node hid => ?_)
    (fun node hid hrid => ?_) (forall_append_single (fun node hold => ?_) rfl) (forall_append_single (fun node hold => ?_) rfl)
    (keys_append_nodup (h.sessionOnce res (mem_of_lookup hresource)) hfree)
    (keys_append_nodup (h.resourceOnce sess (mem_of_lookup hsess)) hnone) trivial hkept
  · rw [mem_append, mem_singleton]
    exact ⟨fun hin => hin.resolve_right fun heq => hrid (heq ▸ rfl), .inl⟩
  · rw [mem_append, mem_singleton]
    exact ⟨fun hin => hin.resolve_right fun heq => hid (heq ▸ rfl), .inl⟩
  · rw [mem_append, mem_append]
    exact ⟨fun hin => .inr (hin.resolve_left fun hold => hnone node hold hrid),
      fun hin => .inr (hin.resolve_left fun hold => hfree node hold hid)⟩
  · exact (h.owned sess (mem_of_lookup hsess) node hold).1.trans hsessId
  · exact (h.listed res (mem_of_lookup hresource) node hold).1.trans hresourceId

theorem ledger_released {node : ResmanNode} {left : List ResmanNode} {close : Bool}
    (hsess : lookup ResmanSession.id id m.sessions = some sess) (hdoing : sess.doing = .releasing (node :: left) close)
    (hkept : ∀ res ∈ m.resources, node ∈ res.sessions →
      P { res with value := releaseHook res node, sessions := res.sessions.erase node }) :
    Ledger P (m.resmanReleaseResource node left close) := by
  have hsessIn := mem_of_lookup hsess
  have hfits := h.doing sess hsessIn
  rw [DoingFits, hdoing] at hfits
  have hnode : node ∈ sess.resources := hfits.1.subset mem_cons_self
  obtain ⟨howner, res, hresourceIn, hrid, hlisted⟩ := h.owned sess hsessIn node hnode
  have hresource : lookup ResmanResource.id node.resource m.resources = some res :=
    hrid ▸ lookup_of_mem h.resourceIds hresourceIn
  have hsess' : lookup ResmanSession.id node.session m.sessions = some sess := by
    rw [howner]
    exact lookup_of_mem h.sessionIds hsessIn
  have hnodupS : sess.resources.Nodup :=
    List.Pairwise.of_map ResmanNode.resource (fun a b hne heq => hne (heq ▸ rfl)) (h.resourceOnce sess hsessIn)
  have hnodupR : res.sessions.Nodup :=
    List.Pairwise.of_map ResmanNode.session (fun a b hne heq => hne (heq ▸ rfl)) (h.sessionOnce res hresourceIn)
  refine ledger_update h m.status _ _ hsess' howner.symm hresource hrid (fun b hbr => ?_) (fun b hbs => ?_)
    (fun b hbs hbr => ?_) (fun b hb => ?_) (fun b hb => ?_) ?_ ?_ ?_ (hkept res hresourceIn hlisted)
  · exact mem_erase_of_ne fun heq => hbr (heq ▸ rfl)
  · exact mem_erase_of_ne fun heq => hbs (heq ▸ rfl)
  · rw [hnodupS.mem_erase_iff, hnodupR.mem_erase_iff]
    refine ⟨fun hin => absurd ?_ hin.1, fun hin => absurd ?_ hin.1⟩
    · have honce := h.resourceOnce sess hsessIn
      exact eq_of_lookup honce (lookup_of_mem honce hnode) hin.2 hbr
    · have honce := h.sessionOnce res hresourceIn
      exact eq_of_lookup honce (lookup_of_mem honce hlisted) hin.2 hbs
  · exact (h.owned sess hsessIn b (mem_of_mem_erase hb)).1.trans howner.symm
  · exact (h.listed res hresourceIn b (mem_of_mem_erase hb)).1.trans hrid
  · exact (h.sessionOnce res hresourceIn).sublist (erase_sublist.map _)
  · exact (h.resourceOnce sess hsessIn).sublist (erase_sublist.map _)
  · have hleft := hfits.1.erase node
    rw [erase_cons_head] at hleft
    refine ⟨hleft, fun hclose => ?_⟩
    rw [← hfits.2 hclose, erase_cons_head]

end Steps

/-! ## Accounting -/

section Accounting
variable {value : Int32} {nodes : List ResmanNode} {node : ResmanNode}

theorem length_snoc : (nodes ++ [node]).length = nodes.length + 1 := length_append

theorem counter_grant {avail : UInt32} (hbounded : avail.toNat < 2 ^ 30) (hvalue : value.toInt = nodes.length)
    (hlt : value.toUInt32 < avail) :
    (value + 1).toInt = ((nodes ++ [node]).length : Int) ∧ (nodes ++ [node]).length ≤ avail.toNat := by
  rw [UInt32.lt_iff_toNat_lt, toNat_toUInt32 hvalue] at hlt
  have hnext := toInt_add_of_bounds (a := value) (b := 1)
  rw [toInt_one, hvalue] at hnext
  rw [hnext (by omega) (by omega), length_snoc]
  exact ⟨by omega, hlt⟩

/-- All nodes have the sign of the value. -/
def Signed (value : Int32) (nodes : List ResmanNode) : Prop :=
  (value.toInt = nodes.length ∧ ∀ node ∈ nodes, node.s.toggleType = some '+') ∨
    (value.toInt = -nodes.length ∧ ∀ node ∈ nodes, node.s.toggleType = some '-')

theorem signed_up (h : Signed value nodes) (hpos : 0 ≤ value) :
    value.toInt = nodes.length ∧ ∀ node ∈ nodes, node.s.toggleType = some '+' := by
  obtain hup | ⟨hvalue, _⟩ := h
  · exact hup
  have hnonneg : Int32.toInt 0 ≤ value.toInt := Int32.le_iff_toInt_le.mp hpos
  rw [Int32.toInt_zero] at hnonneg
  obtain rfl : nodes = [] := length_eq_zero_iff.mp (by omega)
  exact ⟨hvalue, nofun⟩

theorem signed_down (h : Signed value nodes) (hneg : value ≤ 0) :
    value.toInt = -nodes.length ∧ ∀ node ∈ nodes, node.s.toggleType = some '-' := by
  obtain ⟨hvalue, _⟩ | hdown := h
  · have hnonpos : value.toInt ≤ Int32.toInt 0 := Int32.le_iff_toInt_le.mp hneg
    rw [Int32.toInt_zero] at hnonpos
    obtain rfl : nodes = [] := length_eq_zero_iff.mp (by omega)
    exact ⟨hvalue, nofun⟩
  · exact hdown

theorem toggle_up (hroom : nodes.length + 1 < 2 ^ 31) (hpos : 0 ≤ value) (h : Signed value nodes)
    (hnode : node.s.toggleType = some '+') : Signed (value + 1) (nodes ++ [node]) := by
  obtain ⟨hvalue, hsign⟩ := signed_up h hpos
  have hnext := toInt_add_of_bounds (a := value) (b := 1)
  rw [toInt_one, hvalue] at hnext
  refine .inl ⟨?_, forall_append_single hsign hnode⟩
  rw [hnext (by omega) (by omega), length_snoc]
  omega

theorem toggle_down (hroom : nodes.length + 1 < 2 ^ 31) (hneg : value ≤ 0) (h : Signed value nodes)
    (hnode : node.s.toggleType = some '-') : Signed (value - 1) (nodes ++ [node]) := by
  obtain ⟨hvalue, hsign⟩ := signed_down h hneg
  have hnext := toInt_sub_of_bounds (a := value) (b := 1)
  rw [toInt_one, hvalue] at hnext
  refine .inr ⟨?_, forall_append_single hsign hnode⟩
  rw [hnext (by omega) (by omega), length_snoc]
  omega

theorem codecMm_grant {total score : UInt32} (htotal : total.toNat < 2 ^ 30) (hscore : score.toNat < 2 ^ 30)
    (hnode : node.s.score = score) (hvalue : value.toInt = sumBy (fun node => (node.s.score.toNat : Int)) nodes)
    (hle : value.toInt ≤ total.toNat) (hroom : value.toUInt32 + score ≤ total) :
    (value.toUInt32 + score).toInt32.toInt = sumBy (fun node => (node.s.score.toNat : Int)) (nodes ++ [node]) ∧
      (value.toUInt32 + score).toInt32.toInt ≤ total.toNat := by
  have hnonneg : 0 ≤ value.toInt := by
    rw [hvalue]
    exact sumBy_nonneg fun b _ => Int.natCast_nonneg _
  have hword : value.toUInt32.toNat = value.toInt.toNat := toNat_toUInt32 (Int.toNat_of_nonneg hnonneg).symm
  have hsum : (value.toUInt32 + score).toNat = value.toInt.toNat + score.toNat := by
    rw [UInt32.toNat_add, hword]
    exact Nat.mod_eq_of_lt (by omega)
  rw [UInt32.le_iff_toNat_le] at hroom
  rw [toInt_toInt32 (by omega), hsum, sumBy_append, sumBy_cons, sumBy_nil, hnode, ← hvalue]
  exact ⟨by omega, by omega⟩

theorem grant_accounted {res : ResmanResource} (hbounded : Bounded res.type) (ha : Accounted res)
    (hg : Grants res value node.s) (hroom : res.type = .toggle → res.sessions.length + 1 < 2 ^ 31) :
    Accounted { res with value, sessions := res.sessions ++ [node] } := by
  obtain ⟨rid, type, old, nodes⟩ := res
  cases type with
  | counter avail =>
    obtain ⟨hlt, rfl⟩ := hg
    exact counter_grant hbounded ha.1 hlt
  | toggle =>
    rcases hg with ⟨hpos, rfl, hsign⟩ | ⟨hneg, rfl, hsign⟩
    · exact toggle_up (hroom rfl) hpos ha hsign
    · exact toggle_down (hroom rfl) hneg ha hsign
  | tvp => trivial
  | codecMm total uhd fhd limit =>
    obtain ⟨hscore, hle, rfl⟩ := hg
    obtain ⟨htotal, huhd, hfhd⟩ := hbounded
    refine codecMm_grant htotal ?_ rfl ha.1 ha.2 hle
    rcases hscore with hscore | hscore | hscore <;> rw [hscore]
    · exact htotal
    · exact huhd
    · exact hfhd

theorem length_erase (hnode : node ∈ nodes) : (nodes.erase node).length + 1 = nodes.length := by
  rw [length_erase_of_mem hnode]
  exact Nat.sub_add_cancel (length_pos_of_mem hnode)

theorem down_one (hnode : node ∈ nodes) (hvalue : value.toInt = nodes.length) :
    value > 0 ∧ (value - 1).toInt = ((nodes.erase node).length : Int) := by
  have hlength := length_erase hnode
  have hlt := value.toInt_lt
  refine ⟨Int32.lt_iff_toInt_lt.mpr ?_, ?_⟩
  · rw [Int32.toInt_zero]
    omega
  · rw [toInt_sub_of_bounds] <;> rw [toInt_one, hvalue] <;> omega

theorem up_one (hnode : node ∈ nodes) (hvalue : value.toInt = -nodes.length) :
    value < 0 ∧ (value + 1).toInt = -((nodes.erase node).length : Int) := by
  have hlength := length_erase hnode
  have hlow := value.le_toInt
  refine ⟨Int32.lt_iff_toInt_lt.mpr ?_, ?_⟩
  · rw [Int32.toInt_zero]
    omega
  · rw [toInt_add_of_bounds] <;> rw [toInt_one, hvalue] <;> omega

theorem codecMm_release {total : UInt32} (htotal : total.toNat < 2 ^ 30) (hnode : node ∈ nodes)
    (hvalue : value.toInt = sumBy (fun node => (node.s.score.toNat : Int)) nodes) (hle : value.toInt ≤ total.toNat) :
    value.toUInt32 ≥ node.s.score ∧
      (value.toUInt32 - node.s.score).toInt32.toInt = sumBy (fun node => (node.s.score.toNat : Int)) (nodes.erase node) := by
  have hpart : (node.s.score.toNat : Int) ≤ value.toInt := by
    rw [hvalue]
    exact le_sumBy (w := fun node => (node.s.score.toNat : Int)) hnode fun b _ => Int.natCast_nonneg _
  have hword : value.toUInt32.toNat = value.toInt.toNat := toNat_toUInt32 (Int.toNat_of_nonneg (by omega)).symm
  have hge : node.s.score ≤ value.toUInt32 := UInt32.le_iff_toNat_le.mpr (by omega)
  have hsub : (value.toUInt32 - node.s.score).toNat = value.toInt.toNat - node.s.score.toNat := by
    rw [UInt32.toNat_sub_of_le _ _ hge, hword]
  refine ⟨hge, ?_⟩
  rw [toInt_toInt32 (by omega), hsub, sumBy_erase _ hnode, ← hvalue]
  omega

theorem release_accounted {res : ResmanResource} (hbounded : Bounded res.type) (ha : Accounted res)
    (hnode : node ∈ res.sessions) :
    Accounted { res with value := releaseHook res node, sessions := res.sessions.erase node } := by
  obtain ⟨rid, type, old, nodes⟩ := res
  have hlength := length_erase hnode
  have hsub : ∀ b ∈ nodes.erase node, b ∈ nodes := fun b hb => mem_of_mem_erase hb
  cases type with
  | counter avail =>
    obtain ⟨hvalue, hle⟩ := ha
    obtain ⟨hpos, hdown⟩ := down_one hnode hvalue
    have hhook : releaseHook ⟨rid, .counter avail, old, nodes⟩ node = old - 1 := if_pos hpos
    rw [hhook]
    exact ⟨hdown, by dsimp only at hle hlength ⊢; omega⟩
  | toggle =>
    rcases ha with ⟨hvalue, hsign⟩ | ⟨hvalue, hsign⟩
    · obtain ⟨hpos, hdown⟩ := down_one hnode hvalue
      have hhook : releaseHook ⟨rid, .toggle, old, nodes⟩ node = old - 1 := by
        simp only [releaseHook, hsign node hnode]
        exact if_pos hpos
      rw [hhook]
      exact .inl ⟨hdown, fun b hb => hsign b (hsub b hb)⟩
    · obtain ⟨hneg, hup⟩ := up_one hnode hvalue
      have hhook : releaseHook ⟨rid, .toggle, old, nodes⟩ node = old + 1 := by
        simp only [releaseHook, hsign node hnode]
        exact if_pos hneg
      rw [hhook]
      exact .inr ⟨hup, fun b hb => hsign b (hsub b hb)⟩
  | tvp => trivial
  | codecMm total uhd fhd limit =>
    obtain ⟨hvalue, hle⟩ := ha
    obtain ⟨hge, hdown⟩ := codecMm_release hbounded.1 hnode hvalue hle
    have hhook : releaseHook ⟨rid, .codecMm total uhd fhd limit, old, nodes⟩ node = (old.toUInt32 - node.s.score).toInt32 :=
      if_pos hge
    rw [hhook]
    refine ⟨hdown, ?_⟩
    rw [hdown, sumBy_erase _ hnode, ← hvalue]
    omega

end Accounting

/-! ## Runs -/

theorem effect_ledger {P : ResmanResource → Prop} (h : Ledger P m)
    (hgrant : ∀ res ∈ m.resources, ∀ value node, Grants res value node.s →
      { res with value, sessions := res.sessions ++ [node] } ∈ m'.resources →
      P { res with value, sessions := res.sessions ++ [node] }) (hrelease : ∀ res ∈ m.resources, ∀ node ∈ res.sessions,
      P { res with value := releaseHook res node, sessions := res.sessions.erase node }) (heffect : Effect m m') :
    Ledger P m' := by
  cases heffect with
  | same => exact h
  | opened status => exact ledger_opened h status
  | entered hsess hnone =>
    exact ledger_setDoing h m.status fun sess hin hid => eq_of_lookup h.sessionIds hsess hin hid ▸ lookup_eq_none.mp hnone
  | waits status hsess hacquire hsame =>
    refine ledger_setDoing h status fun sess hin hid node hnode => ?_
    rw [eq_of_lookup h.sessionIds hsess hin hid] at hnode
    rw [hsame]
    exact acquiring_none h (mem_of_lookup hsess) hacquire node hnode
  | idle status => exact ledger_setDoing h status fun _ _ _ => trivial
  | @granted id sess acquire res value s status hsess hacquire hresource hgranted =>
    have hin := mem_of_lookup hresource
    exact ledger_granted h status hsess hacquire hresource (hgrant res hin value ⟨id, acquire.resource, s⟩ hgranted
      (mem_update_self hin (key_of_lookup hresource)))
  | releases hsess hsub hclose =>
    exact ledger_setDoing h m.status fun sess hin hid => eq_of_lookup h.sessionIds hsess hin hid ▸ ⟨hsub, hclose⟩
  | released hsess hdoing => exact ledger_released h hsess hdoing fun res hin hnode => hrelease res hin _ hnode
  | closed hsess hdoing => exact ledger_closed h hsess hdoing

theorem books_iff_ledger {m : Resman} : Books m ↔ Ledger (fun res => Bounded res.type ∧ Accounted res) m :=
  ⟨fun h => { h with kept := fun res hin => ⟨h.bounded res hin, h.accounted res hin⟩ },
    fun h => { h with bounded := fun res hin => (h.kept res hin).1, accounted := fun res hin => (h.kept res hin).2 }⟩

theorem effect_books (h : Books m) (hfits : ToggleFits m') (heffect : Effect m m') : Books m' := by
  rw [books_iff_ledger]
  refine effect_ledger (books_iff_ledger.mp h) (fun res hin value node hgrant hin' => ?_) (fun res hin node hnode => ?_) heffect
  · refine ⟨h.bounded res hin, grant_accounted (h.bounded res hin) (h.accounted res hin) hgrant fun htype => ?_⟩
    rw [← length_snoc]
    exact hfits _ hin' htype
  · exact ⟨h.bounded res hin, release_accounted (h.bounded res hin) (h.accounted res hin) hnode⟩

theorem run_books {acts : List Act} {m : Resman} (h : Books m) (hfits : ToggleFitsRun acts m) : Books (run acts m) := by
  induction acts generalizing m with
  | nil => exact h
  | cons act acts ih =>
    obtain ⟨hroom, hlater⟩ := hfits
    have hnext : Books ((step act m).getD m) := by
      cases hstep : step act m with
      | none => exact h
      | some m' =>
        rw [hstep] at hroom
        exact effect_books h hroom (step_effect hstep)
    exact ih hnext hlater

/-- The resources of a configuration, before anything is acquired. -/
structure Fresh (resources : List ResmanResource) : Prop where
  ids : (resources.map ResmanResource.id).Nodup
  empty : ∀ resource ∈ resources, resource.sessions = [] ∧ resource.value = 0
  bounded : ∀ resource ∈ resources, Bounded resource.type

theorem fresh_nil : Fresh [] :=
  ⟨nodup_nil, fun _ h => absurd h not_mem_nil, nofun⟩

theorem createResource_some {resources resources' : List ResmanResource} {config : Nat × ResmanType}
    (h : resmanCreateResource resources config = some resources') :
    resources' = resources ++ [⟨config.1, config.2, 0, []⟩] ∧ ∀ b ∈ resources, b.id ≠ config.1 := by
  rw [resmanCreateResource] at h
  split at h
  next => cases h
  next hnew =>
    have hnone := Option.not_isSome_iff_eq_none.mp fun hsome => hnew (.inr hsome)
    exact ⟨(Option.some.inj h).symm, lookup_eq_none.mp hnone⟩

variable {configs : List (Nat × ResmanType)}

theorem parserConfig_induct {Q : List ResmanResource → Prop} (hnil : Q [])
    (hstep : ∀ resources, ∀ config ∈ configs, Q resources → (∀ b ∈ resources, b.id ≠ config.1) →
      Q (resources ++ [⟨config.1, config.2, 0, []⟩])) : Q (resmanParserConfig configs) := by
  have hfold : ∀ {resources resources' : List ResmanResource}, Q resources →
      configs.foldlM resmanCreateResource resources = some resources' → Q resources' := by
    induction configs with
    | nil =>
      intro resources resources' h hrun
      cases hrun
      exact h
    | cons config configs ih =>
      intro resources resources' h hrun
      obtain ⟨next, hcreate, hrest⟩ := Option.bind_eq_some_iff.mp hrun
      obtain ⟨rfl, hnew⟩ := createResource_some hcreate
      exact ih (fun resources b hb => hstep resources b (.tail _ hb))
        (hstep resources config mem_cons_self h hnew) hrest
  rw [resmanParserConfig]
  cases hrun : configs.foldlM resmanCreateResource [] with
  | none => exact hnil
  | some resources => exact hfold hnil hrun

theorem parserConfig_fresh (hbounded : ∀ config ∈ configs, Bounded config.2) : Fresh (resmanParserConfig configs) := by
  refine parserConfig_induct fresh_nil fun resources config hconfig h hnew => ⟨keys_append_nodup h.ids hnew, ?_, ?_⟩
  · exact forall_append_single h.empty ⟨rfl, rfl⟩
  · exact forall_append_single h.bounded (hbounded config hconfig)

theorem empty_accounted {res : ResmanResource} (h : res.sessions = [] ∧ res.value = 0) : Accounted res := by
  obtain ⟨rid, type, value, nodes⟩ := res
  obtain ⟨rfl, rfl⟩ := h
  cases type with
  | counter avail => exact ⟨rfl, Nat.zero_le _⟩
  | toggle => exact .inl ⟨rfl, nofun⟩
  | tvp => trivial
  | codecMm total uhd fhd limit => exact ⟨rfl, Int.natCast_nonneg _⟩

theorem init_ledger {P : ResmanResource → Prop} (hids : ((resmanParserConfig configs).map ResmanResource.id).Nodup)
    (hempty : ∀ res ∈ resmanParserConfig configs, res.sessions = []) (hkept : ∀ res ∈ resmanParserConfig configs, P res)
    (preemptTimeoutMs : UInt32) : Ledger P (resmanInit configs preemptTimeoutMs) := by
  have hnone : ∀ res ∈ resmanParserConfig configs, ∀ node, node ∉ res.sessions := by
    intro res hin node hnode
    rw [hempty res hin] at hnode
    exact nomatch hnode
  refine ⟨nodup_nil, hids, fun _ hs => absurd hs not_mem_nil, fun _ hs => absurd hs not_mem_nil,
    fun res hin node hnode => absurd hnode (hnone res hin node), fun res hin => ?_,
    fun _ hs => absurd hs not_mem_nil, fun _ hs => absurd hs not_mem_nil, hkept⟩
  rw [hempty res hin]
  exact nodup_nil

theorem init_books (hbounded : ∀ config ∈ configs, Bounded config.2) (preemptTimeoutMs : UInt32) :
    Books (resmanInit configs preemptTimeoutMs) := by
  have hfresh := parserConfig_fresh hbounded
  exact books_iff_ledger.mpr (init_ledger hfresh.ids (fun res hin => (hfresh.empty res hin).1)
    (fun res hin => ⟨hfresh.bounded res hin, empty_accounted (hfresh.empty res hin)⟩) preemptTimeoutMs)

/-- In every state of every interleaving the nodes account for the values, as long as a toggle has
fewer than 2^31 of them. -/
theorem resources_not_oversold {configs : List (Nat × ResmanType)} (hbounded : ∀ config ∈ configs, Bounded config.2)
    {preemptTimeoutMs : UInt32} {acts : List Act} (hfits : ToggleFitsRun acts (resmanInit configs preemptTimeoutMs)) :
    NotOversold (run acts (resmanInit configs preemptTimeoutMs)) := by
  have h := run_books (init_books hbounded preemptTimeoutMs) hfits
  exact { h with }

/-- Two decoders of the built-in configuration; the second one preempts the first, which lets
go in the middle of the wait. -/
theorem defaultConfigs_not_oversold : NotOversold (run [.openSession, .openSession,
    .acquire 0 ⟨5, false, 0, some "secure".toList⟩, .enter 0 [] [], .acquire 1 ⟨5, true, 0, some "uhd".toList⟩, .enter 1 [true] [],
    .releaseAll 0, .releaseOne 0, .resume 1 [] []] (resmanInit defaultConfigs 2500)) :=
  resources_not_oversold (by decide +kernel) (by decide +kernel)

/-! ## Too many sessions for a toggle -/

def plus : Acquire := ⟨0, false, 0, some ['+']⟩

def plusNode (sess : Nat) : ResmanNode := ⟨sess, 0, ⟨some '+', 0, false⟩⟩

/-- A number of sessions, one after the other, that all take the toggle up. -/
def takeUp (n : Nat) : List Act := (List.range n).flatMap fun sess => [.openSession, .acquire sess plus, .enter sess [] []]

section Opened
variable {sessions : List ResmanSession} {n : Nat} (hnew : ∀ sess ∈ sessions, sess.id ≠ n) {sess : ResmanSession} (hid : sess.id = n)
include hnew hid

theorem lookup_opened : lookup ResmanSession.id n (sessions ++ [sess]) = some sess := by
  subst hid
  exact lookup_append_new hnew

theorem update_opened (f : ResmanSession → ResmanSession) :
    update ResmanSession.id n f (sessions ++ [sess]) = sessions ++ [f sess] :=
  update_split f hid hnew nofun

end Opened

theorem takeUp_step {sessions : List ResmanSession} {value : Int32} (nodes : List ResmanNode) (status : Nat → ResmanStatus)
    {n : Nat} (ms : UInt32) (hnew : ∀ sess ∈ sessions, sess.id ≠ n) (hpos : value ≥ 0) :
    ∃ status', run [.openSession, .acquire n plus, .enter n [] []] ⟨sessions, [⟨0, .toggle, value, nodes⟩], status, n, ms⟩ =
      ⟨sessions ++ [⟨n, [plusNode n], .idle⟩], [⟨0, .toggle, value + 1, nodes ++ [plusNode n]⟩], status', n + 1, ms⟩ := by
  have hacquire : ∀ status, step (.acquire n plus) ⟨sessions ++ [⟨n, [], .idle⟩], [⟨0, .toggle, value, nodes⟩], status, n + 1, ms⟩ =
      some ⟨sessions ++ [⟨n, [], .entering plus⟩], [⟨0, .toggle, value, nodes⟩], status, n + 1, ms⟩ := by
    intro status
    simp only [step, lookup_opened hnew]
    show some (Resman.setDoing _ n (.entering plus)) = _
    rw [Resman.setDoing, update_opened hnew rfl]
  have henter : ∀ status, ∃ status', step (.enter n [] []) ⟨sessions ++ [⟨n, [], .entering plus⟩],
      [⟨0, .toggle, value, nodes⟩], status, n + 1, ms⟩ = some ⟨sessions ++ [⟨n, [plusNode n], .idle⟩],
      [⟨0, .toggle, value + 1, nodes ++ [plusNode n]⟩], status', n + 1, ms⟩ := by
    intro status
    refine ⟨setStatus n .acquired status, ?_⟩
    simp only [step, lookup_opened hnew]
    have hhook : resmanToggleAcquire ⟨0, .toggle, value, nodes⟩ plus = some (value + 1, (plusNode n).s) := if_pos hpos
    show some (Resman.endSection _ n 0 (.done (resmanToggleAcquire ⟨0, .toggle, value, nodes⟩ plus))) = _
    rw [hhook]
    show some (Resman.grant _ n 0 (value + 1) (plusNode n).s) = _
    rw [Resman.grant]
    rw [update_opened hnew rfl]
    rfl
  obtain ⟨status', henter⟩ := henter (setStatus n .inited status)
  refine ⟨status', ?_⟩
  have hopen : step .openSession ⟨sessions, [⟨0, .toggle, value, nodes⟩], status, n, ms⟩ =
      some ⟨sessions ++ [⟨n, [], .idle⟩], [⟨0, .toggle, value, nodes⟩], setStatus n .inited status, n + 1, ms⟩ := rfl
  simp only [run, foldl_cons, foldl_nil, hopen, hacquire, henter, Option.getD_some]

theorem takeUp_run {n : Nat} (hn : n ≤ 2 ^ 31) : ∃ sessions status, run (takeUp n) (resmanInit [(0, .toggle)] 2500) =
    ⟨sessions, [⟨0, .toggle, Int32.ofNat n, (List.range n).map plusNode⟩], status, n, 2500⟩ ∧ ∀ sess ∈ sessions, sess.id < n := by
  induction n with
  | zero => exact ⟨[], _, rfl, nofun⟩
  | succ n ih =>
    obtain ⟨sessions, status, hrun, hids⟩ := ih (Nat.le_of_succ_le hn)
    have hpos : Int32.ofNat n ≥ 0 := by
      rw [ge_iff_le, Int32.le_iff_toInt_le, Int32.toInt_ofNat_of_lt hn]
      exact Int.natCast_nonneg n
    obtain ⟨status', hstep⟩ := takeUp_step ((List.range n).map plusNode) status 2500
      (fun sess hin => Nat.ne_of_lt (hids sess hin)) hpos
    refine ⟨sessions ++ [⟨n, [plusNode n], .idle⟩], status', ?_, ?_⟩
    · have hacts : takeUp (n + 1) = takeUp n ++ [.openSession, .acquire n plus, .enter n [] []] := by
        rw [takeUp, range_succ, flatMap_append]
        rfl
      rw [hacts, run, foldl_append]
      rw [run] at hrun
      rw [hrun]
      rw [run] at hstep
      rw [hstep, range_succ, map_append]
      have hvalue : Int32.ofNat n + 1 = Int32.ofNat (n + 1) := (Int32.ofNat_add n 1).symm
      rw [hvalue]
      rfl
    · exact forall_append_single (fun sess hin => Nat.lt_succ_of_lt (hids sess hin)) (Nat.lt_succ_self n)

theorem takeUp_unsigned {n : Nat} (hn : n ≤ 2 ^ 31) (hsome : 0 < n) (hneg : (Int32.ofNat n).toInt < 0) :
    ¬ NotOversold (run (takeUp n) (resmanInit [(0, .toggle)] 2500)) := by
  intro h
  obtain ⟨sessions, status, hrun, _⟩ := takeUp_run hn
  rw [hrun] at h
  rcases h.accounted _ (mem_singleton_self _) with ⟨hup, _⟩ | ⟨_, hsign⟩
  · have hlength : (0 : Int) ≤ ((List.range n).map plusNode).length := Int.natCast_nonneg _
    exact absurd (Int.le_trans hlength (Int.le_of_eq hup.symm)) (Int.not_le.mpr hneg)
  · have hfirst : plusNode 0 ∈ (List.range n).map plusNode := mem_map.mpr ⟨0, mem_range.mpr hsome, rfl⟩
    exact nomatch hsign (plusNode 0) hfirst

/-- With 2^31 sessions the value of the toggle has wrapped around to a negative one. -/
theorem toggle_wraps_around : ¬ NotOversold (run (takeUp (2 ^ 31)) (resmanInit [(0, .toggle)] 2500)) :=
  takeUp_unsigned (Nat.le_refl _) (Nat.two_pow_pos 31) (by decide +kernel)

end AmlogicV901d.Guarantees.MediaResources
