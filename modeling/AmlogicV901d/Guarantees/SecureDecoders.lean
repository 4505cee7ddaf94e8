import AmlogicV901d.Guarantees.MediaResources

/-!
# How many secure decoders there are

The limit of secure decoders is looked at by preemption only, and that runs when the score is
used up. So the limit holds in every state of every interleaving exactly if the score does not
suffice for one more secure decoder than the limit.
-/
namespace AmlogicV901d.Guarantees.SecureDecoders
open Lib.KeyedList Lib.SignedWord Lib.StateTriple Source.ResourceMgr Guarantees.MediaResources List

/-- The secure nodes in the session list of the decoders. -/
def secureNodes (m : Resman) : Nat :=
  match resmanFindResourceById resmanIdCodecMm m.resources with
  | none => 0
  | some resource => (resource.sessions.filter (·.s.secure)).length

/-! ## The score of a secure decoder -/

/-- A secure decoder counts as one for uhd, or takes the whole score. -/
def Fits (type : ResmanType) (s : NodeData) : Prop :=
  match type with
  | .codecMm total uhd _ _ => s.secure = true → s.score = uhd ∨ s.score = total
  | _ => True

/-- What a section grants. -/
def FitsSection (type : ResmanType) : Section → Prop
  | .done (some (_, s)) => Fits type s
  | _ => True

theorem codecMmScore_secure (total uhd fhd : UInt32) (arg : Option (List Char)) (h : (codecMmScore total uhd fhd arg).2 = true) :
    (codecMmScore total uhd fhd arg).1 = uhd ∨ (codecMmScore total uhd fhd arg).1 = total := by
  rw [codecMmScore] at h ⊢
  generalize (arg.map options).getD [] = opts at h ⊢
  revert h
  refine List.foldlRecOn (motive := fun r : UInt32 × Bool => r.2 = true → r.1 = uhd ∨ r.1 = total) opts _
    (fun h => absurd h Bool.false_ne_true) ?_
  intro r hr opt _
  dsimp only
  split
  · exact fun _ => .inl rfl
  split
  · exact fun _ => .inr rfl
  · split
    · exact fun _ => .inl rfl
    · exact hr

section Hooks
variable {m : Resman} {sess : Nat} {res : ResmanResource} {acquire : Acquire}

theorem fits_of_ne {type : ResmanType} (h : ∀ total uhd fhd limit, type ≠ .codecMm total uhd fhd limit) (outcome : Section) :
    FitsSection type outcome := by
  cases outcome with
  | wait acquire => trivial
  | done granted =>
    cases granted with
    | none => trivial
    | some grant =>
      cases type with
      | codecMm total uhd fhd limit => exact absurd rfl (h total uhd fhd limit)
      | counter avail | toggle => trivial
      | tvp => trivial

theorem codecMmTry_fits {total uhd fhd limit : UInt32} :
    FitsSection (.codecMm total uhd fhd limit) (.done (codecMmTry total (codecMmScore total uhd fhd acquire.arg).1
      (codecMmScore total uhd fhd acquire.arg).2 res)) := by
  rw [codecMmTry]
  split
  · exact codecMmScore_secure total uhd fhd acquire.arg
  · trivial

theorem acquireHook_fits (enabled : List Bool) : Ensures (acquireHook m sess res acquire enabled) (FitsSection res.type) := by
  cases htype : res.type with
  | codecMm total uhd fhd limit =>
    rw [acquireHook, htype]
    refine .ite (fun _ => .bind fun timeout => ?_) fun _ => .pure codecMmTry_fits
    exact .ite (fun _ => .pure trivial) fun _ => .pure codecMmTry_fits
  | _ => exact fun _ _ _ _ => fits_of_ne (fun _ _ _ _ => ResmanType.noConfusion) _

theorem resumeHook_fits (enabled : List Bool) : Ensures (resumeHook m sess res acquire enabled) (FitsSection res.type) := by
  cases htype : res.type with
  | codecMm total uhd fhd limit =>
    rw [resumeHook, htype]
    exact .pure codecMmTry_fits
  | _ => exact fun _ _ _ _ => fits_of_ne (fun _ _ _ _ => ResmanType.noConfusion) _

end Hooks

/-! ## Steps -/

/-- Resources keep their names and types, and get no node that does not fit. -/
def Grown (resources resources' : List ResmanResource) : Prop :=
  ∀ resource' ∈ resources', ∃ resource ∈ resources, resource'.id = resource.id ∧ resource'.type = resource.type ∧
    ∀ node ∈ resource'.sessions, node ∈ resource.sessions ∨ Fits resource.type node.s

theorem grown_refl (resources : List ResmanResource) : Grown resources resources :=
  fun res hin => ⟨res, hin, rfl, rfl, fun _ hnode => .inl hnode⟩

theorem grown_grant {m : Resman} {sess rid : Nat} {value : Int32} {s : NodeData} {res : ResmanResource}
    (hids : (m.resources.map ResmanResource.id).Nodup) (hresource : lookup ResmanResource.id rid m.resources = some res)
    (hfits : Fits res.type s) : Grown m.resources (m.grant sess rid value s).resources := by
  intro resource' hin
  obtain ⟨hold, _⟩ | ⟨c, hc, hid, rfl⟩ := mem_update hin
  · exact grown_refl _ resource' hold
  have hsame := eq_of_lookup hids hresource hc hid
  refine ⟨c, hc, rfl, rfl, fun node hnode => ?_⟩
  rcases mem_append.mp hnode with hnode | hnode
  · exact .inl hnode
  · rw [mem_singleton.mp hnode, hsame]
    exact .inr hfits

theorem acquireSection_grown {m m' : Resman} {id : Nat} {acquire : Acquire} {answers : List Bool}
    {hook : ResmanResource → PreemptM Section} (hids : (m.resources.map ResmanResource.id).Nodup)
    (hhook : ∀ res, Ensures (hook res) (FitsSection res.type))
    (h : m.acquireSection id acquire answers hook = some m') : Grown m.resources m'.resources := by
  rw [Resman.acquireSection] at h
  split at h
  next => cases h
  next res hresource =>
    split at h
    next => cases h
    next outcome status left hrun =>
      have hfits := hhook res _ _ _ hrun
      cases h
      cases outcome with
      | wait waiting => exact grown_refl _
      | done granted =>
        cases granted with
        | none => exact grown_refl _
        | some grant => exact @grown_grant { m with status } id acquire.resource grant.1 grant.2 res hids hresource hfits

theorem step_grown {act : Act} {m m' : Resman} (hids : (m.resources.map ResmanResource.id).Nodup) (h : step act m = some m') :
    Grown m.resources m'.resources := by
  cases act with
  | enter id answers enabled =>
    simp only [step] at h
    split at h
    next => exact acquireSection_grown hids (fun _ => acquireHook_fits enabled) h
    next => cases h
  | resume id answers enabled =>
    simp only [step] at h
    split at h
    next => exact acquireSection_grown hids (fun _ => resumeHook_fits enabled) h
    next => cases h
  | releaseOne id =>
    simp only [step] at h
    split at h
    next sess nodes node left close hsess =>
      cases h
      intro resource' hin
      obtain ⟨hold, _⟩ | ⟨c, hc, _, rfl⟩ := mem_update hin
      · exact grown_refl _ resource' hold
      · exact ⟨c, hc, rfl, rfl, fun _ hnode => .inl (mem_of_mem_erase hnode)⟩
    next => cases h
  | openSession =>
    cases h
    exact grown_refl _
  | acquire | release | releaseAll | close | finish =>
    -- no list of nodes changes, in whichever branch
    simp only [step] at h
    repeat' split at h
    all_goals cases h
    all_goals exact grown_refl _

/-! ## Runs -/

/-- Every resource but a toggle, with scores below 2^30, is accounted for. -/
def Counted (resource : ResmanResource) : Prop := resource.type ≠ .toggle → Bounded resource.type → Accounted resource

/-- The state of the books, the nodes that fit, and the configuration of the decoders. -/
structure Inv (codec : ResmanType) (m : Resman) : Prop where
  ledger : Ledger Counted m
  fits : ∀ resource ∈ m.resources, ∀ node ∈ resource.sessions, Fits resource.type node.s
  codec : ∀ resource ∈ m.resources, resource.id = resmanIdCodecMm → resource.type = codec

variable {codec : ResmanType}

theorem step_inv {act : Act} {m m' : Resman} (h : Inv codec m) (hstep : step act m = some m') : Inv codec m' := by
  have hgrown := step_grown h.ledger.resourceIds hstep
  refine ⟨effect_ledger h.ledger (fun res hin value node hgrant _ htype hbounded => ?_)
    (fun res hin node hnode htype hbounded => ?_) (step_effect hstep), fun resource' hin node hnode => ?_, fun resource' hin hid => ?_⟩
  · exact grant_accounted hbounded (h.ledger.kept res hin htype hbounded) hgrant fun htoggle => absurd htoggle htype
  · exact release_accounted hbounded (h.ledger.kept res hin htype hbounded) hnode
  · obtain ⟨res, hold, _, htype, hnodes⟩ := hgrown resource' hin
    rw [htype]
    rcases hnodes node hnode with hnode | hfits
    · exact h.fits res hold node hnode
    · exact hfits
  · obtain ⟨res, hold, hid', htype, _⟩ := hgrown resource' hin
    exact htype.trans (h.codec res hold (hid'.symm.trans hid))

theorem run_inv {acts : List Act} {m : Resman} (h : Inv codec m) : Inv codec (run acts m) := by
  induction acts generalizing m with
  | nil => exact h
  | cons act acts ih =>
    have hnext : Inv codec ((step act m).getD m) := by
      cases hstep : step act m with
      | none => exact h
      | some m' => exact step_inv h hstep
    exact ih hnext

variable {configs : List (Nat × ResmanType)}

theorem init_inv {preemptTimeoutMs : UInt32}
    (hcodec : resmanFindResourceById resmanIdCodecMm (resmanInit configs preemptTimeoutMs).resources = some ⟨resmanIdCodecMm, codec, 0, []⟩) :
    Inv codec (resmanInit configs preemptTimeoutMs) := by
  have hnew : ((resmanParserConfig configs).map ResmanResource.id).Nodup ∧
      ∀ res ∈ resmanParserConfig configs, res.sessions = [] ∧ res.value = 0 := by
    refine @parserConfig_induct configs (fun resources => (resources.map ResmanResource.id).Nodup ∧
      ∀ res ∈ resources, res.sessions = [] ∧ res.value = 0)
      ⟨nodup_nil, nofun⟩ fun resources config _ h hnew => ⟨keys_append_nodup h.1 hnew, ?_⟩
    exact forall_append_single h.2 ⟨rfl, rfl⟩
  refine ⟨init_ledger hnew.1 (fun res hin => (hnew.2 res hin).1) (fun res hin _ _ => empty_accounted (hnew.2 res hin)) _,
    fun res hin node hnode => ?_, fun res hin hid => ?_⟩
  · rw [(hnew.2 res hin).1] at hnode
    exact nomatch hnode
  · exact congrArg ResmanResource.type (eq_of_lookup hnew.1 hcodec hin hid)

/-! ## The limit -/

theorem secure_le_sum {nodes : List ResmanNode} {least : Nat} (h : ∀ node ∈ nodes, node.s.secure = true → least ≤ node.s.score.toNat) :
    (((nodes.filter (·.s.secure)).length * least : Nat) : Int) ≤ sumBy (fun node => (node.s.score.toNat : Int)) nodes := by
  induction nodes with
  | nil => exact Int.le_of_eq (by rw [filter_nil, length_nil, Nat.zero_mul]; rfl)
  | cons node nodes ih =>
    have hrest := ih fun b hb => h b (.tail _ hb)
    rw [sumBy_cons]
    cases hsecure : node.s.secure with
    | true =>
      have hleast := h node mem_cons_self hsecure
      simp only [filter_cons, hsecure, if_true, length_cons, Nat.succ_mul]
      omega
    | false =>
      simp only [filter_cons, hsecure, Bool.false_eq_true, if_false]
      omega

section Limit
variable {total uhd fhd limit : UInt32} {m : Resman}

theorem secureNodes_le (htotal : total.toNat < 2 ^ 30) (huhd : uhd.toNat < 2 ^ 30) (hfhd : fhd.toNat < 2 ^ 30)
    (h : Inv (.codecMm total uhd fhd limit) m) (hroom : total.toNat < (limit.toNat + 1) * min uhd.toNat total.toNat) :
    secureNodes m ≤ limit.toNat := by
  rw [secureNodes]
  split
  next => exact Nat.zero_le _
  next res hresource =>
    have hin := mem_of_lookup hresource
    have htype := h.codec res hin (key_of_lookup hresource)
    have haccounted := h.ledger.kept res hin (by rw [htype]; exact ResmanType.noConfusion)
      (by rw [htype]; exact ⟨htotal, huhd, hfhd⟩)
    rw [Accounted, htype] at haccounted
    obtain ⟨hvalue, hle⟩ := haccounted
    have hsum : (((res.sessions.filter (·.s.secure)).length * min uhd.toNat total.toNat : Nat) : Int) ≤
        sumBy (fun node => (node.s.score.toNat : Int)) res.sessions := by
      refine secure_le_sum fun node hnode hsecure => ?_
      have hfits : Fits (.codecMm total uhd fhd limit) node.s := htype ▸ h.fits res hin node hnode
      rcases hfits hsecure with hscore | hscore
      · rw [hscore]
        exact Nat.min_le_left _ _
      · rw [hscore]
        exact Nat.min_le_right _ _
    have hlt : (res.sessions.filter (·.s.secure)).length * min uhd.toNat total.toNat <
        (limit.toNat + 1) * min uhd.toNat total.toNat := by omega
    exact Nat.lt_succ_iff.mp (Nat.lt_of_mul_lt_mul_right hlt)

/-! ## One more than the limit -/

/-- The cheapest way to ask for a secure decoder. -/
def cheapest (total uhd : UInt32) : Acquire :=
  ⟨resmanIdCodecMm, false, 0, some (if uhd ≤ total then "secure".toList else "secure,single".toList)⟩

def cheapestScore (total uhd : UInt32) : UInt32 := if uhd ≤ total then uhd else total

theorem cheapestScore_toNat : (cheapestScore total uhd).toNat = min uhd.toNat total.toNat := by
  rw [cheapestScore]
  split
  next hle => exact (Nat.min_eq_left (UInt32.le_iff_toNat_le.mp hle)).symm
  next hgt => exact (Nat.min_eq_right (Nat.le_of_lt (UInt32.lt_iff_toNat_lt.mp (UInt32.not_le.mp hgt)))).symm

theorem cheapest_score : codecMmScore total uhd fhd (cheapest total uhd).arg = (cheapestScore total uhd, true) := by
  rw [cheapest, cheapestScore]
  split <;> rfl

/-- A new session asks for a secure decoder. -/
def askSecure (total uhd : UInt32) (sess : Nat) : List Act :=
  [.openSession, .acquire sess (cheapest total uhd), .enter sess [] []]

theorem acquire_grants {res : ResmanResource} (htype : res.type = .codecMm total uhd fhd limit)
    (hroom : res.value.toUInt32 + cheapestScore total uhd ≤ total) (sess : Nat) (s : (Nat → ResmanStatus) × List Bool) :
    acquireHook m sess res (cheapest total uhd) [] s = some (.done (some ((res.value.toUInt32 + cheapestScore total uhd).toInt32,
      ⟨none, cheapestScore total uhd, true⟩)), s) := by
  rw [acquireHook, htype]
  dsimp only
  rw [resmanCodecMmAcquire, cheapest_score]
  dsimp only
  rw [if_neg (UInt32.not_lt.mpr hroom), codecMmTry, if_pos hroom]
  rfl

theorem askSecure_run {res : ResmanResource} (h : Inv (.codecMm total uhd fhd limit) m)
    (hresource : lookup ResmanResource.id resmanIdCodecMm m.resources = some res)
    (hroom : res.value.toUInt32 + cheapestScore total uhd ≤ total) :
    lookup ResmanResource.id resmanIdCodecMm (run (askSecure total uhd m.nextSession) m).resources = some { res with
      value := (res.value.toUInt32 + cheapestScore total uhd).toInt32
      sessions := res.sessions ++ [⟨m.nextSession, resmanIdCodecMm, ⟨none, cheapestScore total uhd, true⟩⟩] } ∧
    (run (askSecure total uhd m.nextSession) m).nextSession = m.nextSession + 1 := by
  have hkey : res.id = resmanIdCodecMm := key_of_lookup hresource
  have htype : res.type = .codecMm total uhd fhd limit := h.codec res (mem_of_lookup hresource) hkey
  have hids := h.ledger.resourceIds
  have hnew : ∀ sess ∈ m.sessions, sess.id ≠ m.nextSession := fun sess hin => Nat.ne_of_lt (h.ledger.fresh sess hin)
  obtain ⟨sessions, resources, status, n, ms⟩ := m
  let grant (x : ResmanResource) : ResmanResource := { x with
    value := (res.value.toUInt32 + cheapestScore total uhd).toInt32
    sessions := x.sessions ++ [⟨n, resmanIdCodecMm, ⟨none, cheapestScore total uhd, true⟩⟩] }
  have hfind : resmanFindResourceById resmanIdCodecMm resources = some res := hresource
  have hopen : step .openSession ⟨sessions, resources, status, n, ms⟩ =
      some ⟨sessions ++ [⟨n, [], .idle⟩], resources, setStatus n .inited status, n + 1, ms⟩ := rfl
  have hacquire : step (.acquire n (cheapest total uhd)) ⟨sessions ++ [⟨n, [], .idle⟩], resources, setStatus n .inited status, n + 1, ms⟩ =
      some ⟨sessions ++ [⟨n, [], .entering (cheapest total uhd)⟩], resources, setStatus n .inited status, n + 1, ms⟩ := by
    simp only [step, lookup_opened hnew]
    show (if (resmanFindResourceById resmanIdCodecMm resources).isNone then _ else _ : Option Resman) = _
    rw [hfind]
    show some (Resman.setDoing _ n (.entering (cheapest total uhd))) = _
    rw [Resman.setDoing, update_opened hnew rfl]
  have henter : ∃ sessions' status', step (.enter n [] []) ⟨sessions ++ [⟨n, [], .entering (cheapest total uhd)⟩], resources,
      setStatus n .inited status, n + 1, ms⟩ = some ⟨sessions', update ResmanResource.id resmanIdCodecMm grant resources, status', n + 1, ms⟩ := by
    simp only [step, lookup_opened hnew]
    rw [Resman.acquireSection]
    have hfind' : resmanFindResourceById (cheapest total uhd).resource resources = some res := hresource
    rw [hfind']
    dsimp only
    rw [acquire_grants htype hroom]
    exact ⟨_, _, rfl⟩
  obtain ⟨sessions', status', henter⟩ := henter
  have hrun : run (askSecure total uhd n) ⟨sessions, resources, status, n, ms⟩ =
      ⟨sessions', update ResmanResource.id resmanIdCodecMm grant resources, status', n + 1, ms⟩ := by
    simp only [run, askSecure, foldl_cons, foldl_nil, hopen, hacquire, henter, Option.getD_some]
  rw [hrun]
  exact ⟨lookup_update_self hkey hids hresource, rfl⟩

/-- Sessions that ask for a secure decoder, one after the other. -/
def askAll (total uhd : UInt32) (n : Nat) : List Act := (List.range n).flatMap (askSecure total uhd)

theorem askAll_run {n : Nat} (htotal : total.toNat < 2 ^ 30) (h : Inv (.codecMm total uhd fhd limit) m) (hnew : m.nextSession = 0)
    (hcodec : lookup ResmanResource.id resmanIdCodecMm m.resources = some ⟨resmanIdCodecMm, .codecMm total uhd fhd limit, 0, []⟩)
    (hroom : n * min uhd.toNat total.toNat ≤ total.toNat) :
    (run (askAll total uhd n) m).nextSession = n ∧
    ∃ res, lookup ResmanResource.id resmanIdCodecMm (run (askAll total uhd n) m).resources = some res ∧
      res.value.toUInt32.toNat = n * min uhd.toNat total.toNat ∧ res.sessions.length = n ∧
      ∀ node ∈ res.sessions, node.s.secure = true := by
  induction n with
  | zero => exact ⟨hnew, _, hcodec, (Nat.zero_mul _).symm, rfl, nofun⟩
  | succ n ih =>
    rw [Nat.succ_mul] at hroom
    obtain ⟨hnext, res, hresource, hvalue, hlength, hsecure⟩ := ih (by omega)
    have hsum : (res.value.toUInt32 + cheapestScore total uhd).toNat = n * min uhd.toNat total.toNat + min uhd.toNat total.toNat := by
      rw [UInt32.toNat_add, cheapestScore_toNat, hvalue]
      exact Nat.mod_eq_of_lt (by omega)
    have hfits : res.value.toUInt32 + cheapestScore total uhd ≤ total := UInt32.le_iff_toNat_le.mpr (by omega)
    have hacts : run (askAll total uhd (n + 1)) m = run (askSecure total uhd n) (run (askAll total uhd n) m) := by
      rw [run, askAll, range_succ, flatMap_append, foldl_append, flatMap_singleton]
      rfl
    have hstep := askSecure_run (run_inv h) hresource hfits
    rw [hnext] at hstep
    rw [hacts]
    refine ⟨hstep.2, _, hstep.1, ?_, ?_, fun node hnode => ?_⟩
    · rw [UInt32.toUInt32_toInt32, hsum, Nat.succ_mul]
    · rw [length_append, hlength]
      rfl
    · rcases mem_append.mp hnode with hnode | hnode
      · exact hsecure node hnode
      · rw [mem_singleton.mp hnode]

/-- The limit of secure decoders holds in every state of every interleaving exactly if the score
does not suffice for one more of them. -/
theorem secure_limit_iff {configs : List (Nat × ResmanType)} {preemptTimeoutMs : UInt32}
    (hcodec : resmanFindResourceById resmanIdCodecMm (resmanInit configs preemptTimeoutMs).resources =
      some ⟨resmanIdCodecMm, .codecMm total uhd fhd limit, 0, []⟩)
    (htotal : total.toNat < 2 ^ 30) (huhd : uhd.toNat < 2 ^ 30) (hfhd : fhd.toNat < 2 ^ 30) :
    (∀ acts, secureNodes (run acts (resmanInit configs preemptTimeoutMs)) ≤ limit.toNat) ↔
      total.toNat < (limit.toNat + 1) * min uhd.toNat total.toNat := by
  refine ⟨fun h => ?_, fun hroom acts => secureNodes_le htotal huhd hfhd (run_inv (init_inv hcodec)) hroom⟩
  refine Nat.lt_of_not_le fun hroom => ?_
  obtain ⟨_, resource, hresource, _, hlength, hsecure⟩ := askAll_run htotal (init_inv hcodec) rfl hcodec hroom
  have hcount := h (askAll total uhd (limit.toNat + 1))
  rw [secureNodes, show resmanFindResourceById resmanIdCodecMm _ = _ from hresource] at hcount
  dsimp only at hcount
  rw [filter_eq_self.mpr hsecure, hlength] at hcount
  exact absurd hcount (Nat.not_succ_le_self _)

end Limit

/-- The built-in configuration has no room for two secure decoders. -/
theorem default_secure_limit : (∀ acts, secureNodes (run acts (resmanInit defaultConfigs 2500)) ≤ 1) ↔ 6 < (1 + 1) * min 4 6 :=
  @secure_limit_iff 6 4 2 1 defaultConfigs 2500 (by decide +kernel) (by decide) (by decide) (by decide)

/-- A total of 12 has room for two secure decoders, whatever the limit. -/
theorem two_secure_decoders : secureNodes (run [.openSession, .openSession, .acquire 0 ⟨5, false, 0, some "secure".toList⟩, .enter 0 [] [],
    .acquire 1 ⟨5, false, 0, some "secure".toList⟩, .enter 1 [] []] (resmanInit [(5, .codecMm 12 4 2 1)] 2500)) = 2 := by
  decide +kernel

end AmlogicV901d.Guarantees.SecureDecoders
