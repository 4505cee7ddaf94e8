import AmlogicV901d.Guarantees.CryptoEngineView

/-!
# Requests on the shared crypto engine

Each driver goes on with its own queue when one of its requests ends. Nobody goes on with the
queues of the other two, and the hash driver does not go on where a request ends without a
transfer: such requests wait until another one comes to their driver.
-/
namespace AmlogicV901d.Guarantees.CryptoRequests
open Source.Crypto.Engine List Function
open Guarantees.CryptoEngineView

variable {s : Sys} {v v' : View} {d : Driver} {r : Req} {left : List Int}

/-! ## What is asked -/

/-- The engine is idle, and no interrupt or tasklet is to come. -/
structure Quiet (s : Sys) : Prop where
  dmaBusy : s.dmaBusy = false
  running : s.running = false
  status : s.status = false
  doneTask : ∀ d, (s.dev d).doneTask = false
  queueTask : ∀ d, (s.dev d).queueTask = false

def Owns (s : Sys) (d : Driver) : Prop := (s.dev d).busy = true ∨ s.inUse d = true

/-- One request at most is on the engine, none is completed more often than it was accepted, and
where nothing is to come none waits. -/
structure Served (s : Sys) : Prop where
  owner : ∀ d d', Owns s d → Owns s d' → d = d'
  once : ∀ i, (completions s.calls).count i ≤ s.accepted.count i
  waiting : Quiet s → ∀ d, (s.dev d).queue.list = []

def RunServed (s : Sys) : List Event → Prop
  | [] => Served s
  | ev :: evs => Served s ∧ RunServed (step s ev) evs

/-- The driver that goes on with its queue leaves none behind: its next request starts a transfer, or is
ended by a cipher, whose queue task comes again, or is the last one that waits. -/
def Continues (waiting : Driver → List Req) (d : Driver) : Prop :=
  match waiting d with
  | [] => ∀ d', waiting d' = []
  | r :: rest => r.work.start = eInProgress ∨ d ≠ .sha ∨ rest = [] ∧ ∀ d', d' ≠ d → waiting d' = []

def waitingOf (s : Sys) (d : Driver) : List Req := (s.dev d).queue.list

/-- Where the last tasklet that is scheduled frees the engine or finds it free, its driver goes on. -/
def Plain (s : Sys) : Event → Prop
  | .doneTask d =>
    (s.dev d).doneTask = true → (s.dev d).left.headD 0 ≠ eInProgress → (∀ d', (s.dev d').queueTask = false) →
      Continues (waitingOf s) d
  | .queueTask d =>
    (s.dev d).queueTask = true → s.dmaBusy = false → (∀ d', d' ≠ d → (s.dev d').queueTask = false) →
      Continues (waitingOf s) d
  | _ => True

def RunPlain (s : Sys) : List Event → Prop
  | [] => True
  | ev :: evs => Plain s ev ∧ RunPlain (step s ev) evs

/-! ## Requests are kept -/

def requestOf : Phase → List Req
  | .transfer _ r _ _ | .done _ r _ => [r]
  | _ => []

def idCount (i : Nat) (rs : List Req) : Nat := (rs.map Req.id).count i

def queued (i : Nat) (waiting : Driver → List Req) : Nat :=
  idCount i (waiting .tdes) + idCount i (waiting .aes) + idCount i (waiting .sha)

/-- An accepted request waits, is on the engine or was completed. -/
def Balanced (v : View) : Prop :=
  ∀ i, v.accepted.count i = v.completed.count i + queued i v.waiting + idCount i (requestOf v.phase)

theorem queued_update (i : Nat) (waiting : Driver → List Req) (d : Driver) (rs : List Req) :
    queued i (update waiting d rs) + idCount i (waiting d) = queued i waiting + idCount i rs := by
  cases d <;> simp [queued, update] <;> omega

theorem idCount_cons (i : Nat) (r : Req) (rs : List Req) : idCount i (r :: rs) = idCount i [r] + idCount i rs := by
  simp [idCount, count_cons, Nat.add_comm]

theorem count_append_id (i : Nat) (ids : List Nat) (r : Req) :
    (ids ++ [r.id]).count i = ids.count i + idCount i [r] := by
  simp [idCount]

theorem balanced_restart (h : Balanced v) : Balanced (v.restart d) := by
  by_cases hidle : v.phase = .idle
  · cases hwaiting : v.waiting d with
    | nil => rwa [restart_of_empty hwaiting]
    | cons r rest =>
      rw [restart_of_idle hidle hwaiting]
      intro i
      have hi := h i
      have hqueued := queued_update i v.waiting d rest
      rw [hwaiting, idCount_cons] at hqueued
      rw [hidle] at hi
      by_cases hstart : r.work.start = eInProgress
      · simp only [if_pos hstart, requestOf] at hi ⊢
        simp only [idCount, map_nil, count_nil] at hi hqueued ⊢
        omega
      · simp only [if_neg hstart, hidle, count_append_id] at hi ⊢
        omega
  · rwa [restart_of_busy hidle]

theorem balanced_enqueue (h : Balanced v) : Balanced (v.enqueue r) := by
  unfold View.enqueue
  cases haccepts : v.accepts r with
  | false => simpa using h
  | true =>
    intro i
    have hi := h i
    have hqueued := queued_update i v.waiting r.work.driver (v.waiting r.work.driver ++ [r])
    have happend :
        idCount i (v.waiting r.work.driver ++ [r]) = idCount i (v.waiting r.work.driver) + idCount i [r] := by
      simp [idCount]
    simp only [if_true, count_append_id]
    omega

theorem balanced_goOn (h : Balanced v) (hphase : v.phase = .done d r left) : Balanced (v.goOn d r left) := by
  unfold View.goOn
  split
  · intro i
    have hi := h i
    rw [hphase] at hi
    exact hi
  · apply balanced_restart
    intro i
    have hi := h i
    rw [hphase] at hi
    simp only [count_append_id]
    simp only [requestOf, idCount, map_nil, count_nil] at hi ⊢
    omega

theorem balanced_step {ev : Event} (h : Balanced v) (heffect : Effect v ev v') : Balanced v' := by
  cases heffect with
  | enqueue r => exact balanced_restart (balanced_enqueue h)
  | ends hphase | heard hphase =>
    intro i
    have hi := h i
    rw [hphase] at hi
    exact hi
  | goOn hphase => exact balanced_goOn h hphase
  | queue => exact balanced_restart h
  | nothing => exact h

/-! ## No request is on hold between two steps -/

def Settled (v : View) : Prop := ∀ d, v.phase ≠ .held d

theorem settled_restart (h : Settled v) : Settled (v.restart d) := by
  unfold View.restart
  split
  · split <;> simp_all [Settled]
  · exact h

theorem settled_step {ev : Event} (h : Settled v) (heffect : Effect v ev v') : Settled v' := by
  cases heffect with
  | enqueue r =>
    apply settled_restart
    unfold View.enqueue
    split <;> exact h
  | ends | heard => simp [Settled]
  | goOn =>
    unfold View.goOn
    split
    · simp [Settled]
    · apply settled_restart
      simp [Settled]
  | queue => exact settled_restart h
  | nothing => exact h

/-! ## Whether a request is left behind -/

/-- `Served` of a view -/
def NoneWaits (v : View) : Prop := v.phase = .idle → (∀ d, v.queueTask d = false) → ∀ d, v.waiting d = []

theorem noneWaits_of_busy (h : v.phase ≠ .idle) : NoneWaits v := fun hidle => absurd hidle h

theorem update_nil_iff (waiting : Driver → List Req) (d : Driver) (rest : List Req) :
    (∀ d', update waiting d rest d' = []) ↔ rest = [] ∧ ∀ d', d' ≠ d → waiting d' = [] := by
  rw [forall_update_iff waiting fun _ rs => rs = []]

theorem noneWaits_restart (hidle : v.phase = .idle) :
    NoneWaits (v.restart d) ↔ ((∀ d', v.queueTask d' = false) → Continues v.waiting d) := by
  unfold Continues
  cases hwaiting : v.waiting d with
  | nil =>
    rw [restart_of_empty hwaiting]
    exact ⟨fun h => h hidle, fun h _ => h⟩
  | cons r rest =>
    rw [restart_of_idle hidle hwaiting]
    by_cases hstart : r.work.start = eInProgress
    · simp [NoneWaits, hstart]
    by_cases hsha : d = .sha
    · simp [NoneWaits, hstart, hsha, hidle, update_nil_iff]
    have htask : ¬ ∀ d', update v.queueTask d true d' = false := by
      intro h
      simpa using h d
    simp [NoneWaits, hstart, hsha, htask]

/-- `Plain` of a view -/
def GoesOn (v : View) : Event → Prop
  | .doneTask d =>
    ∀ r left, v.phase = .done d r left → left.headD 0 ≠ eInProgress → (∀ d', v.queueTask d' = false) →
      Continues v.waiting d
  | .queueTask d =>
    v.queueTask d = true → v.phase = .idle → (∀ d', d' ≠ d → v.queueTask d' = false) → Continues v.waiting d
  | _ => True

theorem noneWaits_enqueue (h : NoneWaits v) : NoneWaits ((v.enqueue r).restart r.work.driver) := by
  have hphase : (v.enqueue r).phase = v.phase := by
    unfold View.enqueue
    split <;> rfl
  by_cases hidle : v.phase = .idle
  · rw [noneWaits_restart (hphase.trans hidle)]
    intro htask
    have hempty : ∀ d, v.waiting d = [] := by
      apply h hidle
      intro d
      have := htask d
      unfold View.enqueue at this
      split at this <;> exact this
    have haccepts : v.accepts r = true := by simp [View.accepts, hempty, queueLength]
    have hothers : ∀ d', d' ≠ r.work.driver → update v.waiting r.work.driver [r] d' = [] := by
      intro d' hne
      rw [update_of_ne hne, hempty]
    simp only [View.enqueue, haccepts, if_true, Continues, hempty, update_self, nil_append]
    exact .inr (.inr ⟨trivial, hothers⟩)
  · rw [restart_of_busy (by rwa [hphase])]
    exact noneWaits_of_busy (by rwa [hphase])

theorem noneWaits_goOn (hphase : v.phase = .done d r left) : NoneWaits (v.goOn d r left) ↔ GoesOn v (.doneTask d) := by
  have hleft : ∀ r' left', v.phase = .done d r' left' → left' = left :=
    fun _ _ h => (Phase.done.inj (h.symm.trans hphase)).2.2
  unfold View.goOn
  by_cases herr : left.headD 0 = eInProgress
  · rw [if_pos herr]
    apply iff_of_true (noneWaits_of_busy (by simp))
    intro r' left' h herr'
    rw [hleft r' left' h] at herr'
    exact absurd herr herr'
  · rw [if_neg herr, noneWaits_restart rfl]
    exact ⟨fun h _ _ _ _ => h, fun h => h r left hphase herr⟩

theorem noneWaits_queueTask (htask : v.queueTask d = true) :
    NoneWaits (({ v with queueTask := update v.queueTask d false } : View).restart d) ↔
      GoesOn v (.queueTask d) := by
  by_cases hidle : v.phase = .idle
  · rw [noneWaits_restart (by exact hidle)]
    simp only [GoesOn, htask, hidle, forall_const]
    rw [forall_update_iff v.queueTask fun _ b => b = false]
    simp
  · rw [restart_of_busy (by exact hidle)]
    exact iff_of_true (noneWaits_of_busy hidle) fun _ h => absurd h hidle

theorem noneWaits_step {ev : Event} (h : NoneWaits v) (heffect : Effect v ev v') : NoneWaits v' ↔ GoesOn v ev := by
  cases heffect with
  | enqueue r => exact iff_of_true (noneWaits_enqueue h) trivial
  | ends | heard => exact iff_of_true (noneWaits_of_busy (by simp)) trivial
  | goOn hphase => exact noneWaits_goOn hphase
  | queue htask => exact noneWaits_queueTask htask
  | nothing henqueue hdone hqueue =>
    apply iff_of_true h
    cases ev with
    | doneTask d => exact fun r left hphase => absurd hphase (hdone d r left rfl)
    | queueTask d => exact fun htask => nomatch htask.symm.trans (hqueue d rfl)
    | _ => exact trivial

/-! ## Runs -/

/-- What every state of a run shows. -/
structure Inv (s : Sys) (v : View) : Prop where
  viewed : Shows s v
  balanced : Balanced v
  settled : Settled v

theorem inv_initial : Inv .initial .initial where
  viewed := shows_initial
  balanced := fun _ => rfl
  settled := fun _ => by simp [View.initial]

section
variable (h : Inv s v)
include h

theorem inv_step (ev : Event) : Inv (step s ev) (v.step ev) where
  viewed := shows_step h.viewed ev
  balanced := balanced_step h.balanced (step_effect v ev)
  settled := settled_step h.settled (step_effect v ev)

theorem owner_of_owns (howns : Owns s d) :
    ∃ r left, (∃ ended, v.phase = .transfer d r left ended) ∨ v.phase = .done d r left := by
  have hd := h.viewed.look d
  cases hphase : v.phase with
  | idle =>
    simp only [lookOf, View.look, hphase, Look.mk.injEq] at hd
    have hl := h.viewed.lines_eq hphase
    simp [Owns, hd, hl, noneInUse] at howns
  | held d' => exact absurd hphase (h.settled d')
  | transfer d' r left ended =>
    simp only [lookOf, View.look, hphase, Look.mk.injEq] at hd
    have hl := h.viewed.lines_eq hphase
    have he : d = d' := by
      by_contra hne
      simp [Owns, hd, hl, hne, noneInUse] at howns
    subst he
    exact ⟨r, left, .inl ⟨ended, rfl⟩⟩
  | done d' r left =>
    simp only [lookOf, View.look, hphase, Look.mk.injEq] at hd
    have hl := h.viewed.lines_eq hphase
    have he : d = d' := by
      by_contra hne
      simp [Owns, hd, hl, hne, noneInUse] at howns
    subst he
    exact ⟨r, left, .inr rfl⟩

theorem quiet_iff : Quiet s ↔ v.phase = .idle ∧ ∀ d, v.queueTask d = false := by
  constructor
  · intro hquiet
    refine ⟨h.viewed.dmaBusy_iff.mp hquiet.dmaBusy, fun d => ?_⟩
    rw [← h.viewed.queueTask]
    exact hquiet.queueTask d
  · rintro ⟨hidle, htask⟩
    have hl := h.viewed.lines_eq hidle
    constructor
    · exact h.viewed.dmaBusy_iff.mpr hidle
    · exact hl.2.2.1
    · exact hl.2.2.2
    · intro d
      have hd := h.viewed.look d
      simp only [lookOf, View.look, hidle, Look.mk.injEq] at hd
      exact hd.2.2.2.1
    · intro d
      rw [h.viewed.queueTask]
      exact htask d

theorem served_iff : Served s ↔ NoneWaits v := by
  constructor
  · intro hserved hidle htask d
    rw [← h.viewed.list]
    exact hserved.waiting ((quiet_iff h).mpr ⟨hidle, htask⟩) d
  · intro hnone
    constructor
    · intro d d' hd hd'
      obtain ⟨r, left, hphase⟩ := owner_of_owns h hd
      obtain ⟨r', left', hphase'⟩ := owner_of_owns h hd'
      rcases hphase with ⟨ended, hphase⟩ | hphase <;> rcases hphase' with ⟨ended', hphase'⟩ | hphase' <;>
        simp_all
    · intro i
      rw [h.viewed.completed, h.viewed.accepted, h.balanced i]
      omega
    · intro hquiet d
      obtain ⟨hidle, htask⟩ := (quiet_iff h).mp hquiet
      rw [h.viewed.list]
      exact hnone hidle htask d

theorem doneTask_iff : (s.dev d).doneTask = true ↔ ∃ r left, v.phase = .done d r left ∧ (s.dev d).left = left := by
  have hd := h.viewed.look d
  have hrecords := h.viewed.records
  cases hphase : v.phase with
  | done d' r left =>
    simp only [lookOf, View.look, hphase, Look.mk.injEq] at hd
    simp only [Phase.Records, hphase] at hrecords
    by_cases he : d = d'
    · subst he
      simp [hd, hrecords]
    · simp [hd, he, Ne.symm he]
  | _ =>
    simp only [lookOf, View.look, hphase, Look.mk.injEq] at hd
    simp [hd]

theorem plain_iff (ev : Event) : Plain s ev ↔ GoesOn v ev := by
  have hwaiting : waitingOf s = v.waiting := funext h.viewed.list
  cases ev with
  | doneTask d =>
    simp only [Plain, GoesOn, doneTask_iff h, hwaiting, h.viewed.queueTask]
    constructor
    · intro hplain r left hphase herr
      have hrecords := h.viewed.records
      simp only [Phase.Records, hphase] at hrecords
      exact hplain ⟨r, left, hphase, hrecords.2⟩ (by rwa [hrecords.2])
    · rintro hgoes ⟨r, left, hphase, hleft⟩ herr
      exact hgoes r left hphase (by rwa [← hleft])
  | queueTask d => simp only [Plain, GoesOn, h.viewed.dmaBusy_iff, hwaiting, h.viewed.queueTask]
  | _ => exact .rfl

theorem run_served_iff (hserved : Served s) (evs : List Event) : RunServed s evs ↔ RunPlain s evs := by
  induction evs generalizing s v with
  | nil => exact iff_of_true hserved trivial
  | cons ev evs ih =>
    have hnext := inv_step h ev
    have hstep : Served (step s ev) ↔ Plain s ev := by
      rw [served_iff hnext, noneWaits_step ((served_iff h).mp hserved) (step_effect v ev), plain_iff h]
    constructor
    · rintro ⟨-, hrun⟩
      have hserved' : Served (step s ev) := by
        cases evs with
        | nil => exact hrun
        | cons => exact hrun.1
      exact ⟨hstep.mp hserved', (ih hnext hserved').mp hrun⟩
    · rintro ⟨hplain, hrun⟩
      have hserved' := hstep.mpr hplain
      exact ⟨hserved, (ih hnext hserved').mpr hrun⟩

end

/-- In every state of a run at most one request is on the engine, each is completed at most once and
none is left behind, exactly if whenever the last tasklet ends its driver goes on with all that waits. -/
theorem requests_served_iff (evs : List Event) : RunServed .initial evs ↔ RunPlain .initial evs :=
  run_served_iff inv_initial ((served_iff inv_initial).mpr fun _ _ _ => rfl) evs

/-- One block of AES, 64 bytes for a hash, and bytes for a hash that are only kept for later. -/
def oneBlock (i : Nat) : Req := ⟨i, false, .aes 0 16 false, [0]⟩
def oneHash (i : Nat) : Req := ⟨i, false, .sha none .update false eInProgress 0, [0]⟩
def keptBytes (i : Nat) : Req := ⟨i, false, .sha none .update false 0 0, []⟩

theorem quiet_of_flags {s : Sys} (hengine : s.dmaBusy = false ∧ s.running = false ∧ s.status = false)
    (htasks : ∀ d ∈ [Driver.tdes, .aes, .sha], (s.dev d).doneTask = false ∧ (s.dev d).queueTask = false) : Quiet s := by
  have hmem : ∀ d : Driver, d ∈ [Driver.tdes, .aes, .sha] := by
    intro d
    cases d <;> decide
  exact ⟨hengine.1, hengine.2.1, hengine.2.2, fun d => (htasks d (hmem d)).1, fun d => (htasks d (hmem d)).2⟩

/-- A hash comes while AES has the engine, and waits after that is done; so does a hash behind one that
ends without a transfer. -/
theorem requests_stranded :
    let shared := run [.enqueue (oneBlock 0), .enqueue (oneHash 1), .transferEnds, .irq .aes, .doneTask .aes]
    let alone := run [.enqueue (oneHash 0), .enqueue (keptBytes 1), .enqueue (oneHash 2), .transferEnds, .irq .sha,
      .doneTask .sha]
    (Quiet shared ∧ (shared.dev .sha).queue.list = [oneHash 1]) ∧
      Quiet alone ∧ (alone.dev .sha).queue.list = [oneHash 2] :=
  ⟨⟨quiet_of_flags (by decide) (by decide), by decide⟩, quiet_of_flags (by decide) (by decide), by decide⟩

end AmlogicV901d.Guarantees.CryptoRequests
