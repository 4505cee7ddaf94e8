import AmlogicV901d.Source.Crypto.Engine

/-!
# The crypto engine as an abstract machine

What a state of the three drivers and the engine shows is a view: the engine is free or has
one request, three queues wait for it, and the ciphers may have their queue tasks scheduled.
Every step of the drivers is a step of the abstract machine.
-/
namespace AmlogicV901d.Guarantees.CryptoEngineView
open Source.Crypto.Engine Function

/-! ## The abstract machine -/

/-- What the engine has. A request that is held has no transfer on it. -/
inductive Phase where
  | idle
  | held (d : Driver)
  | transfer (d : Driver) (r : Req) (left : List Int) (ended : Bool)
  | done (d : Driver) (r : Req) (left : List Int)

structure View where
  phase : Phase
  waiting : Driver → List Req
  queueTask : Driver → Bool
  accepted : List Nat
  completed : List Nat

def View.restart (d : Driver) (v : View) : View :=
  match v.phase, v.waiting d with
  | .idle, r :: rest =>
    if r.work.start = eInProgress then
      { v with phase := .transfer d r r.next false, waiting := Function.update v.waiting d rest }
    else
      { v with
        waiting := Function.update v.waiting d rest
        queueTask := if d = .sha then v.queueTask else Function.update v.queueTask d true
        completed := v.completed ++ [r.id] }
  | _, _ => v

def View.accepts (r : Req) (v : View) : Bool :=
  (v.waiting r.work.driver).length < queueLength || r.mayBacklog

def View.enqueue (r : Req) (v : View) : View :=
  let d := r.work.driver
  if v.accepts r then
    { v with waiting := Function.update v.waiting d (v.waiting d ++ [r]), accepted := v.accepted ++ [r.id] }
  else v

/-- The transfer of a request has ended and its driver heard of it. -/
def View.goOn (d : Driver) (r : Req) (left : List Int) (v : View) : View :=
  if left.headD 0 = eInProgress then { v with phase := .transfer d r left.tail false }
  else ({ v with phase := .idle, completed := v.completed ++ [r.id] } : View).restart d

def View.step (v : View) : Event → View
  | .enqueue r => (v.enqueue r).restart r.work.driver
  | .transferEnds =>
    match v.phase with
    | .transfer d r left _ => { v with phase := .transfer d r left true }
    | _ => v
  | .irq d =>
    match v.phase with
    | .transfer d' r left true => if d = d' then { v with phase := .done d r left } else v
    | _ => v
  | .doneTask d =>
    match v.phase with
    | .done d' r left => if d = d' then v.goOn d r left else v
    | _ => v
  | .queueTask d =>
    if v.queueTask d then ({ v with queueTask := Function.update v.queueTask d false } : View).restart d else v

def View.initial : View := ⟨.idle, fun _ => [], fun _ => false, [], []⟩

/-- What a step of the abstract machine can do. -/
inductive Effect (v : View) : Event → View → Prop where
  | enqueue (r : Req) : Effect v (.enqueue r) ((v.enqueue r).restart r.work.driver)
  | ends {d : Driver} {r : Req} {left : List Int} {ended : Bool} (hphase : v.phase = .transfer d r left ended) :
    Effect v .transferEnds { v with phase := .transfer d r left true }
  | heard {d : Driver} {r : Req} {left : List Int} (hphase : v.phase = .transfer d r left true) :
    Effect v (.irq d) { v with phase := .done d r left }
  | goOn {d : Driver} {r : Req} {left : List Int} (hphase : v.phase = .done d r left) :
    Effect v (.doneTask d) (v.goOn d r left)
  | queue {d : Driver} (htask : v.queueTask d = true) :
    Effect v (.queueTask d) (({ v with queueTask := Function.update v.queueTask d false } : View).restart d)
  | nothing {ev : Event} (henqueue : ∀ r, ev ≠ .enqueue r)
    (hdone : ∀ d r left, ev = .doneTask d → v.phase ≠ .done d r left)
    (hqueue : ∀ d, ev = .queueTask d → v.queueTask d = false) : Effect v ev v

theorem step_effect (v : View) (ev : Event) : Effect v ev (v.step ev) := by
  cases ev with
  | enqueue r => exact .enqueue r
  | transferEnds =>
    simp only [View.step]
    split
    · next hphase => exact .ends hphase
    · exact .nothing (by simp) (by simp) (by simp)
  | irq d =>
    simp only [View.step]
    split
    · next hphase =>
      split
      · next he =>
        subst he
        exact .heard hphase
      · exact .nothing (by simp) (by simp) (by simp)
    · exact .nothing (by simp) (by simp) (by simp)
  | doneTask d =>
    simp only [View.step]
    split
    · next hphase =>
      split
      · next he =>
        subst he
        exact .goOn hphase
      next hne =>
      apply Effect.nothing (by simp) _ (by simp)
      rintro _ r' left' ⟨⟩ hphase'
      exact hne (Phase.done.inj (hphase'.symm.trans hphase)).1
    · next hnot => exact .nothing (by simp) (by simp_all) (by simp)
  | queueTask d =>
    simp only [View.step]
    split
    · next htask => exact .queue htask
    · exact .nothing (by simp) (by simp) (by simp_all)

/-! ## What a state shows -/

/-- What a view says of a device. -/
structure Look where
  busy : Bool
  dma : Bool
  outputReady : Bool
  doneTask : Bool
  waiting : List Req
  queueTask : Bool

def lookOf (dd : Dev) : Look := ⟨dd.busy, dd.dma, dd.outputReady, dd.doneTask, dd.queue.list, dd.queueTask⟩

def View.look (v : View) (d : Driver) : Look :=
  match v.phase with
  | .idle => ⟨false, false, false, false, v.waiting d, v.queueTask d⟩
  | .held d' => ⟨d = d', false, false, false, v.waiting d, v.queueTask d⟩
  | .transfer d' .. => ⟨d = d', d = d', false, false, v.waiting d, v.queueTask d⟩
  | .done d' .. => ⟨d = d', d = d', d = d' ∧ d = .sha, d = d', v.waiting d, v.queueTask d⟩

/-- What is common to the drivers, and what the engine does. -/
structure Lines where
  mayOccupy : Bool
  inUse : Driver → Bool
  running : Bool
  status : Bool

def linesOf (s : Sys) : Lines := ⟨s.mayOccupy, s.inUse, s.running, s.status⟩

def noneInUse : Driver → Bool := fun _ => false

def Phase.lines : Phase → Lines
  | .idle => ⟨false, noneInUse, false, false⟩
  | .held _ | .done .. => ⟨true, noneInUse, false, false⟩
  | .transfer d _ _ ended => ⟨true, Function.update noneInUse d true, !ended, ended⟩

attribute [simp] Phase.lines

/-- The request of a transfer and what is to come of it are those of the device. -/
def Phase.Records (p : Phase) (s : Sys) : Prop :=
  match p with
  | .transfer d r left _ | .done d r left => (s.dev d).req = some r ∧ (s.dev d).left = left
  | _ => True

/-- A call with -EINPROGRESS says that a request left the backlog. -/
def completions (calls : List (Nat × Int)) : List Nat :=
  (calls.filter fun call => call.2 ≠ eInProgress).map Prod.fst

structure Shows (s : Sys) (v : View) : Prop where
  look : ∀ d, lookOf (s.dev d) = v.look d
  records : v.phase.Records s
  lines : linesOf s = v.phase.lines
  accepted : s.accepted = v.accepted
  completed : completions s.calls = v.completed

variable {s s' : Sys} {v v' : View} {d : Driver} {r : Req} {left : List Int}

theorem shows_initial : Shows .initial .initial := ⟨fun _ => rfl, trivial, rfl, rfl, rfl⟩

section
variable (h : Shows s v)
include h

/-- One device changes, and the view of it. -/
theorem Shows.setDev {dd : Dev} (hdev : s'.dev = update s.dev d dd) (hself : lookOf dd = v'.look d)
    (hother : ∀ d', d' ≠ d → v'.look d' = v.look d') (hrecords : v'.phase.Records s') (hlines : linesOf s' = v'.phase.lines)
    (haccepted : s'.accepted = s.accepted ∧ v'.accepted = v.accepted)
    (hcompleted : completions s'.calls = v'.completed) : Shows s' v' := by
  refine ⟨fun d' => ?_, hrecords, hlines, haccepted.1.trans (h.accepted.trans haccepted.2.symm), hcompleted⟩
  by_cases he : d' = d
  · subst he
    rw [hdev, update_self, hself]
  · rw [hdev, update_of_ne he, h.look, hother d' he]

/-- The lines in a phase. -/
theorem Shows.lines_eq {p : Phase} (hphase : v.phase = p) : s.mayOccupy = p.lines.mayOccupy ∧
    s.inUse = p.lines.inUse ∧ s.running = p.lines.running ∧ s.status = p.lines.status :=
  Lines.mk.inj (h.lines.trans (congrArg Phase.lines hphase))

omit h in
theorem completions_append (calls : List (Nat × Int)) (i : Nat) {err : Int} (herr : err ≠ eInProgress) :
    completions (calls ++ [(i, err)]) = completions calls ++ [i] := by
  simp [completions, herr]

/-! ### The parts of the steps -/

theorem shows_occupy (hidle : v.phase = .idle) (q : CryptoQueue) :
    Shows (occupy d q s) { v with phase := .held d, waiting := update v.waiting d q.list } := by
  have hd := h.look d
  simp only [lookOf, View.look, hidle, Look.mk.injEq] at hd
  have hl := h.lines_eq hidle
  refine h.setDev rfl ?_ (fun d' hne => ?_) trivial ?_ ⟨rfl, rfl⟩ h.completed
  · simp [lookOf, View.look, hd]
  · simp [View.look, hidle, hne]
  · simp [occupy, Sys.setDev, linesOf, hl]

theorem shows_notifyBacklog (hheld : v.phase = .held d) (backlog : Option Req) :
    Shows (notifyBacklog backlog s) v := by
  cases backlog with
  | none => exact h
  | some r =>
    constructor
    case look => exact h.look
    case records => simp [hheld, Phase.Records]
    case lines => exact h.lines
    case accepted => exact h.accepted
    case completed => simp [notifyBacklog, complete, completions, ← h.completed]

theorem shows_startTransfer (hheld : v.phase = .held d) :
    Shows (startTransfer d r left s) { v with phase := .transfer d r left false } := by
  have hd := h.look d
  simp only [lookOf, View.look, hheld, Look.mk.injEq] at hd
  have hl := h.lines_eq hheld
  refine h.setDev rfl ?_ (fun d' hne => ?_) ?_ ?_ ⟨rfl, rfl⟩ h.completed
  · simp [lookOf, View.look, hd]
  · simp [View.look, hheld, hne]
  · simp [Phase.Records, startTransfer, Sys.setDev]
  · simp [startTransfer, Sys.setDev, linesOf, hl]

theorem shows_finishReq (hheld : v.phase = .held d) {err : Int} (herr : err ≠ eInProgress) :
    Shows (finishReq d r err s) { v with phase := .idle, completed := v.completed ++ [r.id] } := by
  have hd := h.look d
  simp only [lookOf, View.look, hheld, Look.mk.injEq] at hd
  have hl := h.lines_eq hheld
  refine h.setDev rfl ?_ (fun d' hne => ?_) trivial ?_ ⟨rfl, rfl⟩ ?_
  · simp [lookOf, View.look, hd]
  · simp [View.look, hheld, hne]
  · simp [finishReq, complete, Sys.setDev, linesOf, hl]
  · simp [finishReq, complete, Sys.setDev, completions_append _ _ herr, h.completed]

theorem shows_setReq (hheld : v.phase = .held d) :
    Shows (s.setDev d { s.dev d with req := some r }) v := by
  refine h.setDev rfl (h.look d) (fun _ _ => rfl) ?_ h.lines ⟨rfl, rfl⟩ h.completed
  simp [hheld, Phase.Records]

end

theorem records_setDev {dd : Dev} (hrecords : v.phase.Records s) (hreq : dd.req = (s.dev d).req)
    (hleft : dd.left = (s.dev d).left) : v.phase.Records (s.setDev d dd) := by
  have hsame : ∀ d', ((s.setDev d dd).dev d').req = (s.dev d').req ∧ ((s.setDev d dd).dev d').left = (s.dev d').left := by
    intro d'
    by_cases he : d' = d
    · subst he
      simp [Sys.setDev, hreq, hleft]
    · simp [Sys.setDev, he]
  cases hphase : v.phase with
  | idle | held => exact trivial
  | _ => simpa only [hphase, Phase.Records, hsame] using hrecords

theorem look_waiting (v : View) (d : Driver) : (v.look d).waiting = v.waiting d := by
  unfold View.look
  split <;> rfl

theorem look_queueTask (v : View) (d : Driver) : (v.look d).queueTask = v.queueTask d := by
  unfold View.look
  split <;> rfl

section
variable (h : Shows s v)
include h

theorem Shows.list (d : Driver) : (s.dev d).queue.list = v.waiting d := by
  rw [← look_waiting, ← h.look]
  rfl

theorem Shows.queueTask (d : Driver) : (s.dev d).queueTask = v.queueTask d := by
  rw [← look_queueTask, ← h.look]
  rfl

theorem shows_setQueueTask (b : Bool) :
    Shows (s.setDev d { s.dev d with queueTask := b }) { v with queueTask := update v.queueTask d b } := by
  have hd := h.look d
  refine h.setDev rfl ?_ (fun d' hne => ?_) (records_setDev h.records rfl rfl) h.lines ⟨rfl, rfl⟩ h.completed
  · simp only [lookOf, View.look] at hd ⊢
    split at hd <;> simp_all
  · simp [View.look, hne]

theorem shows_setQueue (q : CryptoQueue) :
    Shows (s.setDev d { s.dev d with queue := q }) { v with waiting := update v.waiting d q.list } := by
  have hd := h.look d
  refine h.setDev rfl ?_ (fun d' hne => ?_) (records_setDev h.records rfl rfl) h.lines ⟨rfl, rfl⟩ h.completed
  · simp only [lookOf, View.look] at hd ⊢
    split at hd <;> simp_all
  · simp [View.look, hne]

omit h in
theorem enqueue_list (q : CryptoQueue) (r : Req) :
    (cryptoEnqueueRequest q r).1.list = if q.accepts r then q.list ++ [r] else q.list := by
  unfold cryptoEnqueueRequest CryptoQueue.accepts
  split
  case isTrue hfull =>
    have hnot : ¬ q.list.length < queueLength := by omega
    cases hmay : r.mayBacklog <;> simp [hnot]
  case isFalse hroom =>
    have hlt : q.list.length < queueLength := by omega
    simp [hlt]

theorem shows_enqueue : Shows (enqueue r.work.driver r s) (v.enqueue r) := by
  have haccepts : (s.dev r.work.driver).queue.accepts r = v.accepts r := by
    simp only [CryptoQueue.accepts, View.accepts, h.list]
  have hqueue := shows_setQueue h (d := r.work.driver) (cryptoEnqueueRequest (s.dev r.work.driver).queue r).1
  rw [enqueue_list, haccepts, h.list] at hqueue
  cases hcase : v.accepts r with
  | true =>
    simp only [hcase, if_true] at hqueue
    simp only [enqueue, View.enqueue, haccepts, hcase, if_true]
    exact { hqueue with accepted := congrArg (· ++ [r.id]) h.accepted }
  | false =>
    simp only [hcase, Bool.false_eq_true, if_false, update_eq_self] at hqueue
    simp only [enqueue, View.enqueue, haccepts, hcase, Bool.false_eq_true, if_false]
    exact hqueue

omit h in
theorem dequeue_eq (q : CryptoQueue) : (cryptoDequeueRequest q = none ∧ q.list = []) ∨
      ∃ r q', cryptoDequeueRequest q = some (r, q') ∧ q.list = r :: q'.list := by
  unfold cryptoDequeueRequest
  cases hlist : q.list with
  | nil => exact .inl ⟨rfl, rfl⟩
  | cons r rest => exact .inr ⟨r, _, rfl, rfl⟩

theorem shows_process (hheld : v.phase = .held d) : Shows (process d r s)
      (if r.work.start = eInProgress then { v with phase := .transfer d r r.next false }
      else
        { v with
          phase := .idle
          queueTask := if d = .sha then v.queueTask else update v.queueTask d true
          completed := v.completed ++ [r.id] }) := by
  unfold process
  by_cases hstart : r.work.start = eInProgress
  · rw [if_pos hstart, if_pos hstart]
    exact shows_startTransfer h hheld
  rw [if_neg hstart, if_neg hstart]
  by_cases hsha : d = .sha
  · rw [if_pos hsha, if_pos hsha]
    exact shows_finishReq h hheld hstart
  · rw [if_neg hsha, if_neg hsha]
    exact shows_setQueueTask (shows_finishReq (shows_setReq h hheld) hheld hstart) true

theorem Shows.dmaBusy_iff : s.dmaBusy = false ↔ v.phase = .idle := by
  cases hphase : v.phase with
  | idle =>
    have hl := h.lines_eq hphase
    simp [Sys.dmaBusy, Sys.anyInUse, hl, noneInUse]
  | _ =>
    have hl := h.lines_eq hphase
    simp [Sys.dmaBusy, hl]

theorem Shows.free (hidle : v.phase = .idle) (d : Driver) : ((s.dev d).busy || s.dmaBusy) = false := by
  have hd := h.look d
  simp only [lookOf, View.look, hidle, Look.mk.injEq] at hd
  simp [hd, h.dmaBusy_iff.mpr hidle]

theorem Shows.occupied (hbusy : v.phase ≠ .idle) (d : Driver) :
    ((s.dev d).busy || s.dmaBusy) = true := by
  rw [Bool.or_eq_true]
  exact .inr (Bool.of_not_eq_false fun hfalse => hbusy (h.dmaBusy_iff.mp hfalse))

end

theorem restart_of_busy (hbusy : v.phase ≠ .idle) : v.restart d = v := by
  unfold View.restart
  split
  · exact absurd ‹_› hbusy
  · rfl

theorem restart_of_empty (hempty : v.waiting d = []) : v.restart d = v := by
  unfold View.restart
  split
  · simp_all
  · rfl

theorem restart_of_idle {rest : List Req} (hidle : v.phase = .idle) (hwaiting : v.waiting d = r :: rest) : v.restart d =
      if r.work.start = eInProgress then
        { v with phase := .transfer d r r.next false, waiting := update v.waiting d rest } else { v with
          waiting := update v.waiting d rest
          queueTask := if d = .sha then v.queueTask else update v.queueTask d true
          completed := v.completed ++ [r.id] } := by
  simp only [View.restart, hidle, hwaiting]

theorem shows_restart (h : Shows s v) : Shows (restart d s) (v.restart d) := by
  unfold restart
  by_cases hidle : v.phase = .idle
  · rw [h.free hidle, if_neg Bool.false_ne_true]
    rcases dequeue_eq (s.dev d).queue with ⟨hnone, hempty⟩ | ⟨r, q, hsome, hlist⟩
    · rw [h.list] at hempty
      rw [hnone, restart_of_empty hempty]
      exact h
    rw [h.list] at hlist
    rw [hsome, restart_of_idle hidle hlist]
    have htaken := shows_notifyBacklog (shows_occupy h hidle (d := d) q) rfl (cryptoGetBacklog (s.dev d).queue)
    have hprocess := shows_process htaken (r := r) rfl
    rw [← hidle] at hprocess
    exact hprocess
  · rw [h.occupied hidle, if_pos rfl, restart_of_busy hidle]
    exact h

/-! ### The steps -/

theorem shows_transferEnds (h : Shows s v) : Shows (transferEnds s) (v.step .transferEnds) := by
  unfold transferEnds
  cases hphase : v.phase with
  | transfer d r left ended =>
    have hl := h.lines_eq hphase
    cases ended with
    | false =>
      have hlook := h.look
      have hrecords := h.records
      simp only [View.look, hphase] at hlook
      rw [hphase] at hrecords
      simp only [View.step, hphase, hl]
      exact ⟨hlook, hrecords, by simp [linesOf], h.accepted, h.completed⟩
    | true =>
      have hsame : v.step .transferEnds = v := by
        simp only [View.step, hphase]
        rw [← hphase]
      rw [hsame, if_neg (by simp [hl])]
      exact h
  | _ =>
    have hl := h.lines_eq hphase
    simp only [View.step, hphase]
    rw [if_neg (by simp [hl])]
    exact h

theorem shows_done (h : Shows s v) (hphase : v.phase = .transfer d r left true) : Shows
      ({ s with status := false, inUse := update s.inUse d false }.setDev d
        { s.dev d with doneTask := true, outputReady := (s.dev d).outputReady || decide (d = Driver.sha) })
      { v with phase := .done d r left } := by
  have hd := h.look d
  have hrecords := h.records
  simp only [lookOf, View.look, hphase, Look.mk.injEq] at hd
  have hl := h.lines_eq hphase
  rw [hphase] at hrecords
  have hnone : update noneInUse d false = noneInUse := update_eq_self d noneInUse
  refine h.setDev rfl ?_ (fun d' hne => ?_) ?_ ?_ ⟨rfl, rfl⟩ h.completed
  · simp [lookOf, View.look, hd]
  · simp [View.look, hphase, hne]
  · simpa [Phase.Records, Sys.setDev] using hrecords
  · simp [linesOf, Sys.setDev, hl, hnone]

theorem shows_irq (h : Shows s v) : Shows (irq d s).1 (v.step (.irq d)) := by
  have hd := h.look d
  unfold irq
  cases hphase : v.phase with
  | transfer d' r left ended =>
    have hl := h.lines_eq hphase
    simp only [lookOf, View.look, hphase, Look.mk.injEq] at hd
    cases ended with
    | false =>
      simp only [View.step, hphase]
      rw [if_neg (by simp [hl])]
      exact h
    | true =>
      have hany : s.anyInUse = true := by cases d' <;> simp [Sys.anyInUse, hl, update]
      rw [if_pos (by simp [hl]), if_neg (by simp [hany])]
      by_cases he : d = d'
      · subst he
        simp only [View.step, hphase, if_true]
        rw [if_pos (by simp [hd, hl])]
        exact shows_done h hphase
      · simp only [View.step, hphase, if_neg he]
        rw [if_neg (by simp [hd, he])]
        exact h
  | _ =>
    have hl := h.lines_eq hphase
    simp only [View.step, hphase]
    rw [if_neg (by simp [hl])]
    exact h

theorem shows_stop (h : Shows s v) (hphase : v.phase = .done d r left) {dd : Dev}
    (hdd : lookOf dd = ⟨true, false, false, false, v.waiting d, v.queueTask d⟩) :
    Shows (s.setDev d dd) { v with phase := .held d } := by
  have hl := h.lines_eq hphase
  refine h.setDev rfl ?_ (fun d' hne => ?_) trivial ?_ ⟨rfl, rfl⟩ h.completed
  · simp [hdd, View.look]
  · simp [View.look, hphase, hne]
  · simp [linesOf, Sys.setDev, hl]

theorem shows_goOn (h : Shows s { v with phase := .held d }) (hleft : (s.dev d).left = left) :
    Shows (goOn d r s) (v.goOn d r left) := by
  unfold goOn View.goOn
  rw [hleft]
  by_cases herr : left.headD 0 = eInProgress
  · simp only [herr, if_true]
    exact shows_startTransfer (v := { v with phase := .held d }) h rfl
  · simp only [herr, if_false]
    exact shows_restart (shows_finishReq (v := { v with phase := .held d }) h rfl herr)

@[simp] theorem setDev_setDev (s : Sys) (d : Driver) (a b : Dev) : (s.setDev d a).setDev d b = s.setDev d b := by
  simp [Sys.setDev]

@[simp] theorem setDev_dev (s : Sys) (d : Driver) (dd : Dev) : (s.setDev d dd).dev d = dd := by
  simp [Sys.setDev]

theorem shows_doneTask (h : Shows s v) : Shows (doneTask d s) (v.step (.doneTask d)) := by
  have hd := h.look d
  unfold doneTask
  cases hphase : v.phase with
  | done d' r left =>
    simp only [lookOf, View.look, hphase, Look.mk.injEq] at hd
    obtain ⟨hbusy, hdma, houtput, htask, hlist, hqueue⟩ := hd
    by_cases he : d = d'
    · subst he
      have hrecords := h.records
      simp only [Phase.Records, hphase] at hrecords
      simp only [View.step, hphase, if_true, htask, hrecords.1, decide_true]
      by_cases hsha : d = .sha
      · subst hsha
        rw [if_pos rfl, amlShaDoneTask, setDev_dev, setDev_setDev, if_pos (by simp [hbusy]),
          if_pos (by simp [houtput, hdma])]
        exact shows_goOn (shows_stop h hphase (by simp [lookOf, hbusy, hlist, hqueue])) (by simp [hrecords])
      · rw [if_neg hsha, cipherDoneTask, setDev_dev, setDev_setDev, if_pos (by simp [hdma])]
        exact shows_goOn (shows_stop h hphase (by simp [lookOf, hbusy, houtput, hsha, hlist, hqueue]))
          (by simp [hrecords])
    · simp only [View.step, hphase, if_neg he, htask, decide_eq_false he]
      exact h
  | _ =>
    simp only [lookOf, View.look, hphase, Look.mk.injEq] at hd
    simp only [View.step, hphase, hd]
    exact h

theorem shows_queueTask (h : Shows s v) : Shows (queueTask d s) (v.step (.queueTask d)) := by
  simp only [queueTask, View.step, h.queueTask]
  split
  · exact shows_restart (shows_setQueueTask h false)
  · exact h

theorem shows_step (h : Shows s v) (ev : Event) : Shows (step s ev) (v.step ev) := by
  cases ev with
  | enqueue r => exact shows_restart (shows_enqueue h)
  | transferEnds => exact shows_transferEnds h
  | irq d => exact shows_irq h
  | doneTask d => exact shows_doneTask h
  | queueTask d => exact shows_queueTask h

end AmlogicV901d.Guarantees.CryptoEngineView
