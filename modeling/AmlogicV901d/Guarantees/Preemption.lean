import AmlogicV901d.Guarantees.MediaResources

/-!
# Who a preempting request waits for

The search for a victim of a counter takes a holder that is preempted already before any other,
and such a holder is not preempted again: the request fails.
-/
namespace AmlogicV901d.Guarantees.Preemption
open Lib.KeyedList Source.ResourceMgr Guarantees.MediaResources

/-- The given timeout, or the default. -/
def waitTimeout (m : Resman) (acquire : Acquire) : UInt32 := if acquire.timeout = 0 then m.preemptTimeoutMs else acquire.timeout

/-- The request waits for a preempted holder, and is granted if a unit is free after the wait. -/
def WaitsForVictim (m : Resman) (avail : UInt32) (resource : ResmanResource) (acquire : Acquire) (answers : List Bool) : Prop :=
  ∃ status left, resmanCounterAcquire m avail resource acquire (m.status, answers) =
      some (.wait { acquire with timeout := waitTimeout m acquire }, status, left) ∧
    (∃ node ∈ resource.sessions, status node.session = .preempted) ∧
    ∀ later : ResmanResource, later.type = .counter avail → later.value.toUInt32 < avail → ∀ m' sess enabled,
      resumeHook m' sess later { acquire with timeout := waitTimeout m acquire } enabled = pure (.done (some (later.value + 1, .zeroed)))

variable {m : Resman} {avail : UInt32} {resource : ResmanResource} {acquire : Acquire}

theorem counterPreempt_iff {status : Nat → ResmanStatus} {rest : List Bool} {s : (Nat → ResmanStatus) × List Bool} :
    resmanCounterPreempt resource (status, true :: rest) = some (true, s) ↔
      ∃ node, resource.sessions.head? = some node ∧ status node.session = .acquired ∧
        (∀ node ∈ resource.sessions, status node.session ≠ .preempted) ∧ s = (setStatus node.session .preempted status, rest) := by
  show resmanPreemptSession _ (status, true :: rest) = _ ↔ _
  cases hfind : resource.sessions.find? fun node => status node.session = .preempted with
  | some victim =>
    have hvictim : status victim.session = .preempted := by simpa using List.find?_some hfind
    simp only [Option.some_or, resmanPreemptSession, hvictim]
    refine ⟨nofun, fun ⟨_, _, _, hnone, _⟩ => absurd hvictim (hnone victim (List.mem_of_find?_eq_some hfind))⟩
  | none =>
    have hnone : ∀ node ∈ resource.sessions, status node.session ≠ .preempted := by simpa using hfind
    cases hhead : resource.sessions.head? with
    | none => exact ⟨nofun, nofun⟩
    | some node =>
      simp only [Option.none_or, resmanPreemptSession]
      by_cases hacquired : status node.session = .acquired
      · simpa [hacquired, eq_comm (a := s)] using fun _ => hnone
      · simp [hacquired]

variable (hfull : avail ≤ resource.value.toUInt32) (hpreempt : acquire.preempt = true)
include hfull hpreempt

theorem counterAcquire_iff {answers : List Bool} {s : (Nat → ResmanStatus) × List Bool} :
    resmanCounterAcquire m avail resource acquire (m.status, answers) =
        some (.wait { acquire with timeout := waitTimeout m acquire }, s) ↔
      resmanCounterPreempt resource (m.status, answers) = some (true, s) ∧ waitTimeout m acquire ≠ 0 := by
  have htry : counterTry avail resource = none := if_neg (UInt32.not_lt.mpr hfull)
  have hpure {α : Type} (a : α) (s) : (pure a : PreemptM α) s = some (a, s) := rfl
  simp only [resmanCounterAcquire, preemptTimeout, hfull, hpreempt, htry, if_true, bind, StateT.bind]
  rw [← waitTimeout]
  cases resmanCounterPreempt resource (m.status, answers) with
  | none => simp
  | some r =>
    obtain ⟨got, s'⟩ := r
    cases got <;> by_cases htime : waitTimeout m acquire = 0 <;> simp [htime, hpure]

/-- With free locks, a preempting request for a counter that is used up waits for its victim exactly
if the first holder is not preempted, nor any other, and the timeout is not zero. -/
theorem waits_for_victim_iff (rest : List Bool) : WaitsForVictim m avail resource acquire (true :: rest) ↔
    (∃ node, resource.sessions.head? = some node ∧ m.status node.session = .acquired) ∧
      (∀ node ∈ resource.sessions, m.status node.session ≠ .preempted) ∧ waitTimeout m acquire ≠ 0 := by
  constructor
  · rintro ⟨status, left, hrun, -, -⟩
    obtain ⟨hgot, htime⟩ := (counterAcquire_iff hfull hpreempt).mp hrun
    obtain ⟨node, hhead, hacquired, hnone, -⟩ := counterPreempt_iff.mp hgot
    exact ⟨⟨node, hhead, hacquired⟩, hnone, htime⟩
  · rintro ⟨⟨node, hhead, hacquired⟩, hnone, htime⟩
    have hgot : resmanCounterPreempt resource (m.status, true :: rest) = _ := counterPreempt_iff.mpr ⟨node, hhead, hacquired, hnone, rfl⟩
    refine ⟨_, rest, (counterAcquire_iff hfull hpreempt).mpr ⟨hgot, htime⟩, ⟨node, List.mem_of_head? hhead, if_pos rfl⟩, ?_⟩
    intro later htype hfree m' sess enabled
    simp only [resumeHook, htype, counterTry, if_pos hfree]

omit hfull hpreempt

/-- The only unit is held by a session that lets go when it is preempted. -/
theorem single_holder_waited_for : WaitsForVictim ⟨[], [], fun _ => .acquired, 2, 2500⟩ 1
    ⟨0, .counter 1, 1, [⟨0, 0, .zeroed⟩]⟩ ⟨0, true, 0, none⟩ [true] :=
  (waits_for_victim_iff (by decide) rfl []).mpr ⟨⟨_, rfl, rfl⟩, by simp, by decide⟩

/-- Two sessions ask, one after the other, for the unit that a third one holds. -/
def competing : Resman := run [.openSession, .openSession, .openSession, .acquire 0 ⟨0, false, 0, none⟩, .enter 0 [] [],
  .acquire 1 ⟨0, true, 0, none⟩, .enter 1 [true] [], .acquire 2 ⟨0, true, 0, none⟩] (resmanInit [(0, .counter 1)] 2500)

theorem second_request_fails : ∃ resource, lookup ResmanResource.id 0 competing.resources = some resource ∧
    1 ≤ resource.value.toUInt32 ∧ ¬ WaitsForVictim competing 1 resource ⟨0, true, 0, none⟩ [true] :=
  ⟨⟨0, .counter 1, 1, [⟨0, 0, .zeroed⟩]⟩, rfl, by decide, fun ⟨_, _, hrun, _⟩ => nomatch hrun⟩

end AmlogicV901d.Guarantees.Preemption
