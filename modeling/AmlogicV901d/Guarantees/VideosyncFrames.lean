import Mathlib.Data.List.Nodup
import Mathlib.Data.List.Perm.Subperm
import Mathlib.Data.List.Range
import AmlogicV901d.Source.Videosync

/-!
# Frames of the video synchronisation

The two queues are rings of 17 places. The ready queue is watched while frames are moved
into it; the queued queue is looked at once, before all frames that wait upstream are
pushed. A tick that finds more of them than there is room loses frames, and so does a
registration while frames are queued. These are the only ways: any other run keeps every
frame in one place and delivers in order.
-/
namespace AmlogicV901d.Guarantees.VideosyncFrames
open Lib.RingQueue List
open Source.Videosync

variable {s s' : DevS} {async : Bool} {ev : Event}

/-! ## What is asked of a run -/

/-- Everywhere a frame can be. -/
def places (s : DevS) : List Nat := s.queuedQ.contents ++ (s.readyQ.contents ++ (s.hands ++ s.returned))

/-- Every frame taken from upstream is in exactly one place, once. -/
def Kept (s : DevS) : Prop :=
  ∀ f < s.taken, s.queuedQ.contents.count f + s.readyQ.contents.count f + s.hands.count f + s.returned.count f = 1

/-- Nothing is left in the queues, and what was there went upstream. -/
def Cleared (s s' : DevS) : Prop :=
  s'.queuedQ.contents = [] ∧ s'.readyQ.contents = [] ∧ ∀ f ∈ s.queuedQ.contents ++ s.readyQ.contents, f ∈ s'.returned

def GoesWell (ev : Event) (s s' : DevS) : Prop :=
  Kept s' ∧ s'.delivered.Pairwise (· < ·) ∧ ((∃ answered, ev = .unreg answered) → Cleared s s')

def RunGoesWell : DevS → List Event → Prop
  | _, [] => True
  | s, ev :: evs => GoesWell ev s (step s ev) ∧ RunGoesWell (step s ev) evs

/-- A tick takes what waits upstream. -/
def Takes (s : DevS) : Prop := s.activeDevNum ≠ 0#32 ∧ s.activeState = .active ∧ s.queuedQ.isFull = false

/-- The condition on an event and the state before it. -/
def Plain (s : DevS) : Event → Prop
  | .tick _ _ waiting _ => Takes s → s.queuedQ.level + waiting ≤ videosyncPoolSize
  | .reg => s.queuedQ.contents = [] ∧ s.readyQ.contents = []
  | .get | .put _ | .unreg _ => True

def RunPlain : DevS → List Event → Prop
  | _, [] => True
  | s, ev :: evs => Plain s ev ∧ RunPlain (step s ev) evs

/-! ## Moving frames -/

/-- The frames that were delivered and those that will be, in order. -/
def line (s : DevS) : List Nat := s.delivered ++ (s.readyQ.contents ++ s.queuedQ.contents)

/-- Frames change places, or leave the line. -/
structure Moves (s s' : DevS) : Prop where
  places : (places s').Perm (places s)
  line : (line s').Sublist (line s)
  taken : s'.taken = s.taken

theorem Moves.refl (s : DevS) : Moves s s := ⟨List.Perm.refl _, List.Sublist.refl _, rfl⟩

theorem Moves.state (s : DevS) (a : ActiveState) (n : BitVec 32) : Moves s { s with activeState := a, activeDevNum := n } :=
  ⟨List.Perm.refl _, List.Sublist.refl _, rfl⟩

theorem Moves.trans {s'' : DevS} (h : Moves s s') (h' : Moves s' s'') : Moves s s'' :=
  ⟨h'.places.trans h.places, h'.line.trans h.line, h'.taken.trans h.taken⟩

theorem clearReadyQueue_moves (s : DevS) : Moves s (clearReadyQueue s) where
  places := by
    unfold VideosyncFrames.places
    rw [clearReadyQueue_readyQ, clearReadyQueue_returned]
    apply Perm.append_left
    rw [nil_append, ← append_assoc]
    exact perm_append_comm
  line := by
    unfold VideosyncFrames.line
    rw [clearReadyQueue_readyQ]
    apply Sublist.append_left
    exact sublist_append_right s.readyQ.contents s.queuedQ.contents
  taken := rfl

theorem clearQueuedQueue_moves (s : DevS) : Moves s (clearQueuedQueue s) where
  places := by
    unfold VideosyncFrames.places
    rw [clearQueuedQueue_queuedQ, clearQueuedQueue_returned]
    change ([] ++ (s.readyQ.contents ++ (s.hands ++ (s.returned ++ s.queuedQ.contents)))).Perm _
    rw [nil_append, ← append_assoc s.hands, ← append_assoc s.readyQ.contents]
    exact perm_append_comm
  line := by
    unfold VideosyncFrames.line
    rw [clearQueuedQueue_queuedQ]
    apply Sublist.append_left
    rw [append_nil]
    exact sublist_append_left s.readyQ.contents s.queuedQ.contents
  taken := rfl

variable (async : Bool)

theorem makeReady_moves (s : DevS) : Moves s (makeReady async s) := by
  unfold makeReady
  split
  · exact clearReadyQueue_moves s
  · exact .refl s

theorem makeReady_queuedQ (s : DevS) : (makeReady async s).queuedQ = s.queuedQ := by
  unfold makeReady
  split <;> rfl

theorem makeReady_level (s : DevS) : (makeReady async s).readyQ.level ≤ s.readyQ.level := by
  unfold makeReady
  split
  · rw [← RingQ.contents_length, clearReadyQueue_readyQ]
    exact Nat.zero_le _
  · exact Nat.le_refl _

/-- A frame goes from the one queue to the other. -/
def handOver (vf : Nat) (s : DevS) : DevS := { s with queuedQ := s.queuedQ.drop, readyQ := s.readyQ.push vf }

theorem handOver_moves {vf : Nat} (hpeek : s.queuedQ.peek = some vf) (hroom : s.readyQ.level < videosyncPoolSize) :
    Moves s (handOver vf s) := by
  have hqueued := s.queuedQ.contents_of_peek hpeek
  have hpush := s.readyQ.contents_push vf (Nat.succ_lt_succ hroom)
  refine ⟨?_, ?_, rfl⟩
  · unfold places handOver
    rw [hpush, hqueued, append_assoc, singleton_append, cons_append, ← append_assoc, ← append_assoc]
    exact perm_middle
  · unfold line handOver
    rw [hpush, hqueued, append_assoc, singleton_append]

theorem expireOne_eq (vf : Nat) (s : DevS) : expireOne async vf s = handOver vf (makeReady async s) := by
  unfold expireOne makeReady
  split <;> rfl

theorem videosyncSync_moves (expired : List Bool) (s : DevS) (hroom : s.readyQ.level < videosyncPoolSize) :
    Moves s (videosyncSync async expired s) := by
  have hover : ∀ {vf s}, s.queuedQ.peek = some vf → s.readyQ.level < videosyncPoolSize → Moves s (expireOne async vf s) := by
    intro vf s hpeek hroom
    have hlevel := makeReady_level async s
    rw [expireOne_eq]
    exact (makeReady_moves async s).trans (handOver_moves (by rwa [makeReady_queuedQ]) (by omega))
  fun_induction videosyncSync async expired s with
  | case1 | case2 | case5 => exact .refl _
  | case3 _ _ _ hpeek => exact hover hpeek hroom
  | case4 _ _ _ hpeek _ hmore ih => exact (hover hpeek hroom).trans (ih (by omega))

variable (async noRender : Bool)

theorem prepareReadyQueue_moves (expired : List Bool) (s : DevS) :
    Moves s (prepareReadyQueue async noRender expired s) := by
  unfold prepareReadyQueue
  split
  · exact .refl s
  split
  · exact .refl s
  rename_i hfull
  have hlt := s.readyQ.level_lt
  rw [RingQ.isFull_iff] at hfull
  have hsync := videosyncSync_moves async expired s (by omega)
  split
  · exact hsync.trans (clearReadyQueue_moves _)
  · exact hsync

theorem answerRequest_moves (s : DevS) : Moves s (answerRequest s) := by
  unfold answerRequest
  split
  · exact .state s .inactive s.activeDevNum
  · exact .refl s

theorem videosyncVfGet_moves (s : DevS) : Moves s (videosyncVfGet s) := by
  unfold videosyncVfGet
  split
  · exact .refl s
  rename_i vf hpeek
  have hready := s.readyQ.contents_of_peek hpeek
  refine ⟨?_, ?_, rfl⟩
  · unfold places
    rw [hready]
    apply Perm.append_left
    rw [append_assoc, singleton_append, cons_append, ← append_assoc, ← append_assoc]
    exact perm_middle
  · unfold line
    rw [hready, append_assoc, singleton_append, cons_append]

theorem videosyncVfPut_moves (k : Nat) (s : DevS) : Moves s (videosyncVfPut k s) := by
  unfold videosyncVfPut
  split
  · exact .refl s
  rename_i vf hvf
  obtain ⟨hlt, hget⟩ := List.getElem?_eq_some_iff.mp hvf
  refine ⟨?_, List.Sublist.refl _, rfl⟩
  apply Perm.append_left
  apply Perm.append_left
  have hperm := getElem_cons_eraseIdx_perm hlt
  rw [hget] at hperm
  calc (s.hands.eraseIdx k ++ (s.returned ++ [vf])).Perm (s.hands.eraseIdx k ++ vf :: s.returned) :=
        .append_left _ perm_append_comm
    _ |>.Perm (vf :: s.hands.eraseIdx k ++ s.returned) := perm_middle
    _ |>.Perm (s.hands ++ s.returned) := hperm.append_right s.returned

variable (answered : Bool)

theorem requestInactive_moves (s : DevS) : Moves s (requestInactive answered s) := by
  unfold requestInactive
  split
  · have hrequest := Moves.state s .inactiveReq s.activeDevNum
    split
    · exact hrequest.trans (answerRequest_moves _)
    · exact hrequest
  · exact .refl s

theorem providerUnreg_moves (s : DevS) : Moves s (providerUnreg answered s) := by
  have hstate := Moves.state s s.activeState (s.activeDevNum - 1#32)
  have hrequest := hstate.trans (requestInactive_moves answered _)
  exact (hrequest.trans (clearReadyQueue_moves _)).trans (clearQueuedQueue_moves _)

/-! ## Taking frames -/

/-- Frames that are in the order of the queues, none of them lost. -/
structure Inv (s : DevS) : Prop where
  places : (places s).Perm (List.range s.taken)
  line : (line s).Sublist (List.range s.taken)

theorem Inv.moves (h : Inv s) (hmoves : Moves s s') : Inv s' where
  places := by
    rw [hmoves.taken]
    exact hmoves.places.trans h.places
  line := by
    rw [hmoves.taken]
    exact hmoves.line.trans h.line

theorem Inv.kept (h : Inv s) : Kept s := by
  intro f hf
  have hcount := h.places.count_eq f
  rw [count_eq_one_of_mem nodup_range (mem_range.mpr hf)] at hcount
  simp only [VideosyncFrames.places, count_append] at hcount
  omega

theorem Inv.delivered (h : Inv s) : s.delivered.Pairwise (· < ·) :=
  List.Pairwise.sublist ((sublist_append_left _ _).trans h.line) pairwise_lt_range

theorem Kept.length_le (h : Kept s) : s.taken ≤ (places s).length := by
  have hsub : List.range s.taken ⊆ places s := by
    intro f hf
    have hone := h f (mem_range.mp hf)
    rw [← count_pos_iff]
    simp only [places, count_append]
    omega
  have hle := (nodup_range.subperm hsub).length_le
  rwa [length_range] at hle

theorem range_append (a n : Nat) : List.range (a + n) = List.range a ++ List.range' a n := by
  rw [range_eq_range', range_eq_range', range'_append_1 |>.symm]
  simp

theorem takeFrames_inv {n : Nat} (h : Inv s) (hroom : s.queuedQ.level + n ≤ videosyncPoolSize) : Inv (takeFrames n s) := by
  have hlen : s.queuedQ.level + (List.range' s.taken n).length < videosyncPoolSize + 1 := by
    rw [length_range']
    omega
  have hpush := s.queuedQ.contents_pushAll (List.range' s.taken n) hlen
  rw [takeFrames_eq]
  refine ⟨?_, ?_⟩
  · unfold places
    rw [hpush, range_append, append_assoc]
    refine List.Perm.trans ?_ (h.places.append_right _)
    unfold places
    rw [append_assoc]
    exact .append_left _ perm_append_comm
  · unfold line
    rw [hpush, range_append, ← append_assoc, ← append_assoc, append_assoc s.delivered]
    exact h.line.append (List.Sublist.refl _)

theorem takeFrames_loses {n : Nat} (h : Inv s) (hmore : videosyncPoolSize < s.queuedQ.level + n) :
    (places (takeFrames n s)).length < (takeFrames n s).taken := by
  have htotal := h.places.length_eq
  have hlevel := s.queuedQ.level_pushAll (List.range' s.taken n)
  rw [length_range'] at hlevel
  have hmod : (s.queuedQ.level + n) % (videosyncPoolSize + 1) < s.queuedQ.level + n :=
    Nat.lt_of_lt_of_le (Nat.mod_lt _ (Nat.succ_pos _)) hmore
  rw [takeFrames_eq]
  simp only [places, length_append, RingQ.contents_length, length_range] at htotal ⊢
  omega

/-! ## Steps and runs -/

theorem tick_takes (waiting : Nat) (expired : List Bool) (h : Takes s) :
    Moves (takeFrames waiting s) (videosyncThreadTick async noRender waiting expired s) := by
  obtain ⟨hnum, hactive, hfull⟩ := h
  have hanswer : answerRequest s = s := by simp [answerRequest, hactive]
  have hqueued : prepareQueuedQueue waiting s = takeFrames waiting s := by simp [prepareQueuedQueue, hactive, hfull]
  unfold videosyncThreadTick
  rw [hanswer]
  rw [if_pos hnum, hqueued]
  exact prepareReadyQueue_moves async noRender expired _

theorem tick_waits (waiting : Nat) (expired : List Bool) (h : ¬ Takes s) :
    Moves s (videosyncThreadTick async noRender waiting expired s) := by
  have hanswer := answerRequest_moves s
  unfold videosyncThreadTick
  dsimp only
  split
  · rename_i hnum
    have hqueued : prepareQueuedQueue waiting (answerRequest s) = answerRequest s := by
      unfold prepareQueuedQueue
      split
      · rfl
      rename_i hstate
      have hactive : s.activeState = .active := by
        cases hs : s.activeState <;> simp [answerRequest, hs] at hstate ⊢
      have hsame : answerRequest s = s := by simp [answerRequest, hactive]
      rw [hsame] at hnum ⊢
      rw [if_pos]
      by_contra hfull
      exact h ⟨hnum, hactive, by simpa using hfull⟩
    rw [hqueued]
    exact hanswer.trans (prepareReadyQueue_moves async noRender expired _)
  · exact hanswer

theorem providerReg_moves (hqueued : s.queuedQ.contents = []) (hready : s.readyQ.contents = []) : Moves s (providerReg s) := by
  refine ⟨?_, ?_, rfl⟩
  · simp [places, providerReg, hqueued, hready]
  · simp [line, providerReg, hqueued, hready]

theorem providerUnreg_cleared (s : DevS) : Cleared s (providerUnreg answered s) := by
  have hkept : ∀ r : DevS, r = requestInactive answered { s with activeDevNum := s.activeDevNum - 1#32 } →
      r.queuedQ = s.queuedQ ∧ r.readyQ = s.readyQ := by
    rintro r rfl
    unfold requestInactive answerRequest
    split_ifs <;> exact ⟨rfl, rfl⟩
  obtain ⟨hqueued, hready⟩ := hkept _ rfl
  refine ⟨clearQueuedQueue_queuedQ _, clearReadyQueue_readyQ _, ?_⟩
  intro f hf
  unfold providerUnreg
  rw [clearQueuedQueue_returned, clearReadyQueue_returned, hready]
  change f ∈ _ ++ s.readyQ.contents ++ RingQ.contents (requestInactive answered _).queuedQ
  rw [hqueued]
  simp only [mem_append] at hf ⊢
  rcases hf with hf | hf
  · exact .inr hf
  · exact .inl (.inr hf)

theorem step_inv (h : Inv s) (hplain : Plain s ev) : Inv (step s ev) := by
  cases ev with
  | tick async noRender waiting expired =>
    by_cases htakes : Takes s
    · exact (takeFrames_inv h (hplain htakes)).moves (tick_takes async noRender waiting expired htakes)
    · exact h.moves (tick_waits async noRender waiting expired htakes)
  | get => exact h.moves (videosyncVfGet_moves s)
  | put k => exact h.moves (videosyncVfPut_moves k s)
  | reg => exact h.moves (providerReg_moves hplain.1 hplain.2)
  | unreg answered => exact h.moves (providerUnreg_moves answered s)

theorem goesWell_of_inv (h : Inv (step s ev)) : GoesWell ev s (step s ev) := by
  refine ⟨h.kept, h.delivered, ?_⟩
  rintro ⟨answered, rfl⟩
  exact providerUnreg_cleared answered s

theorem plain_of_kept (h : Inv s) (hkept : Kept (step s ev)) : Plain s ev := by
  have hle := hkept.length_le
  cases ev with
  | tick async noRender waiting expired =>
    intro htakes
    by_contra hmore
    have hloses := takeFrames_loses h (Nat.lt_of_not_le hmore)
    have hmoves := tick_takes async noRender waiting expired htakes
    have hlength := hmoves.places.length_eq
    have htaken := hmoves.taken
    simp only [step] at hle
    omega
  | reg =>
    have htotal := h.places.length_eq
    simp only [step, providerReg, places, length_append, RingQ.contents_length, length_range] at hle htotal
    have hqueued : s.queuedQ.init.level = 0 := by rw [← RingQ.contents_length, RingQ.contents_init, length_nil]
    have hready : s.readyQ.init.level = 0 := by rw [← RingQ.contents_length, RingQ.contents_init, length_nil]
    constructor <;> rw [← length_eq_zero_iff, RingQ.contents_length] <;> omega
  | get | put k => trivial
  | unreg answered => trivial

theorem run_well_iff (h : Inv s) (evs : List Event) : RunGoesWell s evs ↔ RunPlain s evs := by
  induction evs generalizing s with
  | nil => exact .rfl
  | cons ev evs ih =>
    constructor
    · rintro ⟨hwell, hrun⟩
      have hplain := plain_of_kept h hwell.1
      exact ⟨hplain, (ih (step_inv h hplain)).mp hrun⟩
    · rintro ⟨hplain, hrun⟩
      have hinv := step_inv h hplain
      exact ⟨goesWell_of_inv hinv, (ih hinv).mpr hrun⟩

theorem start_inv : Inv start := by
  refine ⟨?_, ?_⟩ <;> simp [places, line, start, emptyQ, RingQ.contents, RingQ.level]

theorem frames_kept_iff (evs : List Event) : RunGoesWell start evs ↔ RunPlain start evs := run_well_iff start_inv evs

/-- Seventeen frames wait upstream when the provider is registered: all of them are lost. -/
theorem burst_lost :
    let s := step (step start .reg) (.tick false false 17 [])
    s.taken = 17 ∧ s.queuedQ.contents = [] ∧ s.readyQ.contents = [] ∧ s.hands = [] ∧ s.returned = [] ∧ ¬ Kept s := by
  refine ⟨by decide, by decide, by decide, rfl, rfl, ?_⟩
  intro hkept
  have hfirst := hkept 0 (by decide)
  revert hfirst
  decide

end AmlogicV901d.Guarantees.VideosyncFrames
