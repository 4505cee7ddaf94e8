import Mathlib.Data.List.Nodup
import Mathlib.Data.List.Perm.Subperm
import Mathlib.Data.List.Range
import AmlogicV901d.Lib.Runs
import AmlogicV901d.Source.Ionvideo

/-!
# Buffers of the ion video capture device

The index of a buffer comes from the user and is not looked at: it can be outside of the
tables, and it can be the index of a buffer that is still queued, whose description is then
overwritten. The count that poll reports is neither cleared with the queues nor the queues
with the count. While indices are in range and not in use, and streaming is turned on and
off with no filled buffer waiting, the device keeps every buffer and returns them in order.
-/
namespace AmlogicV901d.Guarantees.IonvideoBuffers
open Lib.RingQueue List Function
open RingQ (contents_length peek_eq contents_init)
open Source.Ionvideo

variable {dev dev' : Dev} {index : Nat} {ev : Event}

/-! ## What is asked of a run -/

/-- The descriptions in the input queue. -/
def waiting (dev : Dev) : List Nat := dev.inputQueue.contents.map dev.input

/-- The descriptions in the output queue. -/
def filled (dev : Dev) : List Nat := dev.outputQueue.contents.map dev.input

/-- Every queued description is in one queue, or came back, or was there when streaming was
turned off. -/
def Kept (dev : Dev) : Prop :=
  ∀ n < dev.queued, (waiting dev).count n + (filled dev).count n + dev.returned.count n + dev.stopped.count n = 1

structure GoesWell (dev : Dev) : Prop where
  kept : Kept dev
  order : dev.returned.Pairwise (· < ·)
  poll : vidiocPoll dev = true ↔ dev.outputQueue.contents ≠ []

/-- No step of the run faults and every one goes well. -/
def RunGoesWell : Dev → List Event → Prop
  | _, [] => True
  | dev, ev :: evs => ∃ dev', step dev ev = some dev' ∧ GoesWell dev' ∧ RunGoesWell dev' evs

/-- The indices that are in use. -/
def pending (dev : Dev) : List Nat := dev.inputQueue.contents ++ dev.outputQueue.contents

/-- The condition on an event and the state before it. -/
def Plain (dev : Dev) : Event → Prop
  | .qbuf index dmaBuf =>
    index < ppmgr2MaxCanvas ∧ (dev.phyAddr index = 0 → dmaBuf ≠ none) ∧ index ∉ pending dev
  | .streamon | .streamoff => dev.outputQueue.contents = []
  | .tick _ _ | .dqbuf => True

def RunPlain : Dev → List Event → Prop
  | _, [] => True
  | dev, ev :: evs => Plain dev ev ∧ ∀ dev', step dev ev = some dev' → RunPlain dev' evs

/-! ## The invariant -/

def places (dev : Dev) : List Nat := waiting dev ++ (filled dev ++ (dev.returned ++ dev.stopped))

/-- What came back and what will, in order. -/
def line (dev : Dev) : List Nat := dev.returned ++ (filled dev ++ waiting dev)

structure Inv (dev : Dev) : Prop where
  indices : (pending dev).Nodup
  bound : ∀ i ∈ pending dev, i < ppmgr2MaxCanvas
  ready : dev.vbReady = dev.outputQueue.level
  places : (places dev).Perm (List.range dev.queued)
  line : (line dev).Sublist (List.range dev.queued)

section
variable (h : Inv dev)
include h

theorem Inv.goesWell : GoesWell dev where
  kept n hn := by
    have hcount := h.places.count_eq n
    rw [count_eq_one_of_mem nodup_range (mem_range.mpr hn)] at hcount
    simp only [IonvideoBuffers.places, count_append] at hcount
    omega
  order := List.Pairwise.sublist ((sublist_append_left _ _).trans h.line) pairwise_lt_range
  poll := by
    simp only [vidiocPoll, h.ready, decide_eq_true_eq, ← length_pos_iff, contents_length]
    omega

theorem Inv.level_le : dev.inputQueue.level + dev.outputQueue.level ≤ ppmgr2MaxCanvas := by
  have hsub : pending dev ⊆ List.range ppmgr2MaxCanvas := fun i hi => mem_range.mpr (h.bound i hi)
  have hle := (h.indices.subperm hsub).length_le
  simpa [pending] using hle

/-! ## Queueing a buffer -/

omit h in
theorem map_update {l : List Nat} (f : Nat → Nat) (n : Nat) (h : index ∉ l) : l.map (update f index n) = l.map f := by
  apply map_congr_left
  intro i hi
  rw [update_of_ne]
  rintro rfl
  exact h hi

theorem enqueue_inv (hindex : index < ppmgr2MaxCanvas) (hfree : index ∉ pending dev) : Inv (enqueue index dev) := by
  have hfree' := hfree
  rw [pending, mem_append, not_or] at hfree
  have hroom : dev.inputQueue.level + 1 < ionvideoPoolSize + 1 := by
    have hsub : index :: pending dev ⊆ List.range ppmgr2MaxCanvas := by
      intro i hi
      rw [mem_range]
      rcases mem_cons.mp hi with rfl | hi
      · exact hindex
      · exact h.bound i hi
    have hle := ((nodup_cons.mpr ⟨hfree', h.indices⟩).subperm hsub).length_le
    rw [length_cons, pending, length_append, contents_length, length_range] at hle
    have hsize : ppmgr2MaxCanvas = ionvideoPoolSize := rfl
    omega
  have hpush := dev.inputQueue.contents_push index hroom
  have hwaiting : waiting (enqueue index dev) = waiting dev ++ [dev.queued] := by
    simp only [waiting, enqueue, hpush, map_append, map_update _ _ hfree.1]
    simp
  have hfilled : filled (enqueue index dev) = filled dev := map_update _ _ hfree.2
  have hpending : (pending (enqueue index dev)).Perm (index :: pending dev) := by
    simp only [pending, enqueue, hpush, append_assoc, singleton_append]
    exact perm_middle
  have hrange : List.range (enqueue index dev).queued = List.range dev.queued ++ [dev.queued] := range_succ
  refine ⟨?_, ?_, h.ready, ?_, ?_⟩
  · rw [hpending.nodup_iff, nodup_cons]
    exact ⟨hfree', h.indices⟩
  · intro i hi
    rcases mem_cons.mp (hpending.mem_iff.mp hi) with rfl | hi
    · exact hindex
    · exact h.bound i hi
  · rw [hrange]
    refine List.Perm.trans ?_ (h.places.append_right [dev.queued])
    unfold places
    rw [hwaiting, hfilled, append_assoc, append_assoc]
    exact .append_left _ perm_append_comm
  · rw [hrange]
    have hline : line (enqueue index dev) = line dev ++ [dev.queued] := by
      simp [line, hwaiting, hfilled]
    rw [hline]
    exact h.line.append (List.Sublist.refl _)

variable {dmaBuf : Option Nat}

omit h in
theorem mapIndex_eq (h : mapIndex index dmaBuf dev = some dev') :
    ∃ phyAddr, dev' = { dev with phyAddr := phyAddr } := by
  unfold mapIndex at h
  split at h
  · obtain ⟨addr, -, rfl⟩ := Option.map_eq_some_iff.mp h
    exact ⟨_, rfl⟩
  · cases h
    exact ⟨dev.phyAddr, rfl⟩

omit h in
theorem mapIndex_isSome : (mapIndex index dmaBuf dev).isSome = true ↔ (dev.phyAddr index = 0 → dmaBuf ≠ none) := by
  unfold mapIndex
  split
  · rename_i hnull
    simp [hnull, Option.isSome_iff_ne_none]
  · rename_i hmapped
    simp [hmapped]

omit h in
theorem qbuf_eq (hindex : index < ppmgr2MaxCanvas) :
    vidiocQbuf index dmaBuf dev = mapIndex index dmaBuf (enqueue index dev) := by
  simp only [ppmgr2MaxCanvas] at hindex
  unfold vidiocQbuf
  rw [if_neg (by simp only [ionvideoPoolSize]; omega), if_neg (by simp only [ppmgr2MaxCanvas]; omega)]

theorem Inv.nodup_places : (IonvideoBuffers.places dev).Nodup := h.places.nodup_iff.mpr nodup_range

theorem Inv.input_injOn {i j : Nat} (hi : i ∈ pending dev) (hj : j ∈ pending dev) (heq : dev.input i = dev.input j) :
    i = j := by
  have hnodup := h.nodup_places
  rw [IonvideoBuffers.places, ← append_assoc, nodup_append] at hnodup
  have hmap : ((pending dev).map dev.input).Nodup := by
    rw [pending, map_append]
    exact hnodup.1
  exact inj_on_of_nodup_map hmap hi hj heq

theorem Inv.input_pending (hused : index ∈ pending dev) :
    dev.input index < dev.queued ∧ dev.input index ∉ dev.returned ∧ dev.input index ∉ dev.stopped := by
  have hmem : dev.input index ∈ waiting dev ++ filled dev := by
    rw [waiting, filled, ← map_append]
    exact mem_map_of_mem hused
  have hnodup := h.nodup_places
  rw [IonvideoBuffers.places, ← append_assoc, nodup_append] at hnodup
  obtain ⟨-, -, hapart⟩ := hnodup
  have hplace : dev.input index ∈ IonvideoBuffers.places dev := by
    rw [IonvideoBuffers.places, ← append_assoc]
    exact mem_append_left _ hmem
  refine ⟨mem_range.mp (h.places.mem_iff.mp hplace), ?_, ?_⟩
  · intro hdone
    exact hapart _ hmem _ (mem_append_left _ hdone) rfl
  · intro hdone
    exact hapart _ hmem _ (mem_append_right _ hdone) rfl

/-- The entry of a buffer that is in use is overwritten: what the user queued there is in no
place any more. -/
theorem enqueue_loses (hused : index ∈ pending dev) : ¬ Kept (enqueue index dev) := by
  obtain ⟨hlt, hreturned, hstopped⟩ := h.input_pending hused
  -- every entry the queues still show has another description
  have hother : ∀ i, (i ∈ pending dev ∨ i = index) → (enqueue index dev).input i ≠ dev.input index := by
    intro i hi heq
    by_cases hsame : i = index
    · subst hsame
      simp only [enqueue, update_self] at heq
      omega
    · simp only [enqueue, update_of_ne hsame] at heq
      exact hsame (h.input_injOn (hi.resolve_right hsame) hused heq)
  have hwaiting : dev.input index ∉ waiting (enqueue index dev) := by
    intro hmem
    obtain ⟨i, hi, heq⟩ := mem_map.mp hmem
    exact hother i ((RingQ.mem_contents_push hi).imp_left (mem_append_left _)) heq
  have hfilled : dev.input index ∉ filled (enqueue index dev) := by
    intro hmem
    obtain ⟨i, hi, heq⟩ := mem_map.mp hmem
    exact hother i (.inl (mem_append_right _ hi)) heq
  intro hkept
  have hone := hkept (dev.input index) (Nat.lt_succ_of_lt hlt)
  rw [count_eq_zero.mpr hwaiting, count_eq_zero.mpr hfilled, enqueue_returned,
    enqueue_stopped, count_eq_zero.mpr hreturned,
    count_eq_zero.mpr hstopped] at hone
  omega

/-! ## The other events -/

theorem finishBuffer_inv (hpeek : dev.inputQueue.peek = some index) : Inv (finishBuffer index dev) := by
  have hinput := dev.inputQueue.contents_of_peek hpeek
  have hlevel := h.level_le
  have hpos : 0 < dev.inputQueue.level := by
    rw [← contents_length, hinput]
    exact Nat.succ_pos _
  have hsize : ppmgr2MaxCanvas = ionvideoPoolSize := rfl
  have hpush := dev.outputQueue.contents_push index (by omega)
  have hwaiting : waiting dev = dev.input index :: waiting (finishBuffer index dev) := by
    simp [waiting, finishBuffer, hinput]
  have hfilled : filled (finishBuffer index dev) = filled dev ++ [dev.input index] := by
    simp [filled, finishBuffer, hpush]
  have hpending : (pending (finishBuffer index dev)).Perm (pending dev) := by
    simp only [pending, finishBuffer, hpush, hinput]
    rw [← append_assoc]
    exact (perm_append_singleton index _).trans (.of_eq (cons_append).symm)
  refine ⟨hpending.nodup_iff.mpr h.indices, fun i hi => h.bound i (hpending.mem_iff.mp hi), ?_, ?_, ?_⟩
  · have hready := h.ready
    have hout : (finishBuffer index dev).outputQueue.level = dev.outputQueue.level + 1 := by
      rw [← contents_length, finishBuffer, hpush, length_append, contents_length, length_singleton]
    rw [hout]
    simp only [finishBuffer, hready]
    omega
  · refine List.Perm.trans ?_ h.places
    unfold places
    rw [hwaiting, hfilled, append_assoc, singleton_append, cons_append, ← append_assoc,
      ← append_assoc]
    exact perm_middle
  · have hline : line (finishBuffer index dev) = line dev := by
      simp [line, hwaiting, hfilled]
    rw [hline]
    exact h.line

theorem vidiocDqbuf_inv : Inv (vidiocDqbuf dev) := by
  unfold vidiocDqbuf
  split
  · exact h
  rename_i index hpeek
  have houtput := dev.outputQueue.contents_of_peek hpeek
  have hsub : (dev.inputQueue.contents ++ dev.outputQueue.drop.contents).Sublist (pending dev) := by
    rw [pending, houtput]
    exact .append_left (sublist_cons_self index _) _
  refine ⟨h.indices.sublist hsub, fun i hi => h.bound i (hsub.subset hi), ?_, ?_, ?_⟩
  · have hready := h.ready
    have hlevel : dev.outputQueue.level = dev.outputQueue.drop.level + 1 := by
      rw [← contents_length, ← contents_length, houtput, length_cons]
    dsimp only
    omega
  · refine List.Perm.trans ?_ h.places
    simp only [places, waiting, filled, houtput, map_cons, append_assoc]
    apply Perm.append_left
    rw [singleton_append, cons_append, ← append_assoc, ← append_assoc]
    exact perm_middle
  · have hsame := h.line
    rw [line, filled, houtput, map_cons, cons_append, ← singleton_append, ← append_assoc] at hsame
    exact hsame

theorem streamon_inv (hnone : dev.outputQueue.contents = []) : Inv (vidiocStreamon dev) := by
  have hlevel : dev.outputQueue.level = 0 := by rw [← contents_length, hnone, length_nil]
  exact { h with ready := by simp [vidiocStreamon, hlevel] }

theorem streamoff_inv (hnone : dev.outputQueue.contents = []) : Inv (vidiocStreamoff dev) := by
  have hlevel : dev.outputQueue.level = 0 := by rw [← contents_length, hnone, length_nil]
  have hready := h.ready
  refine ⟨?_, ?_, ?_, ?_, ?_⟩
  · exact nodup_nil
  · intro i hi
    exact nomatch hi
  · have hinit : dev.outputQueue.init.level = 0 := by rw [← contents_length, contents_init, length_nil]
    simp only [vidiocStreamoff, hinit]
    omega
  · refine List.Perm.trans ?_ h.places
    simp only [places, waiting, filled, vidiocStreamoff, contents_init, hnone, map_nil, nil_append,
      append_nil]
    rw [← append_assoc]
    exact perm_append_comm
  · refine List.Sublist.trans ?_ h.line
    simp only [line, waiting, filled, vidiocStreamoff, contents_init, map_nil, append_nil]
    exact sublist_append_left _ _

theorem tick_inv {reached : Bool} {ret : Int} : ∃ dev', ionvideoThreadTick reached ret dev = some dev' ∧ Inv dev' := by
  unfold ionvideoThreadTick
  split
  · split
    · exact ⟨dev, rfl, h⟩
    rename_i index hpeek
    have hmem : index ∈ dev.inputQueue.contents := by
      rw [peek_eq] at hpeek
      exact mem_of_mem_head? hpeek
    have hbound := h.bound index (mem_append_left _ hmem)
    rw [if_neg (Nat.not_le_of_lt hbound)]
    split
    · exact ⟨dev, rfl, h⟩
    · exact ⟨_, rfl, finishBuffer_inv h hpeek⟩
  · exact ⟨dev, rfl, h⟩

/-! ## Steps and runs -/

theorem step_inv (hplain : Plain dev ev) : ∃ dev', step dev ev = some dev' ∧ Inv dev' := by
  cases ev with
  | qbuf index dmaBuf =>
    obtain ⟨hindex, hbuf, hfree⟩ := hplain
    have hsome : (mapIndex index dmaBuf (enqueue index dev)).isSome := mapIndex_isSome.mpr hbuf
    obtain ⟨dev', hmap⟩ := Option.isSome_iff_exists.mp hsome
    obtain ⟨phyAddr, rfl⟩ := mapIndex_eq hmap
    have hinv := enqueue_inv h hindex hfree
    refine ⟨_, (qbuf_eq hindex).trans hmap, ?_⟩
    exact { hinv with }
  | tick reached ret => exact tick_inv h
  | dqbuf => exact ⟨_, rfl, vidiocDqbuf_inv h⟩
  | streamon => exact ⟨_, rfl, streamon_inv h hplain⟩
  | streamoff => exact ⟨_, rfl, streamoff_inv h hplain⟩

theorem qbuf_plain (hstep : vidiocQbuf index dmaBuf dev = some dev') (hkept : Kept dev') :
    Plain dev (.qbuf index dmaBuf) := by
  have hindex : index < ppmgr2MaxCanvas := by
    by_contra hge
    unfold vidiocQbuf at hstep
    rw [if_pos (Nat.le_of_not_lt hge)] at hstep
    split at hstep <;> simp at hstep
  rw [qbuf_eq hindex] at hstep
  refine ⟨hindex, ?_, ?_⟩
  · have hsome : (mapIndex index dmaBuf (enqueue index dev)).isSome = true := by
      rw [hstep]
      rfl
    have hmapped := mapIndex_isSome.mp hsome
    exact hmapped
  · intro hused
    obtain ⟨phyAddr, rfl⟩ := mapIndex_eq hstep
    exact enqueue_loses h hused hkept

theorem plain_of_goesWell (hstep : step dev ev = some dev') (hwell : GoesWell dev') : Plain dev ev := by
  have hready := h.ready
  cases ev with
  | qbuf index dmaBuf => exact qbuf_plain h hstep hwell.kept
  | tick reached ret | dqbuf => trivial
  | streamon =>
    cases hstep
    by_contra hsome
    have hpoll := hwell.poll.mpr hsome
    simp [vidiocPoll, vidiocStreamon] at hpoll
  | streamoff =>
    cases hstep
    by_contra hsome
    have hpos := length_pos_iff.mpr hsome
    rw [contents_length] at hpos
    have hreports : vidiocPoll (vidiocStreamoff dev) = true := by
      simp only [vidiocPoll, vidiocStreamoff, hready, decide_eq_true_eq]
      omega
    exact hwell.poll.mp hreports (contents_init _)

theorem run_well_iff (evs : List Event) : RunGoesWell dev evs ↔ RunPlain dev evs := by
  induction evs generalizing dev with
  | nil => exact .rfl
  | cons ev evs ih =>
    refine Lib.Runs.step_iff (fun dev' => plain_of_goesWell h) fun hplain => ?_
    obtain ⟨dev', hstep, hinv⟩ := step_inv h hplain
    exact ⟨dev', hstep, hinv.goesWell, ih hinv⟩

end

theorem opened_inv : Inv opened := by
  refine ⟨?_, ?_, ?_, ?_, ?_⟩ <;>
    simp [pending, places, line, waiting, filled, opened, emptyQueue, RingQ.contents, RingQ.level]

theorem buffers_kept_iff (evs : List Event) : RunGoesWell opened evs ↔ RunPlain opened evs := run_well_iff opened_inv evs

def runFrom : Dev → List Event → Option Dev
  | dev, [] => some dev
  | dev, ev :: evs => (step dev ev).bind fun dev' => runFrom dev' evs

/-- Index 16 is outside of `phy_addr`. A buffer that is queued twice comes back twice with the
second description. A filled buffer is still reported after streaming was turned off. -/
theorem user_breaks_queues : vidiocQbuf 16 (some 4096) opened = none ∧
      ((runFrom opened [.qbuf 0 (some 4096), .qbuf 0 (some 4096), .tick true 0, .tick true 0, .dqbuf, .dqbuf]).map
        fun dev => dev.returned) = some [1, 1] ∧
      ((runFrom opened [.qbuf 0 (some 4096), .streamon, .tick true 0, .streamoff]).map
        fun dev => (vidiocPoll dev, dev.outputQueue.contents)) = some (true, []) := by
  decide

end AmlogicV901d.Guarantees.IonvideoBuffers
