import AmlogicV901d.Source.AmlDmxExt
import AmlogicV901d.Lib.Runs
import Mathlib.Data.List.Nodup

/-!
# The recording PIDs that the user has read

`dmx_ext_add_pvr_pid` notes that there is something to read, `dmx_ext_remove_pvr_pid` does not. A PID that is
removed while nothing is noted stays in the block that the user has.
-/
namespace AmlogicV901d.Guarantees.RecordingPids
open Lib.Runs Source.AmlDmxExt List

inductive Call where
  | add (pid : Int)
  | remove (pid : Int)
  | read

structure World where
  /-- the PIDs that were added and not removed since, in this order -/
  pids : List Int
  sys : Sys
  /-- what the user has read last -/
  block : List Int

variable {k : Kernel} {id : Id} {w : World} {call : Call}

def World.step (k : Kernel) (id : Id) (w : World) : Call → World
  | .add pid => ⟨if pid ∈ w.pids then w.pids else w.pids ++ [pid], (dmxExtAddPvrPid k id pid w.sys).1, w.block⟩
  | .remove pid => ⟨w.pids.erase pid, (dmxExtRemovePvrPid id pid w.sys).1, w.block⟩
  | .read => ⟨w.pids, (dmxExtRead id w.sys).2, (dmxExtRead id w.sys).1.getD w.block⟩

/-- The list is that of the PIDs, and the user has it unless there is something to read. -/
structure Current (id : Id) (w : World) : Prop where
  list : (w.sys.data id).pvrPid = w.pids
  once : w.pids.Nodup
  read : (w.sys.data id).update = false → w.block = w.pids

/-- A PID is removed only while there is something to read. -/
def Noted (id : Id) (w : World) (call : Call) : Prop :=
  ∀ pid ∈ w.pids, call = .remove pid → (w.sys.data id).update = true

theorem step_current (h : Current id w) (hused : (w.sys.data id).used = true) (hroom : (w.step k id call).pids.length ≤ k.pvrPidNum) :
    ((w.step k id call).sys.data id).used = true ∧ (Current id (w.step k id call) ↔ Noted id w call) := by
  have hlist := h.list
  cases call with
  | add pid =>
    by_cases hmem : pid ∈ w.pids
    · have hstep : w.step k id (.add pid) = w := by simp [World.step, dmxExtAddPvrPid, hlist, hmem]
      rw [hstep]
      exact ⟨hused, iff_of_true h nofun⟩
    · simp only [World.step, hmem, if_false, length_append] at hroom
      have hstep : w.step k id (.add pid) = { w with
          pids := w.pids ++ [pid]
          sys := w.sys.setData id { w.sys.data id with pvrPid := w.pids ++ [pid], update := true } } := by
        simp [World.step, dmxExtAddPvrPid, hlist, hused, hmem, show w.pids.length < k.pvrPidNum from hroom]
      rw [hstep]
      exact ⟨by simp [hused], iff_of_true ⟨by simp, by simpa using h.once.concat hmem, by simp⟩ nofun⟩
  | remove pid =>
    by_cases hmem : pid ∈ w.pids
    · have hstep : w.step k id (.remove pid) = { w with
          pids := w.pids.erase pid
          sys := w.sys.setData id { w.sys.data id with pvrPid := w.pids.erase pid } } := by
        simp [World.step, dmxExtRemovePvrPid, hlist, hused, hmem]
      rw [hstep]
      refine ⟨by simp [hused], fun hcurrent _ _ _ => ?_, fun hnoted => ⟨by simp, h.once.erase pid, fun hno => ?_⟩⟩
      · rw [← Bool.not_eq_false]
        intro hno
        have hsame := (h.read hno).symm.trans (hcurrent.read (by simpa using hno))
        exact erase_eq_self_iff.mp hsame.symm hmem
      · rw [setData_self] at hno
        exact nomatch hno.symm.trans (hnoted pid hmem rfl)
    · have hstep : w.step k id (.remove pid) = w := by
        simp [World.step, dmxExtRemovePvrPid, hlist, hmem, erase_of_not_mem hmem]
      rw [hstep]
      refine ⟨hused, iff_of_true h ?_⟩
      rintro _ hmem' ⟨⟩
      exact absurd hmem' hmem
  | read =>
    rw [World.step, dmxExtRead]
    cases hupdate : (w.sys.data id).update with
    | true => exact ⟨by simp [hused], iff_of_true ⟨by simp [hlist], h.once, fun _ => hlist⟩ nofun⟩
    | false => exact ⟨hused, iff_of_true h nofun⟩

/-- From a device in use that has no PIDs, the list and what the user has of it are current exactly if every
PID is removed while there is something to read. -/
theorem pids_read_iff {s : Sys} (hused : (s.data id).used = true) (hnone : (s.data id).pvrPid = []) (calls : List Call)
    (hroom : Along (World.step k id) (fun w call => (w.step k id call).pids.length ≤ k.pvrPidNum) ⟨[], s, []⟩ calls) :
    Along (World.step k id) (fun w call => Current id (w.step k id call)) ⟨[], s, []⟩ calls ↔
      Along (World.step k id) (Noted id) ⟨[], s, []⟩ calls := by
  refine along_iff (I := fun w => Current id w ∧ (w.sys.data id).used = true) (fun w call h hroom => ?_)
    ⟨⟨hnone, nodup_nil, fun _ => rfl⟩, hused⟩ hroom
  obtain ⟨hstill, hiff⟩ := step_current h.1 h.2 hroom
  exact ⟨hiff, fun hnoted => ⟨hiff.mpr hnoted, hstill⟩⟩

/-- After `dmx_ext_init`. -/
def ready : Sys := (dmxExtInit ⟨0, Nat.zero_lt_succ _⟩ ⟨some 240, true, 0⟩ start).2

theorem removed_before_read : Along (World.step ⟨4, true⟩ 0) (fun w call => Current 0 (w.step ⟨4, true⟩ 0 call)) ⟨[], ready, []⟩
    [.add 256, .add 257, .remove 256, .read] := by
  refine (pids_read_iff rfl rfl _ ?_).mpr ?_
  · exact ⟨by decide, by decide, by decide, by decide, trivial⟩
  · exact ⟨nofun, nofun, fun _ _ _ => rfl, nofun, trivial⟩

theorem removed_unread : let w := [Call.add 256, .read, .remove 256].foldl (World.step ⟨4, true⟩ 0) ⟨[], ready, []⟩
    ((w.sys.data 0).pvrPid, (w.sys.data 0).update, w.block) = ([], false, [256]) := by
  decide

end AmlogicV901d.Guarantees.RecordingPids
