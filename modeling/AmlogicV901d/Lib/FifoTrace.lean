/-!
# Queues with a history

A queue that is a list with its newest element in front. `Ordered entered queue got` relates
all that ever entered the queue, in order, to what is in it and to what was taken from its
other end; elements may also leave the queue in any other way.
-/
namespace AmlogicV901d.Lib.FifoTrace

open List

variable {α : Type} {entered queue queue' got : List α} {a : α}

/-- What was got comes from a part of the history that lies before what is in the queue. -/
def Ordered (entered queue got : List α) : Prop :=
  ∃ past later, entered = past ++ later ∧ got.Sublist past ∧ queue.reverse.Sublist later

theorem Ordered.empty (entered : List α) : Ordered entered [] [] :=
  ⟨entered, [], (append_nil entered).symm, nil_sublist entered, List.Sublist.refl []⟩

theorem Ordered.got_sublist (h : Ordered entered queue got) : got.Sublist entered := by
  obtain ⟨past, later, rfl, hgot, -⟩ := h
  exact hgot.trans (sublist_append_left past later)

theorem Ordered.enter (h : Ordered entered queue got) (a : α) : Ordered (entered ++ [a]) (a :: queue) got := by
  obtain ⟨past, later, rfl, hgot, hqueue⟩ := h
  refine ⟨past, later ++ [a], by rw [append_assoc], hgot, ?_⟩
  rw [reverse_cons]
  exact hqueue.append (List.Sublist.refl [a])

theorem Ordered.leave (h : Ordered entered queue got) (hqueue : queue'.Sublist queue) : Ordered entered queue' got := by
  obtain ⟨past, later, hentered, hgot, hlater⟩ := h
  exact ⟨past, later, hentered, hgot, hqueue.reverse.trans hlater⟩

theorem Ordered.get (h : Ordered entered (queue ++ [a]) got) : Ordered entered queue (got ++ [a]) := by
  obtain ⟨past, later, rfl, hgot, hlater⟩ := h
  rw [reverse_append, reverse_singleton, singleton_append] at hlater
  obtain ⟨skipped, rest, rfl, hmem, hrest⟩ := cons_sublist_iff.mp hlater
  refine ⟨past ++ skipped, rest, by rw [append_assoc], ?_, hrest⟩
  exact hgot.append (singleton_sublist.mpr hmem)

end AmlogicV901d.Lib.FifoTrace
