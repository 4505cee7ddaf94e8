import Mathlib.Data.List.Basic

/-!
# Streams fed piece by piece

A consumer is called with a buffer and reports how many elements at its end it
did not use; the next call gets those in front of the next piece. A consumer may
also see side information with every piece. An invariant over (state, carried
elements, rest of the stream) that every call preserves holds at the end of the
stream, for all cuts that satisfy a condition on the rest.
-/
namespace AmlogicV901d.Lib.Streaming

open List

variable {σ α β : Type}

/-- The last `n` elements. -/
def unused (buffer : List α) (n : Nat) : List α := buffer.drop (buffer.length - n)

theorem unused_append {used rest : List α} : unused (used ++ rest) rest.length = rest := by
  rw [unused, length_append, Nat.add_sub_cancel, drop_left]

theorem arrived {buffer future item later : List α} (h : buffer ++ future = item ++ later)
    (hlen : item.length ≤ buffer.length) : ∃ tail, buffer = item ++ tail ∧ tail ++ future = later := by
  obtain ⟨more, hitem, hfuture⟩ | ⟨tail, hbuffer, hlater⟩ := append_eq_append_iff.mp h
  · have hmore : more = [] := by
      rw [hitem, length_append] at hlen
      exact length_eq_zero_iff.mp (by omega)
    subst hmore
    exact ⟨[], by simpa using hitem.symm, by simpa using hfuture⟩
  · exact ⟨tail, hbuffer, hlater.symm⟩

theorem awaited {buffer future item later : List α} (h : buffer ++ future = item ++ later)
    (hlen : buffer.length < item.length) : ∃ more, more ≠ [] ∧ item = buffer ++ more ∧ future = more ++ later := by
  obtain ⟨more, hitem, hfuture⟩ | ⟨tail, hbuffer, _⟩ := append_eq_append_iff.mp h
  · refine ⟨more, fun hnil => ?_, hitem, hfuture⟩
    rw [hitem, hnil, append_nil] at hlen
    exact absurd hlen (Nat.lt_irrefl _)
  · rw [hbuffer, length_append] at hlen
    omega

/-- `none` from a call ends the run. -/
def feed (call : β → σ → List α → Option (σ × Nat)) : σ → List α → List (List α × β) → Option (σ × List α)
  | s, carry, [] => some (s, carry)
  | s, carry, (piece, b) :: rest =>
    match call b s (carry ++ piece) with
    | none => none
    | some (s', n) => feed call s' (unused (carry ++ piece) n) rest

/-- The stream that was cut. -/
def joined (pieces : List (List α × β)) : List α := pieces.flatMap Prod.fst

/-- A condition on what is left of the stream behind each cut. -/
def CutsSatisfy (good : List α → Prop) : List (List α × β) → Prop
  | [] => True
  | _ :: rest => good (joined rest) ∧ CutsSatisfy good rest

theorem feed_invariant {call : β → σ → List α → Option (σ × Nat)} {Inv : σ → List α → List α → Prop}
    {good fits : List α → Prop} (hcall : ∀ b s carry piece rest, Inv s carry (piece ++ rest) → fits piece → good rest →
      ∃ s' n, call b s (carry ++ piece) = some (s', n) ∧ Inv s' (unused (carry ++ piece) n) rest)
    {pieces : List (List α × β)} {s : σ} {carry : List α} (hinv : Inv s carry (joined pieces))
    (hfits : ∀ p ∈ pieces, fits p.1) (hcuts : CutsSatisfy good pieces) :
    ∃ s' carry', feed call s carry pieces = some (s', carry') ∧ Inv s' carry' [] := by
  induction pieces generalizing s carry with
  | nil => exact ⟨s, carry, rfl, hinv⟩
  | cons p rest ih =>
    obtain ⟨s', n, hrun, hnext⟩ := hcall p.2 s carry p.1 (joined rest) hinv
      (hfits p (mem_cons_self ..)) hcuts.1
    obtain ⟨s'', carry'', hfeed, hend⟩ :=
      ih hnext (fun q hq => hfits q (.tail _ hq)) hcuts.2
    refine ⟨s'', carry'', ?_, hend⟩
    rw [feed, hrun]
    exact hfeed

end AmlogicV901d.Lib.Streaming
