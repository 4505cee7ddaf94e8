/-!
# Steps of a run that may fault
-/
namespace AmlogicV901d.Lib.Runs

/-- `Plain` is what a step needs to go well, and what is asked of the rest of the run can be
exchanged behind it. -/
theorem step_iff {σ : Type _} {next : Option σ} {Well Rest Rest' : σ → Prop} {Plain : Prop}
    (hneed : ∀ s, next = some s → Well s → Plain) (hgo : Plain → ∃ s, next = some s ∧ Well s ∧ (Rest s ↔ Rest' s)) :
    (∃ s, next = some s ∧ Well s ∧ Rest s) ↔ Plain ∧ ∀ s, next = some s → Rest' s := by
  constructor
  · rintro ⟨s, hs, hwell, hrest⟩
    have hplain := hneed s hs hwell
    obtain ⟨s', hs', -, hiff⟩ := hgo hplain
    obtain rfl := Option.some.inj (hs.symm.trans hs')
    refine ⟨hplain, fun s'' hs'' => ?_⟩
    obtain rfl := Option.some.inj (hs.symm.trans hs'')
    exact hiff.mp hrest
  · rintro ⟨hplain, hrest⟩
    obtain ⟨s, hs, hwell, hiff⟩ := hgo hplain
    exact ⟨s, hs, hwell, hiff.mpr (hrest s hs)⟩

section Along
variable {σ ε : Type} {step : σ → ε → σ} {I : σ → Prop} {R P Q : σ → ε → Prop} {s : σ} {es : List ε}

/-- A condition on every event of a run and the state it finds. -/
def Along (step : σ → ε → σ) (P : σ → ε → Prop) : σ → List ε → Prop
  | _, [] => True
  | s, e :: es => P s e ∧ Along step P (step s e) es

/-- Two conditions on a run are the same if they are the same of an event where the invariant holds, and keep it. -/
theorem along_iff (hstep : ∀ s e, I s → R s e → (P s e ↔ Q s e) ∧ (Q s e → I (step s e))) (hs : I s)
    (hrun : Along step R s es) : Along step P s es ↔ Along step Q s es := by
  induction es generalizing s with
  | nil => exact .rfl
  | cons e es ih =>
    obtain ⟨hiff, hkeep⟩ := hstep s e hs hrun.1
    rw [Along, Along, hiff]
    exact and_congr_right fun hq => ih (hkeep hq) hrun.2

theorem along_of_forall (h : ∀ s e, P s e) : Along step P s es := by
  induction es generalizing s with
  | nil => trivial
  | cons e es ih => exact ⟨h s e, ih⟩

end Along

end AmlogicV901d.Lib.Runs
