/-!
# Pre- and postconditions of state programs

`Triple P x Q`: from every state with `P` the program `x` ends with `Q` of its result and
state. `Keeps I x` is the triple of an invariant. One rule for each way programs are
put together.
-/
namespace AmlogicV901d.Lib.StateTriple

variable {σ α β : Type}

def Triple (P : σ → Prop) (x : StateM σ α) (Q : α → σ → Prop) : Prop :=
  ∀ s, P s → Q (x s).1 (x s).2

/-- An invariant is kept, whatever the result. -/
def Keeps (I : σ → Prop) (x : StateM σ α) : Prop := Triple I x fun _ => I

theorem get_bind (f : σ → StateM σ α) (s : σ) : (get >>= f : StateM σ α) s = f s s := rfl

variable {x : StateM σ α}

theorem bind_run {s s' : σ} {a : α} (h : x s = (a, s')) (f : α → StateM σ β) : (x >>= f) s = f a s' := by
  show f (x s).1 (x s).2 = f a s'
  rw [h]

theorem Triple.bind {P : σ → Prop} {R : α → σ → Prop} {f : α → StateM σ β} {Q : β → σ → Prop} (hx : Triple P x R)
    (hf : ∀ a, Triple (R a) (f a) Q) : Triple P (x >>= f) Q :=
  fun s h => hf _ _ (hx s h)

theorem Triple.get {P : σ → Prop} : Triple P (get : StateM σ σ) fun a s => a = s ∧ P s :=
  fun _ h => ⟨rfl, h⟩

theorem Triple.imp {P P' : σ → Prop} {Q Q' : α → σ → Prop} (h : Triple P x Q) (hpre : ∀ s, P' s → P s)
    (hpost : ∀ a s, Q a s → Q' a s) : Triple P' x Q' :=
  fun s hs => hpost _ _ (h s (hpre s hs))

theorem Triple.assume {P : σ → Prop} {c : Prop} {Q : α → σ → Prop} (hc : ∀ s, P s → c) (h : c → Triple P x Q) :
    Triple P x Q :=
  fun s hs => h (hc s hs) s hs

theorem Triple.ite {P : σ → Prop} {c : Prop} [Decidable c] {x y : StateM σ α} {Q : α → σ → Prop}
    (hx : c → Triple P x Q) (hy : ¬ c → Triple P y Q) : Triple P (if c then x else y) Q := by
  by_cases hc : c
  · rw [if_pos hc]
    exact hx hc
  · rw [if_neg hc]
    exact hy hc

theorem Keeps.pure {I : σ → Prop} (a : α) : Keeps I (pure a : StateM σ α) := fun _ h => h

theorem Keeps.get {I : σ → Prop} : Keeps I (get : StateM σ σ) := fun _ h => h

theorem Keeps.bind {I : σ → Prop} {f : α → StateM σ β} (hx : Keeps I x) (hf : ∀ a, Keeps I (f a)) : Keeps I (x >>= f) :=
  fun s h => hf _ _ (hx s h)

theorem Keeps.modify {I : σ → Prop} {f : σ → σ} (h : ∀ s, I s → I (f s)) : Keeps I (modify f : StateM σ PUnit) :=
  fun s hs => h s hs

theorem Keeps.ite {I : σ → Prop} {c : Prop} [Decidable c] {x y : StateM σ α} (hx : Keeps I x)
    (hy : Keeps I y) : Keeps I (if c then x else y) :=
  Triple.ite (fun _ => hx) fun _ => hy

/-! ## Programs that may fail -/

/-- What holds of every result. -/
def Ensures (x : StateT σ Option α) (P : α → Prop) : Prop := ∀ s a s', x s = some (a, s') → P a

theorem Ensures.pure {P : α → Prop} {a : α} (h : P a) : Ensures (pure a : StateT σ Option α) P := by
  intro s b s' hrun
  obtain rfl : a = b := congrArg Prod.fst (Option.some.inj hrun)
  exact h

theorem Ensures.fail {P : α → Prop} : Ensures (fun _ => none : StateT σ Option α) P :=
  nofun

theorem Ensures.bind {P : β → Prop} {x : StateT σ Option α} {f : α → StateT σ Option β} (h : ∀ a, Ensures (f a) P) :
    Ensures (x >>= f) P := by
  intro s b s' hrun
  obtain ⟨⟨a, s1⟩, _, hf⟩ := Option.bind_eq_some_iff.mp hrun
  exact h a s1 b s' hf

theorem Ensures.ite {P : α → Prop} {c : Prop} [Decidable c] {x y : StateT σ Option α} (hx : c → Ensures x P)
    (hy : ¬ c → Ensures y P) : Ensures (if c then x else y) P := by
  by_cases hc : c
  · rw [if_pos hc]
    exact hx hc
  · rw [if_neg hc]
    exact hy hc

end AmlogicV901d.Lib.StateTriple
