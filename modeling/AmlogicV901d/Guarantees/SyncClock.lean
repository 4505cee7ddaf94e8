import Mathlib.Algebra.Order.Field.Basic
import Mathlib.Data.Nat.Cast.Order.Field
import Mathlib.Data.Rat.Cast.Order
import Mathlib.Tactic.Linarith
import AmlogicV901d.Source.Videosync

/-!
# The synchronisation clock

An update adds the whole ticks of `90000 * inc / base` and keeps the rest. A change of base
rounds what is kept down, which costs less than a tick; nothing else is lost.
-/
namespace AmlogicV901d.Guarantees.SyncClock
open Source.Videosync

/-! ## Updates -/

/-- An active master whose clock runs, without a manual adjustment. -/
structure Running (s : Clock) : Prop where
  inited : s.videosyncInited = true
  active : s.activeState = .active
  up : s.systemTimeUp = true
  master : s.vmasterMode = true
  adjusted : s.systemTimeIncAdj = 0

/-- The remainder is below the base. -/
structure Scaled (s : Clock) : Prop where
  below : s.systemTimeScaleRemainder < s.systemTimeScaleBase
  base : s.systemTimeScaleBase ≤ 65535

/-- `inc` and `base` of an update. -/
abbrev Call := Int × Nat

/-- A positive `s32`, and a base of 16 bits. -/
structure InRange (c : Call) : Prop where
  positive : 0 < c.1
  word : c.1 < 2 ^ 31
  base : 0 < c.2 ∧ c.2 ≤ 65535

/-- The clock after updates. -/
def updated (s : Clock) (calls : List Call) : Clock := calls.foldl (fun s c => videosyncPcrscrUpdate s c.1 c.2) s

/-- The sum of `90000 * inc / base`. -/
def exactAdvance : List Call → ℚ
  | [] => 0
  | c :: calls => 90000 * c.1 / c.2 + exactAdvance calls

/-- How often the base changes from one call to the next. -/
def baseChanges : List Call → Nat
  | [] | [_] => 0
  | c :: d :: calls => (if c.2 = d.2 then 0 else 1) + baseChanges (d :: calls)

/-- What is kept, in ticks. -/
def kept (s : Clock) : ℚ := s.systemTimeScaleRemainder / s.systemTimeScaleBase

variable {s : Clock} {inc : Int} {base : Nat} {calls : List Call}

theorem Running.rescale (h : Running s) (base : Nat) : Running (s.rescale base) := by
  unfold Clock.rescale
  split <;> exact ⟨h.inited, h.active, h.up, h.master, h.adjusted⟩

theorem Running.advance (h : Running s) (inc : Int) (base : Nat) : Running (s.advance inc base) := by
  unfold Clock.advance
  dsimp only
  split <;> exact ⟨h.inited, h.active, h.up, h.master, h.adjusted⟩

theorem update_eq (h : Running s) : videosyncPcrscrUpdate s inc base = (s.rescale base).advance inc base := by
  rw [videosyncPcrscrUpdate, if_pos ⟨h.inited, h.active⟩]
  dsimp only
  rw [if_pos (h.rescale base).up, if_pos ((h.rescale base).advance inc base).master]

theorem rescale_base (s : Clock) (base : Nat) : (s.rescale base).systemTimeScaleBase = base := by
  unfold Clock.rescale
  split
  · rfl
  next hsame => exact not_not.mp hsame

theorem rescale_self (h : s.systemTimeScaleBase = base) : s.rescale base = s := if_neg (not_not_intro h)

theorem update_rescaled (h : Running s) :
    videosyncPcrscrUpdate s inc base = videosyncPcrscrUpdate (s.rescale base) inc base := by
  rw [update_eq h, update_eq (h.rescale base), rescale_self (rescale_base s base)]

theorem Scaled.kept_mem (h : Scaled s) : 0 ≤ kept s ∧ kept s < 1 := by
  have hpos : (0 : ℚ) < s.systemTimeScaleBase := Nat.cast_pos.mpr (Nat.zero_lt_of_lt h.below)
  exact ⟨div_nonneg (Nat.cast_nonneg _) hpos.le, (div_lt_one hpos).mpr (Nat.cast_lt.mpr h.below)⟩

/-- A new base takes away at most what was kept. -/
theorem rescale_spec (h : Scaled s) (hbase : 0 < base ∧ base ≤ 65535) :
    Scaled (s.rescale base) ∧ (s.rescale base).systemTime = s.systemTime ∧ kept (s.rescale base) ≤ kept s := by
  unfold Clock.rescale
  split
  · have hmul := Nat.mul_lt_mul_of_pos_right h.below hbase.1
    have hword := Nat.mul_le_mul h.base hbase.2
    have hpos : (0 : ℚ) < base := Nat.cast_pos.mpr hbase.1
    rw [kept, kept, Nat.mod_eq_of_lt (by omega), div_le_iff₀ hpos, div_mul_eq_mul_div]
    exact ⟨⟨Nat.div_lt_of_lt_mul hmul, hbase.2⟩, rfl, by exact_mod_cast Nat.cast_div_le⟩
  · exact ⟨h, rfl, le_refl _⟩

/-- The ticks and the new remainder make up the old one and the call. -/
theorem advance_spec (hrun : Running s) (h : Scaled s) (hsame : s.systemTimeScaleBase = base) (hc : InRange (inc, base)) :
    ∃ n : Nat, (s.advance inc base).systemTime % 2 ^ 32 = (s.systemTime + n) % 2 ^ 32 ∧ Scaled (s.advance inc base) ∧
      (s.advance inc base).systemTimeScaleBase = base ∧
      ((s.advance inc base).systemTimeScaleRemainder + n * base : Int) = s.systemTimeScaleRemainder + 90000 * inc := by
  obtain ⟨hpos, hword, hbase⟩ := hc
  have hdividend : ((90000 * inc % 2 ^ 64).toNat : Int) = 90000 * inc := by
    omega
  have hbelow := h.below
  unfold Clock.advance
  dsimp only at hbase ⊢
  rw [hsame] at hbelow ⊢
  rw [hrun.adjusted]
  generalize (90000 * inc % 2 ^ 64).toNat = dividend at *
  have hmod := Nat.mod_lt dividend hbase.1
  have hdiv := Nat.div_add_mod' dividend base
  generalize dividend / base = q, dividend % base = r at *
  rw [← hdividend, ← hdiv]
  split
  next hcarry =>
    refine ⟨q + 1, by dsimp only; omega, ⟨by dsimp only; omega, hbase.2⟩, rfl, ?_⟩
    push_cast [add_mul]
    omega
  next hcarry =>
    refine ⟨q, by dsimp only; omega, ⟨by dsimp only; omega, hbase.2⟩, rfl, ?_⟩
    push_cast
    omega

/-- An update with the base of the clock loses nothing. -/
theorem update_spec (hrun : Running s) (h : Scaled s) (hsame : s.systemTimeScaleBase = base) (hc : InRange (inc, base)) :
    ∃ (n : Nat) (t : Clock), videosyncPcrscrUpdate s inc base = t ∧ t.systemTime % 2 ^ 32 = (s.systemTime + n) % 2 ^ 32 ∧
      Running t ∧ Scaled t ∧ t.systemTimeScaleBase = base ∧ (90000 * inc / base : ℚ) = n + (kept t - kept s) := by
  obtain ⟨n, htime, hscaled, hbase, hsum⟩ := advance_spec hrun h hsame hc
  refine ⟨n, _, by rw [update_eq hrun, rescale_self hsame], htime, hrun.advance inc base, hscaled, hbase, ?_⟩
  have hpos : (base : ℚ) ≠ 0 := Nat.cast_ne_zero.mpr hc.base.1.ne'
  have htotal : ((s.advance inc base).systemTimeScaleRemainder + n * base : ℚ) =
      s.systemTimeScaleRemainder + 90000 * inc := by exact_mod_cast hsum
  rw [kept, kept, hbase, hsame, ← sub_div, div_eq_iff hpos, add_mul, div_mul_cancel₀ _ hpos]
  linarith

/-! ## Sequences of updates -/

/-- From a clock with the base of the first call: the drift is the change of what is kept, and at most one tick for each
change of base. -/
theorem updated_spec (c : Call) (hrun : Running s) (h : Scaled s) (hsame : s.systemTimeScaleBase = c.2)
    (hcalls : ∀ d ∈ c :: calls, InRange d) :
    ∃ (n : Nat) (t : Clock), updated s (c :: calls) = t ∧ t.systemTime % 2 ^ 32 = (s.systemTime + n) % 2 ^ 32 ∧ Scaled t ∧
      kept t - kept s ≤ exactAdvance (c :: calls) - n ∧
      exactAdvance (c :: calls) - n ≤ kept t - kept s + baseChanges (c :: calls) := by
  induction calls generalizing s c with
  | nil =>
    obtain ⟨n, t, hupdate, htime, -, hscaled, -, hone⟩ := update_spec hrun h hsame (hcalls c (.head _))
    refine ⟨n, t, hupdate, htime, hscaled, ?_, ?_⟩ <;> simp only [exactAdvance, baseChanges, Nat.cast_zero] <;> linarith
  | cons d calls ih =>
    obtain ⟨n, t, hupdate, htime, hrunT, hscaled, hbase, hone⟩ := update_spec hrun h hsame (hcalls c (.head _))
    obtain ⟨hscaled', htime', hless⟩ := rescale_spec hscaled (hcalls d (.tail _ (.head _))).base
    -- the second call is one to the clock in its base
    obtain ⟨n', u, hrest, htimeU, hscaledU, hlower, hupper⟩ := ih d (hrunT.rescale d.2) hscaled' (rescale_base t d.2)
      fun e he => hcalls e (.tail _ he)
    have hlost : kept t - kept (t.rescale d.2) ≤ (if c.2 = d.2 then 0 else 1 : Nat) := by
      split
      next heq => rw [rescale_self (hbase.trans heq), sub_self, Nat.cast_zero]
      next =>
        rw [Nat.cast_one]
        linarith [hscaled.kept_mem, hscaled'.kept_mem]
    refine ⟨n + n', u, ?_, by omega, hscaledU, ?_, ?_⟩
    · rw [← hrest]
      simp only [updated, List.foldl_cons, hupdate, update_rescaled hrunT]
    · rw [exactAdvance, Nat.cast_add]
      linarith
    · rw [exactAdvance, baseChanges, Nat.cast_add, Nat.cast_add]
      linarith

/-- For every sequence of updates: the remainder stays below the base, and the clock moves by the sum of `90000 * inc / base`
up to less than a tick and another one for each change of base. -/
theorem clock_does_not_drift {s : Clock} (hrun : Running s) (h : Scaled s) {calls : List Call}
    (hcalls : ∀ c ∈ calls, InRange c) :
    (updated s calls).systemTimeScaleRemainder < (updated s calls).systemTimeScaleBase ∧
      ∃ n : Nat, (updated s calls).systemTime % 2 ^ 32 = (s.systemTime + n) % 2 ^ 32 ∧
        |exactAdvance calls - n| < 1 + baseChanges calls := by
  cases calls with
  | nil => exact ⟨h.below, 0, rfl, by simp [exactAdvance, baseChanges]⟩
  | cons c calls =>
    obtain ⟨hscaled, htime, -⟩ := rescale_spec h (hcalls c (.head _)).base
    obtain ⟨n, t, hupdated, htimeT, hscaledT, hlower, hupper⟩ :=
      updated_spec c (hrun.rescale c.2) hscaled (rescale_base s c.2) hcalls
    have hfirst : updated s (c :: calls) = t := by
      rw [← hupdated]
      simp only [updated, List.foldl_cons, update_rescaled hrun]
    have hstart := hscaled.kept_mem
    have hend := hscaledT.kept_mem
    rw [hfirst]
    exact ⟨hscaledT.below, n, htime ▸ htimeT, abs_lt.mpr ⟨by linarith, by linarith⟩⟩

/-- A clock that was just started, with the base the module begins with. -/
def started : Clock := ⟨true, .active, true, true, 0, 0, 1, 0, 0, 0, 11000, -5500, 750⟩

/-- 60, 59.94 and 60 Hz. -/
def rates : List Call := [(1, 60), (1001, 60000), (1, 60)]

theorem started_does_not_drift : (updated started rates).systemTimeScaleRemainder < (updated started rates).systemTimeScaleBase ∧
    ∃ n : Nat, (updated started rates).systemTime % 2 ^ 32 = (started.systemTime + n) % 2 ^ 32 ∧
      |exactAdvance rates - n| < 1 + baseChanges rates := by
  refine clock_does_not_drift ⟨rfl, rfl, rfl, rfl, rfl⟩ ⟨by decide, by decide⟩ fun c hc => ?_
  simp only [rates, List.mem_cons, List.not_mem_nil, or_false] at hc
  obtain rfl | rfl | rfl := hc <;> exact ⟨by decide, by decide, by decide⟩

end AmlogicV901d.Guarantees.SyncClock
