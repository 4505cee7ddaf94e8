import AmlogicV901d.Source.CpuFclk

/-!
# Changes of the CPU clock

A change sets up the path that is not selected and then flips the final mux, so that no
write touches the path the CPU runs from. Whether the pre-mux is set up is decided twice:
`determine_rate` does it unless the chosen parent runs at exactly the requested rate, and
the framework does it if the chosen parent is not the one of the selected path. Where
neither does, the path is selected with the pre-mux it had from an earlier change.
-/
namespace AmlogicV901d.Guarantees.ClockPaths
open Lib.BitField Source.CpuFclk
open BitVec (ofNat toNat_ofNat)

/-! ## The two paths -/

structure Setting where
  premux : Reg
  div : Reg
  postmux : Reg
  deriving DecidableEq

def premuxShift (path : Bool) : Nat := if path then 16 else 0
def divShift (path : Bool) : Nat := if path then 20 else 4
def postmuxShift (path : Bool) : Nat := if path then 18 else 2

def setting (path : Bool) (reg : Reg) : Setting :=
  ⟨field (premuxShift path) 2 reg, field (divShift path) 6 reg, field (postmuxShift path) 1 reg⟩

def selected (reg : Reg) : Bool := field 10 1 reg ≠ 0

/-- The write flips the final mux and nothing else. -/
def FlipsFinal (old new : Reg) : Prop := selected new = !selected old ∧ ∀ i ≠ 10, new.getLsbD i = old.getLsbD i

/-- The write leaves the final mux and the selected path alone, or flips the final mux and nothing else. -/
def SafeWrite (old new : Reg) : Prop :=
  (selected new = selected old ∧ setting (selected old) new = setting (selected old) old) ∨ FlipsFinal old new

def SafeWrites : Reg → List Reg → Prop
  | _, [] => True
  | old, new :: writes => SafeWrite old new ∧ SafeWrites new writes

/-- Divider and post-mux of a path set. -/
def setUp (path : Bool) (reg div postmux : Reg) : Reg := put (postmuxShift path) 1 (put (divShift path) 6 reg div) postmux

def flip (reg : Reg) : Reg := if selected reg then put 10 1 reg 0 else put 10 1 reg 1

variable {n : Nat} {table : List FclkRateTable} {reg old new x : Reg} {path : Bool} {shift width : Nat}

theorem finalDyn_eq : finalDyn (cpuFclkP n table) reg = selected reg := rfl

/-! ## Bits -/

theorem or_bit (k : Nat) : reg ||| ((1 : Reg) <<< k) = put k 1 reg 1 := by
  apply BitVec.eq_of_getLsbD_eq
  intro i hi
  rw [getLsbD_put (by decide) hi, BitVec.getLsbD_or, BitVec.getLsbD_shiftLeft]
  by_cases hk : i = k
  · subst hk
    simp [hi]
  have hnot : ¬ (k ≤ i ∧ i < k + 1) := by omega
  rw [if_neg hnot]
  by_cases hlt : i < k
  · simp [hlt]
  · have hpos : i - k ≠ 0 := by omega
    simp [hpos, BitVec.getLsbD_one]

theorem clear_bit (k : Nat) : reg &&& ~~~((1 : Reg) <<< k) = put k 1 reg 0 := by
  have hzero : (0 : Reg) <<< k = 0#32 := BitVec.zero_shiftLeft k
  rw [put, hzero, BitVec.or_zero]
  rfl

theorem selected_put_final (hx : x.toNat < 2 ^ 1) : selected (put 10 1 reg x) = decide (x ≠ 0) := by
  unfold selected
  rw [field_put hx (by decide)]

theorem flip_final : FlipsFinal reg (flip reg) := by
  have hother : ∀ x : Reg, x.toNat < 2 ^ 1 → ∀ i ≠ 10, (put 10 1 reg x).getLsbD i = reg.getLsbD i := by
    intro x hx i hi
    by_cases hbound : i < 32
    · rw [getLsbD_put hx hbound, if_neg (by omega)]
    · rw [BitVec.getLsbD_of_ge _ _ (by omega), BitVec.getLsbD_of_ge _ _ (by omega)]
  unfold flip
  cases hsel : selected reg with
  | true =>
    refine ⟨?_, hother 0 (by decide)⟩
    rw [if_pos rfl, selected_put_final (by decide), hsel]
    rfl
  | false =>
    refine ⟨?_, hother 1 (by decide)⟩
    rw [if_neg (by decide), selected_put_final (by decide), hsel]
    rfl

/-! ## What is written -/

theorem setting_flip (h : FlipsFinal old new) : setting path new = setting path old := by
  have hfield : ∀ shift width, Apart shift width 10 1 → field shift width new = field shift width old := by
    intro shift width hapart
    apply BitVec.eq_of_getLsbD_eq
    intro i _
    rw [getLsbD_field, getLsbD_field]
    by_cases hi : i < width
    · rw [h.2 (shift + i) (by unfold Apart at hapart; omega)]
    · simp [hi]
  unfold setting
  cases path with
  | true | false => rw [hfield _ 2 (by decide), hfield _ 6 (by decide), hfield _ 1 (by decide)]

theorem table_getD {i : Nat} (hi : i < n) : ((List.range n).map (ofNat 32)).getD i 0 = ofNat 32 i := by
  simp [List.getD, hi]

theorem setParent_eq (hn : n ≤ 4) {index : UInt8} (hindex : index.toNat < n) :
    mesonFclkCpuSetParent (cpuFclkP n table) reg index =
      put (premuxShift (!selected reg)) 2 reg (ofNat 32 index.toNat) := by
  have htable : UInt8.ofNat (((List.range n).map (ofNat 32)).getD index.toNat 0).toNat = index := by
    rw [table_getD hindex, toNat_ofNat, Nat.mod_eq_of_lt (by omega), UInt8.ofNat_toNat]
  have hval : mesonFclkCpuSetParent (cpuFclkP n table) reg index = put (premuxShift (!selected reg)) 2 reg
      (ofNat 32 (UInt8.ofNat (((List.range n).map (ofNat 32)).getD index.toNat 0).toNat).toNat) := by
    unfold mesonFclkCpuSetParent
    rw [finalDyn_eq, show (cpuFclkP n table).flags = 0 from rfl]
    cases selected reg <;> rfl
  rw [hval, htable]

/-- The path that is not selected, with the divider and the post-mux of an entry. -/
def prepared (reg : Reg) (entry : FclkRateTable) : Reg :=
  setUp (!selected reg) reg (ofNat 32 entry.muxDiv.toNat) (ofNat 32 entry.postmux.toNat)

/-- The writes of `set_rate`. -/
def rateWrites (reg : Reg) (entry : FclkRateTable) : List Reg :=
  [put 26 1 reg 1, put (divShift !selected reg) 6 reg (ofNat 32 entry.muxDiv.toNat), prepared reg entry, flip (prepared reg entry)]

theorem setRate_eq {rate parents : UInt64} {entry : FclkRateTable} (hrate : rate ≠ 0) (hparent : parents ≠ 0)
    (hentry : mesonFclkGetPllSettings (cpuFclkP n table) rate = some entry) :
    mesonFclkDividerSetRate (cpuFclkP n table) reg rate parents = some (rateWrites reg entry) := by
  have hnot : ¬ (parents = 0 ∨ rate = 0) := by simp [hrate, hparent]
  unfold mesonFclkDividerSetRate
  rw [if_neg hnot, hentry]
  dsimp only
  rw [mesonDynEnable, show (1 <<< 26 : Reg) = (1 : Reg) <<< 26 from rfl, or_bit, clear_bit, or_bit, finalDyn_eq, finalDyn_eq,
    rateWrites, prepared]
  cases selected reg <;> rfl

/-! ## Writes beside the selected path -/

/-- Final mux and selected path are those of `reg`. -/
structure Beside (reg new : Reg) : Prop where
  selected_eq : selected new = selected reg
  setting_eq : setting (selected reg) new = setting (selected reg) reg

theorem Beside.refl (reg : Reg) : Beside reg reg := ⟨rfl, rfl⟩

theorem safe_of_beside (hold : Beside reg old) (hnew : Beside reg new) : SafeWrite old new := by
  left
  rw [hold.selected_eq, hnew.selected_eq, hold.setting_eq, hnew.setting_eq]
  exact ⟨rfl, rfl⟩

/-- The field is neither the final mux nor a part of the path. -/
def Aside (shift width : Nat) (path : Bool) : Prop :=
  Apart shift width 10 1 ∧ Apart shift width (premuxShift path) 2 ∧ Apart shift width (divShift path) 6 ∧
    Apart shift width (postmuxShift path) 1

instance : Decidable (Aside shift width path) := inferInstanceAs (Decidable (_ ∧ _))

section
variable (h : Beside reg old)
include h

theorem Beside.put (hx : x.toNat < 2 ^ width) (haside : Aside shift width (selected reg)) : Beside reg (put shift width old x) := by
  obtain ⟨hfinal, hpre, hdiv, hpost⟩ := haside
  constructor
  · rw [← h.selected_eq, selected, selected, field_put_of_apart hx hfinal]
  · rw [← h.setting_eq, setting, setting, field_put_of_apart hx hpre, field_put_of_apart hx hdiv, field_put_of_apart hx hpost]

theorem Beside.putPremux (hx : x.toNat < 2 ^ 2) : Beside reg (Lib.BitField.put (premuxShift (!selected reg)) 2 old x) :=
  h.put hx (by cases selected reg <;> decide)

theorem Beside.putDiv (hx : x.toNat < 2 ^ 6) : Beside reg (Lib.BitField.put (divShift (!selected reg)) 6 old x) :=
  h.put hx (by cases selected reg <;> decide)

theorem Beside.putPostmux (hx : x.toNat < 2 ^ 1) : Beside reg (Lib.BitField.put (postmuxShift (!selected reg)) 1 old x) :=
  h.put hx (by cases selected reg <;> decide)

theorem Beside.putDyn : Beside reg (Lib.BitField.put 26 1 old 1) := h.put (by decide) (by cases selected reg <;> decide)

end

theorem after_cons (w : Reg) (writes : List Reg) : after reg (w :: writes) = after w writes := List.getLastD_cons

theorem after_append (writes writes' : List Reg) : after reg (writes ++ writes') = after (after reg writes) writes' := by
  induction writes generalizing reg with
  | nil => rfl
  | cons w writes ih =>
    rw [List.cons_append, after_cons, after_cons]
    exact ih

theorem safeWrites_append (writes writes' : List Reg) :
    SafeWrites reg (writes ++ writes') ↔ SafeWrites reg writes ∧ SafeWrites (after reg writes) writes' := by
  induction writes generalizing reg with
  | nil => simp [SafeWrites, after]
  | cons w writes ih =>
    rw [List.cons_append, SafeWrites, SafeWrites, ih, and_assoc, after_cons]

/-! ## One change -/

/-- The values of a table entry fit the fields. -/
def Fits (entry : FclkRateTable) : Prop := entry.muxDiv.toNat < 2 ^ 6 ∧ entry.postmux.toNat < 2 ^ 1

instance (entry : FclkRateTable) : Decidable (Fits entry) := inferInstanceAs (Decidable (_ ∧ _))

/-- The pre-mux, divider and post-mux of a table entry. -/
def entrySetting (entry : FclkRateTable) : Setting :=
  ⟨BitVec.ofNat 32 entry.premux.toNat, BitVec.ofNat 32 entry.muxDiv.toNat, BitVec.ofNat 32 entry.postmux.toNat⟩

section Change
variable {parents : Nat → Option UInt64} {rate best : UInt64} {entry : FclkRateTable}

/-- The writes of the pre-mux, by `determine_rate` and by the framework. -/
def premuxWrites (d : MesonCpuMuxDivider) (reg : Reg) (premux : UInt16) (best rate : UInt64) : List Reg :=
  let writes := if best ≠ rate then [mesonFclkCpuSetParent d reg premux.toUInt8] else []
  if (mesonFclkCpuGetParent d reg).toNat ≠ premux.toNat then writes ++ [mesonFclkCpuSetParent d (after reg writes) premux.toUInt8]
  else writes

theorem premuxWrites_spec (hn : n ≤ 4) {premux : UInt16} (hpremux : premux.toNat < n) :
    SafeWrites reg (premuxWrites (cpuFclkP n table) reg premux best rate) ∧
    Beside reg (after reg (premuxWrites (cpuFclkP n table) reg premux best rate)) ∧
    field (premuxShift (!selected reg)) 2 (after reg (premuxWrites (cpuFclkP n table) reg premux best rate)) =
      if best ≠ rate ∨ (mesonFclkCpuGetParent (cpuFclkP n table) reg).toNat ≠ premux.toNat
      then ofNat 32 premux.toNat else field (premuxShift (!selected reg)) 2 reg := by
  have hindex : premux.toUInt8.toNat = premux.toNat := by
    exact Nat.mod_eq_of_lt (by omega)
  have hfits : (ofNat 32 premux.toNat).toNat < 2 ^ 2 := by
    rw [toNat_ofNat, Nat.mod_eq_of_lt (by omega)]
    omega
  have hwrite : ∀ {old}, Beside reg old → mesonFclkCpuSetParent (cpuFclkP n table) old premux.toUInt8 =
      put (premuxShift (!selected reg)) 2 old (ofNat 32 premux.toNat) := by
    intro old hold
    rw [setParent_eq hn (by omega), hindex, hold.selected_eq]
  have hfield : ∀ old, field (premuxShift (!selected reg)) 2 (put (premuxShift (!selected reg)) 2 old (ofNat 32 premux.toNat)) =
      ofNat 32 premux.toNat := by
    intro old
    cases selected reg <;> exact field_put hfits (by decide)
  have hrefl := Beside.refl reg
  have hone := hrefl.putPremux hfits
  unfold premuxWrites
  by_cases hbest : best ≠ rate
  · by_cases hparent : (mesonFclkCpuGetParent (cpuFclkP n table) reg).toNat ≠ premux.toNat
    · simp only [hbest, hparent, ne_eq, not_false_eq_true, if_true, or_self]
      rw [hwrite hrefl, show after reg [put (premuxShift !selected reg) 2 reg (ofNat 32 premux.toNat)] =
        put (premuxShift !selected reg) 2 reg (ofNat 32 premux.toNat) from rfl, hwrite hone]
      exact ⟨⟨safe_of_beside hrefl hone, safe_of_beside hone (hone.putPremux hfits), trivial⟩, hone.putPremux hfits, hfield _⟩
    · simp only [hbest, hparent, ne_eq, not_false_eq_true, if_true, if_false, or_false]
      rw [hwrite hrefl]
      exact ⟨⟨safe_of_beside hrefl hone, trivial⟩, hone, hfield _⟩
  · by_cases hparent : (mesonFclkCpuGetParent (cpuFclkP n table) reg).toNat ≠ premux.toNat
    · simp only [hbest, hparent, ne_eq, not_false_eq_true, if_true, if_false, or_true]
      rw [show after reg [] = reg from rfl, hwrite hrefl]
      exact ⟨⟨safe_of_beside hrefl hone, trivial⟩, hone, hfield _⟩
    · simp only [hbest, hparent, if_false, or_self]
      exact ⟨trivial, hrefl, rfl⟩

/-- The change has an entry with a parent, and the rates are not 0: it succeeds. -/
structure Proceeds (d : MesonCpuMuxDivider) (parentRate : Nat → Option UInt64) (rate : UInt64) (entry : FclkRateTable) (best : UInt64) :
    Prop where
  entry_eq : mesonFclkGetPllSettings d rate = some entry
  premux_lt : entry.premux.toNat < d.numParents
  best_eq : parentRate entry.premux.toNat = some best
  rate_ne : rate ≠ 0
  best_ne : best ≠ 0

theorem determineRate_eq (hentry : mesonFclkGetPllSettings (cpuFclkP n table) rate = some entry)
    (hlt : entry.premux.toNat < n) (hbest : parents entry.premux.toNat = some best) :
    mesonFclkMuxDividerDetermineRate (cpuFclkP n table) parents reg rate = some (entry.premux, best,
      if best ≠ rate then [mesonFclkCpuSetParent (cpuFclkP n table) reg entry.premux.toUInt8] else []) := by
  have hnot : ¬ entry.premux.toNat ≥ (cpuFclkP n table).numParents := Nat.not_le.mpr hlt
  unfold mesonFclkMuxDividerDetermineRate
  rw [hentry]
  dsimp only
  rw [if_neg hnot, hbest]

theorem change_proceeds (h : Proceeds (cpuFclkP n table) parents rate entry best) :
    change (cpuFclkP n table) parents reg rate =
      let pre := premuxWrites (cpuFclkP n table) reg entry.premux best rate
      (true, pre ++ rateWrites (after reg pre) entry) := by
  unfold change
  rw [determineRate_eq h.entry_eq h.premux_lt h.best_eq]
  dsimp only
  rw [← premuxWrites, setRate_eq h.rate_ne h.best_ne h.entry_eq]

/-- Otherwise it fails, with writes of the pre-mux at most. -/
theorem change_fails (h : ∀ entry best, ¬ Proceeds (cpuFclkP n table) parents rate entry best) :
    change (cpuFclkP n table) parents reg rate = (false, []) ∨
    ∃ premux best, premux.toNat < n ∧ change (cpuFclkP n table) parents reg rate =
      (false, premuxWrites (cpuFclkP n table) reg premux best rate) := by
  cases hentry : mesonFclkGetPllSettings (cpuFclkP n table) rate with
  | none =>
    left
    simp [change, mesonFclkMuxDividerDetermineRate, hentry]
  | some entry =>
    by_cases hlt : entry.premux.toNat < n
    · cases hbest : parents entry.premux.toNat with
      | none =>
        left
        simp [change, mesonFclkMuxDividerDetermineRate, hentry, hbest]
      | some best =>
        right
        have hzero : best = 0 ∨ rate = 0 := by
          by_contra hnot
          obtain ⟨hb, hr⟩ := not_or.mp hnot
          exact h entry best ⟨hentry, hlt, hbest, hr, hb⟩
        refine ⟨entry.premux, best, hlt, ?_⟩
        unfold change
        rw [determineRate_eq hentry hlt hbest]
        dsimp only
        rw [← premuxWrites, mesonFclkDividerSetRate, if_pos hzero]
    · left
      have hge : (cpuFclkP n table).numParents ≤ entry.premux.toNat := Nat.not_lt.mp hlt
      simp [change, mesonFclkMuxDividerDetermineRate, hentry, hge]

/-- Every write is safe, and if the change succeeds the selected path holds the entry for the rate. -/
def ChangeOk (d : MesonCpuMuxDivider) (parentRate : Nat → Option UInt64) (reg : Reg) (rate : UInt64) : Prop :=
  SafeWrites reg (change d parentRate reg rate).2 ∧
  ((change d parentRate reg rate).1 → ∃ entry, mesonFclkGetPllSettings d rate = some entry ∧
    setting (selected (after reg (change d parentRate reg rate).2)) (after reg (change d parentRate reg rate).2) = entrySetting entry)

/-- The entry fits the fields; and the pre-mux is written (the parent does not run at exactly the rate, or is not that of the
selected path) or the other path has it already. -/
def Ready (d : MesonCpuMuxDivider) (parentRate : Nat → Option UInt64) (reg : Reg) (rate : UInt64) : Prop :=
  ∀ entry best, Proceeds d parentRate rate entry best → Fits entry ∧
    (best ≠ rate ∨ (mesonFclkCpuGetParent d reg).toNat ≠ entry.premux.toNat ∨
      field (premuxShift (!selected reg)) 2 reg = BitVec.ofNat 32 entry.premux.toNat)

instance {d : MesonCpuMuxDivider} : Decidable (Ready d parentRate reg rate) :=
  match hentry : mesonFclkGetPllSettings d rate with
  | none => isTrue fun _ _ h => absurd (hentry.symm.trans h.entry_eq) (by simp)
  | some entry =>
    match hbest : parentRate entry.premux.toNat with
    | none => isTrue fun entry' best h => by
        obtain rfl := Option.some.inj (hentry.symm.trans h.entry_eq)
        exact absurd (hbest.symm.trans h.best_eq) (by simp)
    | some best => decidable_of_iff (entry.premux.toNat < d.numParents → rate ≠ 0 → best ≠ 0 → Fits entry ∧
        (best ≠ rate ∨ (mesonFclkCpuGetParent d reg).toNat ≠ entry.premux.toNat ∨
          field (premuxShift (!selected reg)) 2 reg = BitVec.ofNat 32 entry.premux.toNat)) ⟨fun hready entry' best' h => by
            obtain rfl := Option.some.inj (hentry.symm.trans h.entry_eq)
            obtain rfl := Option.some.inj (hbest.symm.trans h.best_eq)
            exact hready h.premux_lt h.rate_ne h.best_ne,
          fun hready hlt hrate hne => hready entry best ⟨hentry, hlt, hbest, hrate, hne⟩⟩

theorem ofNat_u16_lt {v : UInt16} {w : Nat} (h : v.toNat < 2 ^ w) : (ofNat 32 v.toNat).toNat < 2 ^ w := by
  exact Nat.lt_of_le_of_lt (Nat.mod_le _ _) h

theorem setRate_writes (hfits : Fits entry) : SafeWrites reg (rateWrites reg entry) := by
  have hdyn := (Beside.refl reg).putDyn
  have hdiv := (Beside.refl reg).putDiv (ofNat_u16_lt hfits.1)
  have hpost := hdiv.putPostmux (ofNat_u16_lt hfits.2)
  exact ⟨safe_of_beside (.refl reg) hdyn, safe_of_beside hdyn hdiv, safe_of_beside hdiv hpost, .inr flip_final, trivial⟩

theorem setRate_selected (hfits : Fits entry) : setting (selected (flip (prepared reg entry))) (flip (prepared reg entry)) =
      ⟨field (premuxShift (!selected reg)) 2 reg, ofNat 32 entry.muxDiv.toNat, ofNat 32 entry.postmux.toNat⟩ := by
  have hbeside : Beside reg (prepared reg entry) :=
    ((Beside.refl reg).putDiv (ofNat_u16_lt hfits.1)).putPostmux (ofNat_u16_lt hfits.2)
  rw [setting_flip flip_final, flip_final.1, hbeside.selected_eq]
  show Setting.mk _ _ _ = _
  have hd := ofNat_u16_lt hfits.1
  have hp := ofNat_u16_lt hfits.2
  cases hsel : selected reg <;>
    · simp only [prepared, setUp, hsel, Bool.not_true, Bool.not_false]
      rw [field_put_of_apart hp (by decide), field_put_of_apart hd (by decide), field_put_of_apart hp (by decide),
        field_put hd (by decide), field_put hp (by decide)]

theorem entry_unique {entry' : FclkRateTable} {best' : UInt64} {d : MesonCpuMuxDivider} (h : Proceeds d parents rate entry best)
    (h' : Proceeds d parents rate entry' best') : entry' = entry ∧ best' = best := by
  have hentry : entry' = entry := Option.some.inj (h'.entry_eq.symm.trans h.entry_eq)
  subst hentry
  exact ⟨rfl, Option.some.inj (h'.best_eq.symm.trans h.best_eq)⟩

theorem fits_of_setting (h : setting path reg = entrySetting entry) : Fits entry := by
  have hdiv : field (divShift path) 6 reg = ofNat 32 entry.muxDiv.toNat := congrArg Setting.div h
  have hpost : field (postmuxShift path) 1 reg = ofNat 32 entry.postmux.toNat := congrArg Setting.postmux h
  have hsmall : ∀ v : UInt16, (ofNat 32 v.toNat).toNat = v.toNat := by
    intro v
    have hv := v.toNat_lt
    rw [toNat_ofNat, Nat.mod_eq_of_lt (by omega)]
  constructor
  · rw [← hsmall, ← hdiv]
    exact field_lt
  · rw [← hsmall, ← hpost]
    exact field_lt

theorem change_ok_iff (hn : n ≤ 4) :
    ChangeOk (cpuFclkP n table) parents reg rate ↔ Ready (cpuFclkP n table) parents reg rate := by
  by_cases hproceeds : ∃ entry best, Proceeds (cpuFclkP n table) parents rate entry best
  · obtain ⟨entry, best, h⟩ := hproceeds
    obtain ⟨hsafe, hbeside, hpremux⟩ := premuxWrites_spec hn h.premux_lt
    have hchange := @change_proceeds n table reg parents rate best entry h
    generalize hpre : premuxWrites (cpuFclkP n table) reg entry.premux best rate = pre at *
    -- the path that ends up selected
    have hresult : Fits entry → setting (selected (after reg (change (cpuFclkP n table) parents reg rate).2))
        (after reg (change (cpuFclkP n table) parents reg rate).2) =
        ⟨field (premuxShift (!selected reg)) 2 (after reg pre), ofNat 32 entry.muxDiv.toNat,
          ofNat 32 entry.postmux.toNat⟩ := by
      intro hfits
      rw [hchange, after_append, ← hbeside.selected_eq]
      exact setRate_selected hfits
    constructor
    · rintro ⟨-, hdone⟩ entry' best' h'
      obtain ⟨rfl, rfl⟩ := entry_unique h h'
      obtain ⟨entry'', hentry, hsetting⟩ := hdone (by rw [hchange])
      obtain rfl : entry'' = entry' := Option.some.inj (hentry.symm.trans h.entry_eq)
      have hfits := fits_of_setting hsetting
      refine ⟨hfits, ?_⟩
      have heq := congrArg Setting.premux ((hresult hfits).symm.trans hsetting)
      rw [hpremux] at heq
      by_cases hbest : best' ≠ rate
      · exact .inl hbest
      by_cases hparent : (mesonFclkCpuGetParent (cpuFclkP n table) reg).toNat ≠ entry''.premux.toNat
      · exact .inr (.inl hparent)
      · rw [if_neg (not_or.mpr ⟨hbest, hparent⟩)] at heq
        exact .inr (.inr heq)
    · intro hready
      obtain ⟨hfits, hpath⟩ := hready entry best h
      refine ⟨?_, fun _ => ⟨entry, h.entry_eq, ?_⟩⟩
      · rw [hchange, safeWrites_append]
        exact ⟨hsafe, setRate_writes hfits⟩
      · rw [hresult hfits, hpremux]
        split
        · rfl
        rename_i hnot
        obtain ⟨hbest, hparent⟩ := not_or.mp hnot
        rw [(hpath.resolve_left hbest).resolve_left hparent]
        rfl
  · have hnot : ∀ entry best, ¬ Proceeds (cpuFclkP n table) parents rate entry best :=
      fun entry best h => hproceeds ⟨entry, best, h⟩
    refine ⟨fun _ entry best h => absurd h (hnot entry best), fun _ => ?_⟩
    rcases change_fails hnot with h | ⟨premux, best, hlt, h⟩
    · rw [ChangeOk, h]
      exact ⟨trivial, fun hfalse => absurd hfalse (by simp)⟩
    · rw [ChangeOk, h]
      exact ⟨(premuxWrites_spec hn hlt).1, fun hfalse => absurd hfalse (by simp)⟩

end Change

/-! ## Sequences of changes -/

/-- A condition on every change of a sequence and the register it finds; each change has its rate and the rates of the parents. -/
def Along (d : MesonCpuMuxDivider) (P : (Nat → Option UInt64) → Reg → UInt64 → Prop) : Reg → List (UInt64 × (Nat → Option UInt64)) → Prop
  | _, [] => True
  | reg, (rate, parentRate) :: changes =>
    P parentRate reg rate ∧ Along d P (after reg (change d parentRate reg rate).2) changes

instance decidableAlong {d : MesonCpuMuxDivider} {P : (Nat → Option UInt64) → Reg → UInt64 → Prop}
    [∀ parentRate reg rate, Decidable (P parentRate reg rate)] : ∀ reg changes, Decidable (Along d P reg changes)
  | _, [] => isTrue trivial
  | reg, (rate, parentRate) :: changes =>
    have := @decidableAlong d P _ (after reg (change d parentRate reg rate).2) changes
    inferInstanceAs (Decidable (P parentRate reg rate ∧ Along d P (after reg (change d parentRate reg rate).2) changes))

theorem along_congr {d : MesonCpuMuxDivider} {P Q : (Nat → Option UInt64) → Reg → UInt64 → Prop}
    (h : ∀ parents reg rate, P parents reg rate ↔ Q parents reg rate) {changes : List (UInt64 × (Nat → Option UInt64))} :
    Along d P reg changes ↔ Along d Q reg changes := by
  induction changes generalizing reg with
  | nil => exact .rfl
  | cons c changes ih => exact and_congr (h _ _ _) ih

/-- From every register value, with every rate table and for every sequence of changes: all changes are glitch-safe and land on the
entry for their rate exactly if each of them is ready in the register it finds. -/
theorem clock_changes_iff {numParents : Nat} (hn : numParents ≤ 4) (rateTable : List FclkRateTable) (reg : Reg)
    (changes : List (UInt64 × (Nat → Option UInt64))) :
    Along (cpuFclkP numParents rateTable) (ChangeOk (cpuFclkP numParents rateTable)) reg changes ↔
      Along (cpuFclkP numParents rateTable) (Ready (cpuFclkP numParents rateTable)) reg changes :=
  along_congr fun _ _ _ => change_ok_iff hn

/-! ## The table of the driver -/

/-- The crystal, the fixed PLL by 2 and by 3. -/
def fixedParents : Nat → Option UInt64
  | 0 => some 24000000
  | 1 => some 1000000000
  | 2 => some 666666666
  | _ => none

theorem three_changes_ok : Along (cpuFclkP 3 fclkPllRateTable) (ChangeOk (cpuFclkP 3 fclkPllRateTable)) 0
    [(1000000000, fixedParents), (667000000, fixedParents), (250000000, fixedParents)] :=
  (clock_changes_iff (by decide) fclkPllRateTable 0 _).mpr (by decide +kernel)

def changeAll (d : MesonCpuMuxDivider) (reg : Reg) (changes : List (UInt64 × (Nat → Option UInt64))) : Reg :=
  changes.foldl (fun reg c => after reg (change d c.2 reg c.1).2) reg

/-- From 500 MHz to 1 GHz the parent stays and runs at the rate that is asked for, so no one writes the pre-mux: the CPU runs
from the divider by 3 that the other path has from 667 MHz. -/
theorem premux_left_behind :
    (change (cpuFclkP 3 fclkPllRateTable) fixedParents (changeAll (cpuFclkP 3 fclkPllRateTable) 0
      [(667000000, fixedParents), (500000000, fixedParents)]) 1000000000).1 = true ∧
    (changeAll (cpuFclkP 3 fclkPllRateTable) 0 [(667000000, fixedParents), (500000000, fixedParents), (1000000000, fixedParents)] |>
      fun reg => setting (selected reg) reg) = ⟨2, 0, 0⟩ ∧
    mesonFclkGetPllSettings (cpuFclkP 3 fclkPllRateTable) 1000000000 = some ⟨1000000000, 1, 0, 0⟩ := by
  decide +kernel

end AmlogicV901d.Guarantees.ClockPaths
