import AmlogicV901d.Source.HdmiRx.EarcCapDs

/-!
# eARC capability data is read within its bounds

The loop compares the position with the length before a block's id only: the length byte and the
payload of a block that the data cuts off are read behind the end. The data are read within their
bounds exactly when the blocks the loop takes are whole.
-/
namespace AmlogicV901d.Guarantees.EarcCapabilities
open Source.HdmiRx.EarcCapDs List

structure CapBlock where
  id : UInt8
  payload : List UInt8
  known : isCapBlock id = true
  fits : payload.length < 256

def CapBlock.encode (b : CapBlock) : List UInt8 :=
  b.id :: UInt8.ofNat b.payload.length :: b.payload

/-- The blocks `blocks` lie in `data`, one after the other, and `tail` is behind them. -/
def Lie (blocks : List CapBlock) (tail data : List UInt8) : Prop :=
  data = blocks.flatMap CapBlock.encode ++ tail

/-- The loop ends behind the blocks: it has `left` of them, or `tail` starts no further one. -/
def Ends (left : Nat) (blocks : List CapBlock) (tail : List UInt8) : Prop :=
  blocks.length ≤ left ∧ (blocks.length = left ∨ ∀ id, tail[0]? = some id → isCapBlock id = false)

def Whole (left : Nat) (data : List UInt8) : Prop :=
  ∃ blocks tail, Lie blocks tail data ∧ Ends left blocks tail

/-- No access outside, and an output that is the payloads of at most three blocks inside. -/
def Bounded (capDsIn : List UInt8) : Prop :=
  ∃ ret, parseEarcCapDs capDsIn = some ret ∧ ∀ out, ret = some out →
    out.length ≤ earcCapDsMaxLength ∧ ∃ blocks tail, blocks.length ≤ 3 ∧
      Lie blocks tail (capDsIn.drop 1) ∧ out = blocks.flatMap CapBlock.payload

/-- Over whole blocks the loop stays inside and copies their payloads. -/
theorem parseBlocks_of_whole {blocks : List CapBlock} {tail out : List UInt8} {left : Nat} (he : Ends left blocks tail)
    (hlen : out.length + (blocks.flatMap CapBlock.encode ++ tail).length ≤ earcCapDsMaxLength) :
    parseBlocks left (blocks.flatMap CapBlock.encode ++ tail) out = some (out ++ blocks.flatMap CapBlock.payload) := by
  induction blocks generalizing left out with
  | nil =>
    have hstop := he.2
    cases left <;> cases tail <;> simp_all [parseBlocks]
  | cons b blocks ih =>
    obtain ⟨hleft, hstop⟩ := he
    cases left with
    | zero => exact nomatch hleft
    | succ left =>
      have hn : (UInt8.ofNat b.payload.length).toNat = b.payload.length := by
        simpa using Nat.mod_eq_of_lt b.fits
      simp only [flatMap_cons, CapBlock.encode, cons_append, append_assoc,
        length_cons, length_append] at hlen ⊢
      rw [parseBlocks, if_pos b.known]
      rw [hn, if_neg (by simp; omega), drop_left, take_left, ih]
      · simp
      · exact ⟨Nat.le_of_succ_le_succ hleft, hstop.imp_left Nat.succ.inj⟩
      · simp only [length_append]
        omega

theorem payloads_length_le (blocks : List CapBlock) :
    (blocks.flatMap CapBlock.payload).length ≤ (blocks.flatMap CapBlock.encode).length := by
  induction blocks with
  | nil => exact Nat.le_refl 0
  | cons b blocks ih =>
    simp only [flatMap_cons, length_append, CapBlock.encode, length_cons] at ih ⊢
    omega

/-- Where the loop stays inside, the blocks it takes are whole. -/
theorem whole_of_parseBlocks {data out out' : List UInt8} {left : Nat}
    (h : parseBlocks left data out = some out') : Whole left data := by
  fun_induction parseBlocks left data out with
  | case1 data => exact ⟨[], data, rfl, by simp [Ends]⟩
  | case2 => exact ⟨[], [], rfl, by simp [Ends]⟩
  | case3 | case4 => exact nomatch h
  | case5 left id out hid payloadLen data n hin ih =>
    obtain ⟨blocks, tail, hl, he⟩ := ih h
    have hlt : n < 256 := payloadLen.toNat_lt
    have htake : (data.take n).length = n := by
      rw [length_take]
      omega
    refine ⟨⟨id, data.take n, hid, by omega⟩ :: blocks, tail, ?_, by simpa [Ends] using he⟩
    rw [Lie, flatMap_cons, append_assoc, ← hl]
    simp [CapBlock.encode, htake, n]
  | case6 left id data out hid => exact ⟨[], id :: data, rfl, by simpa [Ends] using hid⟩

/-- The data are read within their bounds exactly when they are refused or the blocks the loop
takes are whole. -/
theorem earc_data_bounded_iff (capDsIn : List UInt8) : Bounded capDsIn ↔
      (capDsIn.length ≤ 256 → capDsIn[0]? = some capDsVer → Whole 3 (capDsIn.drop 1)) := by
  match capDsIn with
  | [] => exact iff_of_true ⟨none, rfl, nofun⟩ nofun
  | ver :: data =>
    by_cases href : earcCapDsMaxLength < data.length + 1 ∨ ver ≠ capDsVer
    · refine iff_of_true ⟨none, if_pos href, nofun⟩ fun hlen hver => ?_
      exact (href.elim (Nat.not_lt.mpr hlen) (· (Option.some.inj hver))).elim
    have hparse : parseEarcCapDs (ver :: data) = (parseBlocks 3 data []).map some := if_neg href
    obtain ⟨hlen, rfl⟩ : data.length + 1 ≤ earcCapDsMaxLength ∧ ver = capDsVer := by
      simpa using href
    constructor
    · rintro ⟨ret, hret, -⟩ - -
      obtain ⟨out, hout, -⟩ := Option.map_eq_some_iff.mp (hparse.symm.trans hret)
      exact whole_of_parseBlocks hout
    · intro hw
      obtain ⟨blocks, tail, hl, he⟩ := hw hlen rfl
      obtain rfl : data = _ := hl
      have hpay := payloads_length_le blocks
      have hrun := @parseBlocks_of_whole blocks tail [] 3 he (by simp only [length_nil]; omega)
      refine ⟨_, hparse.trans (congrArg _ hrun), fun out hout => ?_⟩
      obtain rfl := (Option.some.inj hout).symm
      refine ⟨Nat.le_trans hpay ?_, blocks, tail, he.1, rfl, rfl⟩
      rw [length_append] at hlen
      omega

/-- A block that ends with its id: the length is read behind the data. -/
theorem cut_block_not_bounded : ¬Bounded [capDsVer, 1] := by
  rintro ⟨ret, hret, -⟩
  exact nomatch hret

end AmlogicV901d.Guarantees.EarcCapabilities
