import Mathlib.Data.List.Count
import Mathlib.Data.List.Perm.Basic
import AmlogicV901d.Lib.FifoTrace
import AmlogicV901d.Source.Vdin

/-!
# Entries of the capture pool

What the functions on a pool do to the places of its entries: each takes an entry from a list or
puts one into a list, so that an entry that is in one place stays in one place.
-/
namespace AmlogicV901d.Guarantees.CapturePool
open Lib.FifoTrace List Function
open Source.Vdin

variable {p : VfPool} {hands held l : List Nat} {e x : Nat}

/-! ## Owners -/

/-- In how many places of the four lists an entry is. -/
def inLists (p : VfPool) (e : Nat) : Nat := p.wrList.count e + p.rdList.count e + p.tmpList.count e + p.fzList.count e

/-- A pool whose other entries are with the device (`hands`) or with the receiver (`held`). -/
structure PoolInv (p : VfPool) (hands held : List Nat) : Prop where
  owner : ∀ e, inLists p e + hands.count e + held.count e = if e < p.size then 1 else 0
  normal : ∀ e < p.size, p.normal e = true
  waiting : p.wtList = []
  frozen : ∀ e ∈ p.fzList, p.freezed e = true
  flagged : ∀ e < p.size, p.freezed e = true → e ∈ p.fzList ∨ e ∈ held

section
variable (h : PoolInv p hands held)
include h

theorem PoolInv.lt_of_pos (hpos : 0 < inLists p e + hands.count e + held.count e) : e < p.size := by
  have howner := h.owner e
  by_contra hge
  rw [if_neg hge] at howner
  omega

theorem PoolInv.hand_lt (he : e ∈ hands) : e < p.size := by
  have hpos := count_pos_iff.mpr he
  apply h.lt_of_pos
  omega

theorem PoolInv.held_lt (he : e ∈ held) : e < p.size := by
  have hpos := count_pos_iff.mpr he
  apply h.lt_of_pos
  omega

theorem PoolInv.frozen_lt (he : e ∈ p.fzList) : e < p.size := by
  have hpos := count_pos_iff.mpr he
  apply h.lt_of_pos
  rw [inLists]
  omega

theorem PoolInv.move {p' : VfPool} {hands' held' : List Nat}
    (hcount : ∀ e, inLists p' e + hands'.count e + held'.count e = inLists p e + hands.count e + held.count e)
    (hsize : p'.size = p.size) (hnormal : p'.normal = p.normal) (hwaiting : p'.wtList = p.wtList)
    (hfrozen : ∀ e ∈ p'.fzList, p'.freezed e = true)
    (hflagged : ∀ e < p.size, p'.freezed e = true → e ∈ p'.fzList ∨ e ∈ held') : PoolInv p' hands' held' := by
  constructor
  · intro e
    rw [hcount, hsize]
    exact h.owner e
  · rw [hsize, hnormal]
    exact h.normal
  · rw [hwaiting]
    exact h.waiting
  · exact hfrozen
  · rw [hsize]
    exact hflagged

theorem PoolInv.hands_perm {hands' : List Nat} (hperm : hands'.Perm hands) : PoolInv p hands' held := by
  refine h.move ?_ rfl rfl rfl h.frozen h.flagged
  intro e
  rw [hperm.count_eq]

theorem PoolInv.held_perm {held' : List Nat} (hperm : held'.Perm held) : PoolInv p hands held' := by
  refine h.move ?_ rfl rfl rfl h.frozen ?_
  · intro e
    rw [hperm.count_eq]
  · intro e he hflag
    rw [hperm.mem_iff]
    exact h.flagged e he hflag

end

theorem PoolInv.hand_not_frozen (h : PoolInv p (e :: hands) held) : p.freezed e = false := by
  have howner := h.owner e
  have hlt : e < p.size := h.hand_lt mem_cons_self
  rw [if_pos hlt, count_cons_self, inLists] at howner
  by_contra hflag
  rcases h.flagged e hlt (by simpa using hflag) with hmem | hmem
  all_goals
    have := count_pos_iff.mpr hmem
    omega

theorem count_of_getLast? (h : l.getLast? = some x) (e : Nat) : l.count e = l.dropLast.count e + [x].count e := by
  obtain ⟨init, rfl⟩ := getLast?_eq_some_iff.mp h
  rw [dropLast_concat, count_append]

/-! ## Getting and putting -/

theorem providerVfGet_inv (h : PoolInv p hands held) (hget : (providerVfGet p).1 = some x) :
    PoolInv (providerVfGet p).2 (x :: hands) held := by
  refine h.move ?_ rfl rfl rfl h.frozen h.flagged
  intro e
  have hcount := count_of_getLast? hget e
  simp only [inLists, providerVfGet, vfPoolGet, count_cons, count_nil] at *
  omega

theorem providerVfGet_none (hget : (providerVfGet p).1 = none) : (providerVfGet p).2 = p := by
  cases p
  simp_all [providerVfGet, vfPoolGet]

theorem providerVfPut_inv (h : PoolInv p (x :: hands) held) : PoolInv (providerVfPut x p) hands held := by
  refine h.move ?_ rfl rfl rfl h.frozen h.flagged
  intro e
  simp only [inLists, providerVfPut, vfPoolPut, count_cons]
  omega

theorem tmpVfPut_inv (h : PoolInv p (x :: hands) held) : PoolInv (tmpVfPut x p) hands held := by
  refine h.move ?_ rfl rfl rfl h.frozen h.flagged
  intro e
  simp only [inLists, tmpVfPut, vfPoolPut, count_cons]
  omega

theorem tmpHead_inv (h : PoolInv p hands held) (htmp : p.tmpList = x :: l) :
    PoolInv { p with tmpList := p.tmpList.erase x } (x :: hands) held := by
  refine h.move ?_ rfl rfl rfl h.frozen h.flagged
  intro e
  simp only [inLists, htmp, count_cons, erase_cons_head]
  omega

theorem receiverVfGet_inv (h : PoolInv p hands held) (hget : (receiverVfGet p).1 = some x) :
    PoolInv (receiverVfGet p).2 hands (x :: held) := by
  unfold receiverVfGet at *
  cases hfreeze : p.freeze with
  | true =>
    rw [hfreeze, if_pos rfl] at hget
    obtain ⟨init, hinit⟩ := getLast?_eq_some_iff.mp hget
    simp only [if_true, vfPoolGet, hinit, dropLast_concat]
    refine h.move ?_ rfl rfl rfl ?_ ?_
    · intro e
      simp only [inLists, hinit, count_append, count_cons, count_nil]
      omega
    · intro e he
      exact h.frozen e (hinit ▸ mem_append_left [x] he)
    · intro e he hflag
      rcases h.flagged e he hflag with hmem | hmem
      · rw [hinit, mem_append, mem_singleton] at hmem
        rcases hmem with hmem | rfl
        · exact .inl hmem
        · exact .inr mem_cons_self
      · exact .inr (mem_cons_of_mem x hmem)
  | false =>
    rw [hfreeze] at hget
    have hcount := @count_of_getLast? p.rdList x hget
    simp only [Bool.false_eq_true, if_false, vfPoolGet]
    refine h.move ?_ rfl rfl rfl h.frozen ?_
    · intro e
      have hlast := hcount e
      simp only [inLists, count_cons, count_nil] at *
      omega
    · intro e he hflag
      exact (h.flagged e he hflag).imp_right (mem_cons_of_mem x)

theorem recycle_eq (h : p.normal x = true) : recycle x p = { p with wrList := x :: p.wrList } := by
  simp [recycle, h, vfPoolPut]

theorem receiverVfPut_eq (hlt : x < p.size) (hnormal : p.normal x = true) : receiverVfPut x p =
      if p.freezed x ∧ p.freeze then { p with fzList := x :: p.fzList }
      else { p with wrList := x :: p.wrList, freezed := update p.freezed x false } := by
  unfold receiverVfPut
  cases hflag : p.freezed x with
  | true =>
    cases hfreeze : p.freeze with
    | true => simp [hlt, vfPoolPut]
    | false =>
      rw [recycle_eq (by exact hnormal)]
      simp [hlt]
  | false =>
    have hsame : update p.freezed x false = p.freezed := by rw [← hflag, update_eq_self]
    rw [recycle_eq hnormal]
    simp [hlt, hsame]

/-- An entry is put that the receiver held, or that the interrupt had in hand. -/
theorem receiverVfPut_inv (h : PoolInv p hands (x :: held)) : PoolInv (receiverVfPut x p) hands held := by
  have hlt : x < p.size := h.held_lt mem_cons_self
  have hone := h.owner x
  rw [if_pos hlt, inLists, count_cons_self] at hone
  rw [receiverVfPut_eq hlt (h.normal x hlt)]
  split
  next hfrozen =>
    refine h.move ?_ rfl rfl rfl ?_ ?_
    · intro e
      simp only [inLists, count_cons]
      omega
    · intro e he
      rcases mem_cons.mp he with rfl | he
      · exact hfrozen.1
      · exact h.frozen e he
    · intro e he hflag
      rcases h.flagged e he hflag with hmem | hmem
      · exact .inl (mem_cons_of_mem x hmem)
      · rcases mem_cons.mp hmem with rfl | hmem
        · exact .inl mem_cons_self
        · exact .inr hmem
  next =>
    refine h.move ?_ rfl rfl rfl ?_ ?_
    · intro e
      simp only [inLists, count_cons]
      omega
    · intro e he
      dsimp only at he ⊢
      have hne : e ≠ x := by
        rintro rfl
        have := count_pos_iff.mpr he
        omega
      rw [update_of_ne hne]
      exact h.frozen e he
    · intro e he hflag
      dsimp only at hflag ⊢
      have hne : e ≠ x := by
        rintro rfl
        simp at hflag
      rw [update_of_ne hne] at hflag
      exact (h.flagged e he hflag).imp_right fun hmem => (mem_cons.mp hmem).resolve_left hne

/-! ## The temporary list -/

theorem PoolInv.hand_over (h : PoolInv p (x :: hands) held) : PoolInv p hands (x :: held) := by
  refine h.move ?_ rfl rfl rfl h.frozen ?_
  · intro e
    simp only [count_cons]
    omega
  · intro e he hflag
    exact (h.flagged e he hflag).imp_right (mem_cons_of_mem x)

theorem receiverVfPut_hand (h : PoolInv p (x :: hands) held) : receiverVfPut x p = { p with wrList := x :: p.wrList } := by
  have hlt : x < p.size := h.hand_lt mem_cons_self
  have hflag := h.hand_not_frozen
  have hsame : update p.freezed x false = p.freezed := by rw [← hflag, update_eq_self]
  rw [receiverVfPut_eq hlt (h.normal x hlt), hflag, hsame]
  simp

theorem recycleTmpVfs_loop (h : PoolInv p hands held) (htmp : p.tmpList = l) :
    l.foldl (fun p pos => receiverVfPut pos { p with tmpList := p.tmpList.erase pos }) p =
        { p with wrList := l.reverse ++ p.wrList, tmpList := [] } ∧
      PoolInv { p with wrList := l.reverse ++ p.wrList, tmpList := [] } hands held := by
  induction l generalizing p with
  | nil =>
    have hsame : { p with wrList := [].reverse ++ p.wrList, tmpList := [] } = p := by
      cases p
      simp_all
    rw [hsame]
    exact ⟨rfl, h⟩
  | cons x l ih =>
    have hhand := tmpHead_inv h htmp
    have hput := receiverVfPut_hand hhand
    have hinv := receiverVfPut_inv hhand.hand_over
    have hrest := ih hinv (by rw [hput]; simp [htmp])
    rw [foldl_cons, reverse_cons, append_assoc]
    rw [hput] at hrest ⊢
    exact hrest

theorem recycleTmpVfs_eq (h : PoolInv p hands held) :
    recycleTmpVfs p = { p with wrList := p.tmpList.reverse ++ p.wrList, tmpList := [] } := (recycleTmpVfs_loop h rfl).1

theorem recycleTmpVfs_inv (h : PoolInv p hands held) : PoolInv (recycleTmpVfs p) hands held := by
  rw [recycleTmpVfs_eq h]
  exact (recycleTmpVfs_loop h rfl).2

variable {got : List Nat}

theorem tmpToRd_loop (h : PoolInv p hands held) (hordered : Ordered p.entered p.rdList got) (htmp : p.tmpList = l) :
    let p' := l.foldl (fun p pos => providerVfPut pos { p with tmpList := p.tmpList.erase pos }) p
    PoolInv p' hands held ∧ Ordered p'.entered p'.rdList got := by
  induction l generalizing p with
  | nil => exact ⟨h, hordered⟩
  | cons x l ih =>
    apply ih
    · exact providerVfPut_inv (tmpHead_inv h htmp)
    · exact hordered.enter x
    · simp [providerVfPut, htmp]

/-! ## Freezing -/

theorem PoolInv.freeze_entry {p' : VfPool} (h : PoolInv p hands held) (hcount : ∀ e, inLists p' e = inLists p e)
    (hsize : p'.size = p.size) (hnormal : p'.normal = p.normal) (hwaiting : p'.wtList = p.wtList)
    (hmem : ∀ e, e ∈ p'.fzList ↔ e = x ∨ e ∈ p.fzList) (hfreezed : p'.freezed = update p.freezed x true) :
    PoolInv p' hands held := by
  refine h.move (fun e => by rw [hcount]) hsize hnormal hwaiting ?_ ?_
  · intro e he
    rw [hfreezed]
    by_cases hex : e = x
    · rw [hex, update_self]
    · rw [update_of_ne hex]
      exact h.frozen e (((hmem e).mp he).resolve_left hex)
  · intro e he hflag
    rw [hmem]
    by_cases hex : e = x
    · exact .inl (.inl hex)
    · rw [hfreezed, update_of_ne hex] at hflag
      exact (h.flagged e he hflag).imp_left .inr

theorem erase_perm {m : List Nat} (h : m.Perm (x :: l)) : (m.erase x).Perm l := (cons_perm_iff_perm_erase.mp h.symm).2.symm

theorem count_erase_add {m : List Nat} (h : x ∈ m) (e : Nat) : (m.erase x).count e + [x].count e = m.count e := by
  rw [(perm_cons_erase h).count_eq e, count_cons, count_cons, count_nil]
  omega

section
variable (h : PoolInv p hands held)
include h

theorem freezeRd_inv {num : Nat} (hordered : Ordered p.entered p.rdList got) (hrd : p.rdList.Perm l) :
    PoolInv (freezeRd num l p) hands held ∧ Ordered (freezeRd num l p).entered (freezeRd num l p).rdList got := by
  induction l generalizing p with
  | nil => exact ⟨h, hordered⟩
  | cons x l ih =>
    have hmem : x ∈ p.rdList := hrd.symm.subset mem_cons_self
    simp only [freezeRd]
    have hnext : PoolInv
        { p with
          rdList := p.rdList.erase x
          fzList := p.fzList ++ [x]
          freezed := update p.freezed x true
          fzListSize := p.fzListSize + 1 } hands held := by
      refine @PoolInv.freeze_entry p hands held x _ h ?_ rfl rfl rfl ?_ rfl
      · intro e
        have hcount := count_erase_add hmem e
        simp only [inLists, count_append]
        omega
      · intro e
        simp [or_comm]
    have hleft := hordered.leave (@erase_sublist _ _ x p.rdList)
    split
    · exact ⟨hnext, hleft⟩
    · exact ih hnext hleft (erase_perm hrd)

theorem freezeWr_inv {num : Nat} (hwr : p.wrList.Perm l) :
    PoolInv (freezeWr num l p) hands held ∧ (freezeWr num l p).entered = p.entered ∧ (freezeWr num l p).rdList = p.rdList := by
  induction l generalizing p with
  | nil => exact ⟨h, rfl, rfl⟩
  | cons x l ih =>
    have hmem : x ∈ p.wrList := hwr.symm.subset mem_cons_self
    simp only [freezeWr]
    have hnext : PoolInv
        { p with
          wrList := p.wrList.erase x
          fzList := x :: p.fzList
          freezed := update p.freezed x true
          fzListSize := p.fzListSize + 1 } hands held := by
      refine @PoolInv.freeze_entry p hands held x _ h ?_ rfl rfl rfl ?_ rfl
      · intro e
        have hcount := count_erase_add hmem e
        simp only [inLists, count_cons, count_nil] at *
        omega
      · intro e
        simp
    split
    · exact ⟨hnext, rfl, rfl⟩
    · exact ih hnext (erase_perm hwr)

theorem PoolInv.set_freeze (freeze : Bool) (size : Nat) :
    PoolInv { p with freeze, fzListSize := size } hands held :=
  h.move (fun _ => rfl) rfl rfl rfl h.frozen h.flagged

theorem vdinVfFreeze_inv {num : Nat} (hordered : Ordered p.entered p.rdList got) :
    PoolInv (vdinVfFreeze p num) hands held ∧ Ordered (vdinVfFreeze p num).entered (vdinVfFreeze p num).rdList got := by
  have hset := h.set_freeze true p.fzListSize
  obtain ⟨hrd, hleft⟩ := freezeRd_inv hset hordered (List.Perm.refl _)
  simp only [vdinVfFreeze]
  split
  · split
    · obtain ⟨hwr, hentered, hsame⟩ := freezeWr_inv hrd (reverse_perm _).symm
      rw [hentered, hsame]
      exact ⟨hwr, hleft⟩
    · exact ⟨hrd, hleft⟩
  · exact ⟨hset, hordered⟩

theorem unfreezeAll_inv (hfz : p.fzList = l) :
    PoolInv (unfreezeAll l p) hands held ∧ (unfreezeAll l p).entered = p.entered ∧ (unfreezeAll l p).rdList = p.rdList := by
  induction l generalizing p with
  | nil => exact ⟨h, rfl, rfl⟩
  | cons x l ih =>
    have hlt : x < p.size := h.frozen_lt (hfz ▸ .head _)
    have hone := h.owner x
    rw [if_pos hlt, inLists, hfz, count_cons_self] at hone
    have hnot : x ∉ l := count_eq_zero.mp (by omega)
    simp only [unfreezeAll, hfz, erase_cons_head]
    apply ih _ rfl
    refine h.move ?_ rfl rfl rfl ?_ ?_
    · intro e
      simp only [inLists, hfz, count_append, count_cons, count_nil]
      omega
    · intro e he
      dsimp only at he ⊢
      have hne : e ≠ x := fun hex => hnot (hex ▸ he)
      rw [update_of_ne hne]
      exact h.frozen e (hfz ▸ mem_cons_of_mem x he)
    · intro e he hflag
      dsimp only at hflag ⊢
      have hne : e ≠ x := by
        rintro rfl
        simp at hflag
      rw [update_of_ne hne] at hflag
      refine (h.flagged e he hflag).imp_left fun hmem => ?_
      rw [hfz] at hmem
      exact (mem_cons.mp hmem).resolve_left hne

theorem vdinVfUnfreeze_inv :
    PoolInv (vdinVfUnfreeze p) hands held ∧ (vdinVfUnfreeze p).entered = p.entered ∧ (vdinVfUnfreeze p).rdList = p.rdList := by
  unfold vdinVfUnfreeze
  split
  · exact unfreezeAll_inv (h.set_freeze false 0) rfl
  · exact ⟨h, rfl, rfl⟩

end

end AmlogicV901d.Guarantees.CapturePool
