import AmlogicV901d.Lib.CircularOrder
import AmlogicV901d.Source.Ptsserv

/-!
# Which record a lookup finds

Runs of check-ins and lookups on a started table. A lookup that answers with a record answers
with the live record that its offset asks for, wherever the search starts; the conditions on a
lookup say that no live record is half of the circle away, and that the head of the list is
not taken for a record.
-/
namespace AmlogicV901d.Guarantees.PtsLookups
open Lib.CircularOrder Source.Ptsserv List

/-! ## Calls -/

/-- `headOffset` is the offset that the head of the list reads as. -/
inductive Op
  | checkin (offset val : UInt32) (uS64 : UInt64)
  | lookup (offset ptsMargin headOffset : UInt32)
  deriving Repr

def Op.exec (type : PtsType) (op : Op) (t : PtsTable) : Option PtsTable :=
  match op with
  | .checkin offset val uS64 => (ptsCheckinOffsetInline offset val uS64 t).map (·.2)
  | .lookup offset ptsMargin headOffset => (ptsLookupOffsetInlineLocked type offset ptsMargin headOffset t).map (·.2)

/-- Offsets, values and times of the records that were checked in. -/
abbrev Past := List (UInt32 × UInt32 × UInt64)

def Op.past (op : Op) (past : Past) : Past :=
  match op with
  | .checkin offset val uS64 => (offset, val, uS64) :: past
  | .lookup _ _ _ => past

/-! ## What is promised -/

/-- The record that a lookup asks for: the last one up to the offset if it is near enough, and
for video else the next one if that is. -/
def Chosen (type : PtsType) (live : List PtsRec) (offset : UInt32) (threshold : Int32) (p : PtsRec) : Prop :=
  (IsFloor PtsRec.offset live offset p ∧ offsetDiff offset p.offset < threshold) ∨
    (type = .video ∧ (∀ f, IsFloor PtsRec.offset live offset f → ¬ offsetDiff offset f.offset < threshold) ∧
      IsNext PtsRec.offset live offset p ∧ offsetDiff p.offset offset < threshold)

/-- Whatever valid place the search starts from, a record that is answered is live, chosen and
then used up. -/
def LookupOk (type : PtsType) (offset ptsMargin headOffset : UInt32) (t : PtsTable) (past : Past) : Prop :=
  ∀ search, (search = none ∨ ∃ p ∈ t.validList, search = some p.id) → ∀ val uS64 size t',
      ptsLookupOffsetInlineLocked type offset ptsMargin headOffset { t with ptsSearch := search } = some (.record val uS64 size, t') →
      ∃ p, Chosen type t.validList offset (threshold ptsMargin t) p ∧
        (∀ q, Chosen type t.validList offset (threshold ptsMargin t) q → q = p) ∧
        val = (if p.val = 0 then 1 else p.val) ∧ uS64 = p.ptsUS64 ∧ size = p.size ∧
        (p.offset, p.val, p.ptsUS64) ∈ past ∧ ∀ q ∈ t'.validList, q ∈ t.validList ∧ q.id ≠ p.id

def Op.Ok (type : PtsType) (t : PtsTable) (past : Past) : Op → Prop
  | .checkin _ _ _ => True
  | .lookup offset ptsMargin headOffset => LookupOk type offset ptsMargin headOffset t past

def RunOk (type : PtsType) : List Op → PtsTable → Past → Prop
  | [], _, _ => True
  | op :: ops, t, past => op.Ok type t past ∧ ∃ t', op.exec type t = some t' ∧ RunOk type ops t' (op.past past)

/-! ## Conditions -/

/-- The records that stay live at a check-in. -/
def staying (t : PtsTable) : List PtsRec := if t.freeList = [] then t.validList.tail else t.validList

/-- Video, the last record farther than the threshold, and the head within it. -/
def HeadTaken (type : PtsType) (offset : UInt32) (threshold : Int32) (headOffset : UInt32) (live : List PtsRec) : Prop :=
  type = .video ∧ intAbs (offsetDiff offset headOffset) < threshold ∧
    ∃ p, live.getLast? = some p ∧ threshold < offsetDiff offset p.offset

def Op.Admissible (type : PtsType) (t : PtsTable) : Op → Prop
  | .checkin offset _ _ => ∀ p ∈ staying t, Before p.offset offset
  | .lookup offset ptsMargin headOffset => (∀ p ∈ t.validList, offset - p.offset ≠ 0x80000000) ∧
      ¬ HeadTaken type offset (threshold ptsMargin t) headOffset t.validList

def RunAdmissible (type : PtsType) : List Op → PtsTable → Prop
  | [], _ => True
  | op :: ops, t => op.Admissible type t ∧ ∀ t', op.exec type t = some t' → RunAdmissible type ops t'

/-! ## Searching -/

section Search
variable {offset headOffset : UInt32} {valid before after gone passed : List PtsRec} {free : List Nat} {search : Option Nat}
  {p q r : PtsRec}

theorem offsetLater_iff {x y : UInt32} : offsetLater x y = true ↔ Before y x := by
  rw [offsetLater, decide_eq_true_eq, offsetDiff, sub_toInt32_pos]

theorem offsetEqLater_iff {x y : UInt32} : offsetEqLater x y = true ↔ UpTo y x := by
  rw [offsetEqLater, decide_eq_true_eq, offsetDiff, sub_toInt32_nonneg]

/-- The search starts at the head or at a record of the list. -/
def At (search : Option Nat) (valid : List PtsRec) : Prop := search = none ∨ ∃ p ∈ valid, search = some p.id

theorem prune_spec (hat : At search valid) : ∃ gone, valid = gone ++ (prune offset valid free search).1 ∧
    (prune offset valid free search).2.1 = free ++ gone.map (·.id) ∧
    At (prune offset valid free search).2.2 (prune offset valid free search).1 := by
  fun_induction prune offset valid free search with
  | case1 | case3 => exact ⟨[], rfl, (append_nil _).symm, hat⟩
  | case2 rec recs free search _ ih =>
    have hnext : At (if search = some rec.id then recs.head?.map (·.id) else search) recs := by
      by_cases hrec : search = some rec.id
      · rw [if_pos hrec]
        cases recs with
        | nil => exact .inl rfl
        | cons n recs => exact .inr ⟨n, .head _, rfl⟩
      · rw [if_neg hrec]
        refine hat.imp_right ?_
        rintro ⟨p, hp, hid⟩
        rcases mem_cons.mp hp with rfl | hp
        · exact absurd hid hrec
        · exact ⟨p, hp, hid⟩
    obtain ⟨gone, hvalid, hfree, hat'⟩ := ih hnext
    refine ⟨rec :: gone, congrArg (rec :: ·) hvalid, ?_, hat'⟩
    rw [hfree, append_assoc]
    rfl

theorem splitAtId_some {id : Nat} {acc : List PtsRec} (h : ∃ p ∈ valid, id = p.id) :
    ∃ before p after, splitAtId id acc valid = some (before, p, after) ∧ acc.reverse ++ valid = before.reverse ++ p :: after := by
  obtain ⟨p, hp, hpid⟩ := h
  fun_induction splitAtId id acc valid with
  | case1 => exact nomatch hp
  | case2 acc rec recs => exact ⟨acc, rec, recs, rfl, rfl⟩
  | case3 acc rec recs hid ih =>
    have hp' := (mem_cons.mp hp).resolve_left fun heq => hid (heq ▸ hpid.symm)
    obtain ⟨before, p, after, hsplit, heq⟩ := ih hp'
    refine ⟨before, p, after, hsplit, ?_⟩
    rw [← heq, reverse_cons, append_assoc]
    rfl

theorem searchStart_some (hat : At search valid) (hne : valid ≠ []) :
    ∃ before p after, searchStart search valid = some (before, p, after) ∧ valid = before.reverse ++ p :: after ∧
      (search = none → before = []) := by
  rcases hat with rfl | ⟨p, hp, rfl⟩
  · cases valid with
    | nil => exact absurd rfl hne
    | cons rec recs => exact ⟨[], rec, recs, rfl, rfl, fun _ => rfl⟩
  · obtain ⟨before, p', after, hsplit, heq⟩ := @splitAtId_some valid p.id [] ⟨p, hp, rfl⟩
    exact ⟨before, p', after, hsplit, heq, nofun⟩

theorem forward_spec (h : Sorted PtsRec.offset (before ++ p :: after)) (hup : UpTo p.offset offset)
    (hhalf : ∀ q ∈ after, offset - q.offset ≠ 0x80000000) :
    ∃ rest, p :: after = (forward offset p after).1 ++ (forward offset p after).2.1 :: rest ∧
      (forward offset p after).2.2 = rest.head? ∧ UpTo (forward offset p after).2.1.offset offset ∧
      ∀ q, rest.head? = some q → Before offset q.offset := by
  fun_induction forward offset p after generalizing before with
  | case1 => exact ⟨[], rfl, rfl, hup, nofun⟩
  | case2 p n after hlater =>
    refine ⟨n :: after, rfl, rfl, hup, fun q hq => ?_⟩
    rw [← Option.some.inj hq]
    exact offsetLater_iff.mp hlater
  | case3 p n after hlater _ _ _ hforward ih =>
    have hn := upTo_of_not_before (hhalf n mem_cons_self) (mt offsetLater_iff.mpr hlater)
    have hsorted : Sorted PtsRec.offset ((before ++ [p]) ++ n :: after) := by rwa [append_assoc]
    obtain ⟨rest, hsplit, hstop, hlast, hrest⟩ := hforward ▸ ih hsorted hn (forall_mem_cons.mp hhalf).2
    exact ⟨rest, congrArg (p :: ·) hsplit, hstop, hlast, hrest⟩

/-- The last record up to the offset; or for video the next one, where that one is too far. -/
def Found (type : PtsType) (live : List PtsRec) (offset : UInt32) (threshold : Int32) (p : PtsRec) : Prop :=
  IsFloor PtsRec.offset live offset p ∨
    (type = .video ∧ (∃ f, IsFloor PtsRec.offset live offset f ∧ threshold < offsetDiff offset f.offset) ∧
      IsNext PtsRec.offset live offset p ∧ offsetDiff p.offset offset < threshold)

theorem intAbs_of_before (h : Before offset p.offset) : intAbs (offsetDiff offset p.offset) = offsetDiff p.offset offset := by
  have hneg : ¬ 0 ≤ offsetDiff offset p.offset := fun hnonneg => h.not_upTo (sub_toInt32_nonneg.mp hnonneg)
  rw [intAbs, if_pos (Int32.not_le.mp hneg), offsetDiff, offsetDiff, ← UInt32.toInt32_neg, UInt32.neg_sub]

theorem searchFrom_forward {type : PtsType} {threshold : Int32} (h : Sorted PtsRec.offset (gone ++ p :: after)) (hup : Before p.offset offset)
    (hhalf : ∀ q ∈ after, offset - q.offset ≠ 0x80000000) (hhead : ¬ HeadTaken type offset threshold headOffset (gone ++ p :: after)) :
    ∃ r passed, searchFrom type offset threshold headOffset before p after = (some (.item r), passed) ∧
      Found type (gone ++ p :: after) offset threshold r ∧ r ∈ p :: after ∧
      (type = .audio → ∃ rest, p :: after = passed ++ r :: rest) := by
  obtain ⟨rest, hsplit, hstop, hlast, hrest⟩ := forward_spec h hup.upTo hhalf
  rw [searchFrom, if_pos (offsetLater_iff.mpr hup)]
  obtain ⟨⟨passed, p2, stop⟩, hforward⟩ : ∃ f, forward offset p after = f := ⟨_, rfl⟩
  rw [hforward] at hsplit hstop hlast ⊢
  dsimp only at hsplit hstop hlast ⊢
  have hfull : gone ++ p :: after = (gone ++ passed) ++ p2 :: rest := by rw [hsplit, append_assoc]
  have hsorted : Sorted PtsRec.offset ((gone ++ passed) ++ p2 :: rest) := hfull ▸ h
  have hp2 : p2 ∈ p :: after := hsplit ▸ mem_append_right _ mem_cons_self
  have hfloor : IsFloor PtsRec.offset (gone ++ p :: after) offset p2 := by
    rw [hfull]
    exact isFloor_of_split hsorted hlast fun n hn => (hrest n hn).not_upTo
  by_cases hnext : type = .video ∧ offsetDiff offset p2.offset > threshold ∧
      intAbs (offsetDiff offset ((stop.map (·.offset)).getD headOffset)) < threshold
  · rw [if_pos hnext]
    obtain ⟨hvideo, hfar, hnear⟩ := hnext
    cases rest with
    | nil =>
      -- the loop ended at the head
      refine absurd ⟨hvideo, ?_, p2, ?_, hfar⟩ hhead
      · rw [hstop] at hnear
        exact hnear
      · rw [hfull, getLast?_append]
        rfl
    | cons n rest =>
      have hn := hrest n rfl
      rw [hstop] at hnear ⊢
      have hdist : offsetDiff n.offset offset < threshold := intAbs_of_before hn ▸ hnear
      refine ⟨n, passed, rfl, .inr ⟨hvideo, ⟨p2, hfloor, hfar⟩, ?_, hdist⟩, ?_, fun haudio => ?_⟩
      · rw [hfull]
        exact isNext_of_split hsorted hlast hn
      · rw [hsplit]
        exact mem_append_right _ (.tail _ mem_cons_self)
      · exact nomatch hvideo.symm.trans haudio
  · rw [if_neg hnext]
    exact ⟨p2, passed, rfl, .inl hfloor, hp2, fun _ => ⟨rest, hsplit⟩⟩

theorem searchFrom_spec {type : PtsType} {threshold : Int32} (h : Sorted PtsRec.offset (gone ++ (before.reverse ++ p :: after)))
    (hhalf : ∀ q ∈ before.reverse ++ p :: after, offset - q.offset ≠ 0x80000000)
    (hhead : ¬ HeadTaken type offset threshold headOffset (gone ++ (before.reverse ++ p :: after))) :
    searchFrom type offset threshold headOffset before p after = (none, []) ∨
      ∃ r passed, searchFrom type offset threshold headOffset before p after = (some (.item r), passed) ∧
        Found type (gone ++ (before.reverse ++ p :: after)) offset threshold r ∧ r ∈ before.reverse ++ p :: after ∧
        (type = .audio → before = [] → ∃ rest, p :: after = passed ++ r :: rest) := by
  have hassoc : gone ++ (before.reverse ++ p :: after) = (gone ++ before.reverse) ++ p :: after := (append_assoc _ _ _).symm
  by_cases hup : Before p.offset offset
  · rw [hassoc] at h hhead ⊢
    obtain ⟨r, passed, hrun, hfound, hmem, haudio⟩ := @searchFrom_forward offset headOffset before after (gone ++ before.reverse) p type
      threshold h hup (fun q hq => hhalf q (mem_append_right _ (.tail _ hq))) hhead
    exact .inr ⟨r, passed, hrun, hfound, mem_append_right _ hmem, fun ha _ => haudio ha⟩
  · rw [searchFrom, if_neg (mt offsetLater_iff.mp hup)]
    by_cases hlater : Before offset p.offset
    · rw [if_pos (offsetLater_iff.mpr hlater)]
      cases hback : backward offset before with
      | none => exact .inl rfl
      | some r =>
        obtain ⟨hr, near, far, hbefore, hnear⟩ := find?_eq_some_iff_append.mp hback
        have hrx : UpTo r.offset offset := offsetEqLater_iff.mp hr
        have hfull : gone ++ (before.reverse ++ p :: after) = (gone ++ far.reverse) ++ r :: (near.reverse ++ p :: after) := by
          rw [hbefore]
          simp
        have hsorted : Sorted PtsRec.offset ((gone ++ far.reverse) ++ r :: (near.reverse ++ p :: after)) := hfull ▸ h
        have hnext : ∀ n, (near.reverse ++ p :: after).head? = some n → ¬ UpTo n.offset offset := by
          intro n hn hnx
          rw [head?_append, Option.or_eq_some_iff] at hn
          rcases hn with hn | ⟨_, ⟨⟩⟩
          · have hno := hnear n (mem_reverse.mp (mem_of_head? hn))
            rw [offsetEqLater_iff.mpr hnx] at hno
            exact nomatch hno
          · exact hlater.not_upTo hnx
        refine .inr ⟨r, [], rfl, .inl ?_, ?_, fun _ hnil => ?_⟩
        · rw [hfull]
          exact isFloor_of_split hsorted hrx hnext
        · rw [hbefore]
          exact mem_append_left _ (mem_reverse.mpr (mem_append_right _ mem_cons_self))
        · rw [hnil] at hbefore
          exact absurd hbefore.symm (append_ne_nil_of_right_ne_nil _ (cons_ne_nil _ _))
    · rw [if_neg (mt offsetLater_iff.mp hlater)]
      have hpx := upTo_of_not_before (hhalf p (mem_append_right _ mem_cons_self)) hlater
      have hequal : dist p.offset offset = 0 := Nat.eq_zero_of_not_pos fun hpos => hup ⟨hpos, hpx⟩
      refine .inr ⟨p, [], rfl, .inl ?_, mem_append_right _ mem_cons_self, fun _ _ => ⟨after, rfl⟩⟩
      rw [hassoc] at h ⊢
      refine isFloor_of_split h hpx fun n hn => ?_
      rw [← dist_zero hequal]
      exact (h.split.2.1 n (mem_of_head? hn)).not_upTo

end Search

/-! ## Lookups -/

section Lookups
variable {type : PtsType} {offset ptsMargin headOffset : UInt32} {t : PtsTable} {past : Past}

theorem pruneTable_spec (hat : At t.ptsSearch t.validList) : ∃ gone, t.validList = gone ++ (pruneTable type offset t).validList ∧
    (pruneTable type offset t).freeList = t.freeList ++ gone.map (·.id) ∧
    At (pruneTable type offset t).ptsSearch (pruneTable type offset t).validList ∧
    (type = .audio → (pruneTable type offset t).ptsSearch = t.ptsSearch) := by
  rw [pruneTable]
  by_cases hvideo : type = .video
  · rw [if_pos hvideo]
    obtain ⟨gone, hvalid, hfree, hat'⟩ := prune_spec hat
    exact ⟨gone, hvalid, hfree, hat', fun haudio => nomatch hvideo.symm.trans haudio⟩
  · rw [if_neg hvideo]
    exact ⟨[], rfl, (append_nil _).symm, hat, fun _ => rfl⟩

/-- The ends of a lookup. -/
theorem lookup_cases (hsorted : Sorted PtsRec.offset t.validList) (hat : At t.ptsSearch t.validList)
    (hok : (Op.lookup offset ptsMargin headOffset).Admissible type t) :
    let pruned := pruneTable type offset t
    let out := ptsLookupOffsetInlineLocked type offset ptsMargin headOffset t
    (∃ answer, out = some (answer, t) ∧ ∀ val uS64 size, answer ≠ .record val uS64 size) ∨
    out = some (.fail, pruned) ∨ out = some (lookupFailed pruned) ∨
    ∃ r passed, out = some (finish type offset (threshold ptsMargin t) r (dropPassed type passed pruned)) ∧
      Found type t.validList offset (threshold ptsMargin t) r ∧ r ∈ pruned.validList ∧
      (type = .audio → t.ptsSearch = none → ∃ rest, pruned.validList = passed ++ r :: rest) := by
  obtain ⟨gone, hvalid, _, hat', haudio⟩ := pruneTable_spec hat
  by_cases hrunning : t.status ≠ .running
  · refine .inl ⟨.fail, ?_, fun _ _ _ => Answer.noConfusion⟩
    rw [ptsLookupOffsetInlineLocked, if_pos hrunning]
  by_cases hcache : t.lookupCacheValid ∧ offset = t.lookupCacheOffset
  · refine .inl ⟨.cached t.lookupCachePts t.lookupCachePtsUS64, ?_, fun _ _ _ => Answer.noConfusion⟩
    rw [ptsLookupOffsetInlineLocked, if_neg hrunning, if_pos hcache]
  refine .inr ?_
  rw [ptsLookupOffsetInlineLocked, if_neg hrunning, if_neg hcache, lookupIn]
  by_cases hempty : (pruneTable type offset t).validList = []
  · rw [if_pos hempty]
    exact .inl rfl
  rw [if_neg hempty]
  refine .inr ?_
  obtain ⟨before, p, after, hstart, hsplit, hnil⟩ := searchStart_some hat' hempty
  obtain ⟨hhalf, hhead⟩ := hok
  rw [hsplit] at hvalid
  rw [hvalid] at hsorted hhalf hhead
  rw [hstart]
  dsimp only
  rcases searchFrom_spec hsorted (fun q hq => hhalf q (mem_append_right _ hq)) hhead with hnone | ⟨r, passed, hsome, hfound, hmem, hpassed⟩
  · rw [hnone]
    exact .inl rfl
  rw [hsome]
  refine .inr ⟨r, passed, rfl, ?_, ?_, fun ha hsearch => ?_⟩
  · rw [hvalid]
    exact hfound
  · rw [hsplit]
    exact hmem
  · have hbefore := hnil ((haudio ha).trans hsearch)
    obtain ⟨rest, hrest⟩ := hpassed ha hbefore
    exact ⟨rest, by rw [hsplit, hbefore, hrest]; rfl⟩

theorem Found.chosen {threshold : Int32} {live : List PtsRec} {p : PtsRec} (hsorted : Sorted PtsRec.offset live)
    (h : Found type live offset threshold p) (hnear : offsetDiff offset p.offset < threshold) :
    Chosen type live offset threshold p := by
  rcases h with hfloor | ⟨hvideo, ⟨f, hfloor, hfar⟩, hnext, hdist⟩
  · exact .inl ⟨hfloor, hnear⟩
  · refine .inr ⟨hvideo, fun f' hf' => ?_, hnext, hdist⟩
    rw [hfloor.unique hsorted hf']
    exact Int32.not_lt.mpr (Int32.le_of_lt hfar)

theorem Chosen.unique {threshold : Int32} {live : List PtsRec} {p q : PtsRec} (hsorted : Sorted PtsRec.offset live)
    (hp : Chosen type live offset threshold p) (hq : Chosen type live offset threshold q) : q = p := by
  rcases hp with ⟨hp, hnear⟩ | ⟨_, hfar, hp, _⟩
  · rcases hq with ⟨hq, _⟩ | ⟨_, hfar, _, _⟩
    · exact hp.unique hsorted hq
    · exact absurd hnear (hfar p hp)
  · rcases hq with ⟨hq, hnear⟩ | ⟨_, _, hq, _⟩
    · exact absurd hnear (hfar q hq)
    · exact hp.unique hsorted hq

theorem lookupFailed_not_record (t : PtsTable) (val : UInt32) (uS64 : UInt64) (size : UInt32) (t' : PtsTable) :
    lookupFailed t ≠ (.record val uS64 size, t') := by
  rw [lookupFailed]
  split <;> exact fun h => Answer.noConfusion (congrArg Prod.fst h)

theorem finish_record {threshold : Int32} {p : PtsRec} {val : UInt32} {uS64 : UInt64} {size : UInt32} {t' : PtsTable}
    (h : finish type offset threshold p t = (.record val uS64 size, t')) :
    offsetDiff offset p.offset < threshold ∧ val = (if p.val = 0 then 1 else p.val) ∧ uS64 = p.ptsUS64 ∧ size = p.size ∧
      t'.validList = t.validList.filter (·.id ≠ p.id) := by
  unfold finish at h
  split at h
  · next hnear =>
    obtain ⟨hanswer, htable⟩ := Prod.mk.inj h
    obtain ⟨hval, huS64, hsize⟩ := Answer.record.inj hanswer
    refine ⟨hnear, hval.symm, huS64.symm, hsize.symm, ?_⟩
    rw [← htable]
    rfl
  · split at h
    · split at h <;> exact Answer.noConfusion (congrArg Prod.fst h)
    · exact absurd h (lookupFailed_not_record _ _ _ _ _)

theorem dropPassed_valid (passed : List PtsRec) : (dropPassed type passed t).validList.Sublist t.validList := by
  rw [dropPassed]
  split
  · exact filter_sublist
  · exact List.Sublist.refl _

/-- From every valid place, the record that is answered is the chosen one. -/
theorem lookupOk_of_sorted (hsorted : Sorted PtsRec.offset t.validList) (hpast : ∀ p ∈ t.validList, (p.offset, p.val, p.ptsUS64) ∈ past)
    (hok : (Op.lookup offset ptsMargin headOffset).Admissible type t) : LookupOk type offset ptsMargin headOffset t past := by
  intro search hat val uS64 size t' hrun
  obtain ⟨gone, hsplit, _⟩ := @pruneTable_spec type offset { t with ptsSearch := search } hat
  have hlive : ∀ q ∈ (pruneTable type offset { t with ptsSearch := search }).validList, q ∈ t.validList := fun q hq =>
    hsplit ▸ mem_append_right gone hq
  obtain ⟨answer, hsame, hno⟩ | hfail | hfail | ⟨r, passed, hfinish, hfound, hmem, _⟩ :=
    @lookup_cases type offset ptsMargin headOffset { t with ptsSearch := search } hsorted hat hok
  · rw [hsame] at hrun
    exact absurd (congrArg Prod.fst (Option.some.inj hrun)) (hno _ _ _)
  · rw [hfail] at hrun
    exact Answer.noConfusion (congrArg Prod.fst (Option.some.inj hrun))
  · rw [hfail] at hrun
    exact absurd (Option.some.inj hrun) (lookupFailed_not_record _ _ _ _ _)
  rw [hfinish] at hrun
  obtain ⟨hnear, hval, huS64, hsize, hlist⟩ := finish_record (Option.some.inj hrun)
  have hchosen : Chosen type t.validList offset (threshold ptsMargin t) r := hfound.chosen hsorted hnear
  refine ⟨r, hchosen, fun q hq => hchosen.unique hsorted hq, hval, huS64, hsize, hpast r (hlive r hmem), fun q hq => ?_⟩
  rw [hlist] at hq
  obtain ⟨hq, hid⟩ := mem_filter.mp hq
  exact ⟨hlive q ((dropPassed_valid passed).subset hq), of_decide_eq_true hid⟩

end Lookups

/-! ## The lists -/

/-- The names of all records. -/
def ids (t : PtsTable) : List Nat := t.validList.map (·.id) ++ t.freeList

structure Inv (type : PtsType) (t : PtsTable) (past : Past) : Prop where
  some : ids t ≠ []
  nodup : (ids t).Nodup
  sorted : Sorted PtsRec.offset t.validList
  search : At t.ptsSearch t.validList
  -- audio starts every search at the first record
  audio : type = .audio → t.ptsSearch = none
  past : ∀ p ∈ t.validList, (p.offset, p.val, p.ptsUS64) ∈ past

section Lists
variable {type : PtsType} {offset ptsMargin headOffset : UInt32} {t t' : PtsTable} {past : Past} {r : PtsRec} {before after : List PtsRec}

theorem Inv.freed (h : Inv type t past) (hsub : t'.validList.Sublist t.validList) (hids : (ids t').Perm (ids t))
    (hsearch : At t'.ptsSearch t'.validList) (haudio : type = .audio → t'.ptsSearch = none) : Inv type t' past where
  some hnil := h.some (nil_perm.mp (hnil ▸ hids))
  nodup := hids.nodup_iff.mpr h.nodup
  sorted := List.Pairwise.sublist hsub h.sorted
  search := hsearch
  audio := haudio
  past p hp := h.past p (hsub.subset hp)

/-- Records of the front are freed. -/
theorem Inv.freed_front (h : Inv type t past) (hvalid : t.validList = before ++ t'.validList)
    (hfree : t'.freeList = t.freeList ++ before.map (·.id)) (hsearch : At t'.ptsSearch t'.validList)
    (haudio : type = .audio → t'.ptsSearch = none) : Inv type t' past := by
  refine h.freed (List.IsSuffix.sublist ⟨before, hvalid.symm⟩) ?_ hsearch haudio
  rw [ids, ids, hfree, hvalid, map_append, ← append_assoc, append_assoc (before.map (·.id))]
  exact perm_append_comm

theorem ids_apart (h : ((before ++ r :: after).map (·.id)).Nodup) : (∀ q ∈ before, q.id ≠ r.id) ∧ ∀ q ∈ after, q.id ≠ r.id := by
  rw [map_append, map_cons, nodup_append] at h
  obtain ⟨_, htail, hcross⟩ := h
  refine ⟨fun q hq => hcross q.id (mem_map_of_mem hq) r.id mem_cons_self, fun q hq heq => ?_⟩
  exact (nodup_cons.mp htail).1 (heq ▸ mem_map_of_mem hq)

theorem filter_id (h : ((before ++ r :: after).map (·.id)).Nodup) : (before ++ r :: after).filter (·.id ≠ r.id) = before ++ after := by
  obtain ⟨hbefore, hafter⟩ := ids_apart h
  rw [filter_append, filter_cons_of_neg (by simp), filter_eq_self.mpr fun q hq => decide_eq_true (hbefore q hq),
    filter_eq_self.mpr fun q hq => decide_eq_true (hafter q hq)]

theorem prevId_split (h : ∀ q ∈ before, q.id ≠ r.id) (prev : Option Nat) :
    prevId r.id prev (before ++ r :: after) = (before.getLast?.map (·.id)).or prev := by
  induction before generalizing prev with
  | nil => exact if_pos rfl
  | cons q before ih =>
    rw [cons_append, prevId, if_neg (h q mem_cons_self), ih fun w hw => h w (.tail _ hw)]
    cases before with
    | nil => rfl
    | cons w before =>
      rfl

/-- The record before another one is still there when that one is gone. -/
theorem consume_inv {val : UInt32} (h : Inv type t past) (hr : r ∈ t.validList) (haudio : type = .audio → ∃ rest, t.validList = r :: rest) :
    Inv type (consume r.id offset val t) past := by
  obtain ⟨before, after, hsplit⟩ := append_of_mem hr
  have hnodup := (nodup_append.mp h.nodup).1
  rw [hsplit] at hnodup
  have hvalid : (consume r.id offset val t).validList = before ++ after := by
    rw [← filter_id hnodup, ← hsplit]
    rfl
  have hsearch : (consume r.id offset val t).ptsSearch = before.getLast?.map (·.id) := by
    show prevId r.id none t.validList = _
    rw [hsplit, prevId_split (ids_apart hnodup).1, Option.or_none]
  refine h.freed ?_ ?_ ?_ fun ha => ?_
  · rw [hvalid, hsplit]
    exact .append_left (sublist_cons_self _ _) _
  · rw [ids, ids, hvalid, hsplit]
    show ((before ++ after).map (·.id) ++ (t.freeList ++ [r.id])).Perm _
    rw [map_append, map_append, map_cons]
    rw [← append_assoc]
    exact (perm_append_singleton _ _).trans (perm_middle.symm.append_right _)
  · rw [hsearch, hvalid]
    cases hlast : before.getLast? with
    | none => exact .inl rfl
    | some q => exact .inr ⟨q, mem_append_left _ (mem_of_getLast? hlast), rfl⟩
  · obtain ⟨rest, hrest⟩ := haudio ha
    have hnil : before = [] := by
      cases before with
      | nil => rfl
      | cons q before =>
        rw [hrest] at hsplit
        obtain ⟨rfl, _⟩ := List.cons.inj hsplit
        exact absurd rfl ((ids_apart hnodup).1 r mem_cons_self)
    rw [hsearch, hnil]
    rfl

section
variable (h : Inv type t past)
include h

theorem pruneTable_inv : Inv type (pruneTable type offset t) past := by
  obtain ⟨gone, hvalid, hfree, hat, haudio⟩ := pruneTable_spec h.search
  exact h.freed_front hvalid hfree hat fun ha => (haudio ha).trans (h.audio ha)

/-- Audio: what is passed stands in front of the record that is found. -/
theorem dropPassed_inv {passed : List PtsRec}
    (haudio : type = .audio → ∃ rest, t.validList = passed ++ r :: rest) :
    Inv type (dropPassed type passed t) past ∧ (type = .audio → ∃ rest, (dropPassed type passed t).validList = r :: rest) := by
  by_cases ha : type = .audio
  · obtain ⟨rest, hsplit⟩ := haudio ha
    have hnodup := (nodup_append.mp h.nodup).1
    rw [hsplit, map_append, nodup_append] at hnodup
    have hvalid : (dropPassed type passed t).validList = r :: rest := by
      rw [dropPassed, if_pos ha]
      have hgone : passed.filter (fun p => !passed.any (·.id = p.id)) = [] := by
        refine filter_eq_nil_iff.mpr fun p hp => ?_
        rw [any_eq_true.mpr ⟨p, hp, decide_eq_true rfl⟩]
        decide
      have hstay : (r :: rest).filter (fun p => !passed.any (·.id = p.id)) = r :: rest := by
        refine filter_eq_self.mpr fun p hp => ?_
        rw [any_eq_false.mpr fun q hq heq => hnodup.2.2 q.id (mem_map_of_mem hq) p.id (mem_map_of_mem hp) (of_decide_eq_true heq)]
        rfl
      rw [hsplit, filter_append, hgone, hstay]
      rfl
    have hfree : (dropPassed type passed t).freeList = t.freeList ++ passed.map (·.id) := by
      rw [dropPassed, if_pos ha]
    have hsearch : (dropPassed type passed t).ptsSearch = none := by
      rw [dropPassed, if_pos ha]
      exact h.audio ha
    exact ⟨h.freed_front (hvalid.symm ▸ hsplit) hfree (.inl hsearch) fun _ => hsearch, fun _ => ⟨rest, hvalid⟩⟩
  · rw [dropPassed, if_neg ha]
    exact ⟨h, fun haudio => absurd haudio ha⟩

theorem lookupFailed_inv : Inv type (lookupFailed t).2 past := by
  rw [lookupFailed]
  split
  · exact h
  · exact { h with }

theorem finish_inv {threshold : Int32} (hr : r ∈ t.validList) (haudio : type = .audio → ∃ rest, t.validList = r :: rest) :
    Inv type (finish type offset threshold r t).2 past := by
  unfold finish
  split
  · have hconsumed := @consume_inv type offset t past r (if r.val = 0 then 1 else r.val) h hr haudio
    exact { hconsumed with }
  split
  · split
    · exact consume_inv h hr haudio
    · exact h
  · exact lookupFailed_inv h

theorem lookup_inv (hok : (Op.lookup offset ptsMargin headOffset).Admissible type t) :
    ∃ t', (Op.lookup offset ptsMargin headOffset).exec type t = some t' ∧ Inv type t' past := by
  rw [Op.exec]
  obtain ⟨answer, hsame, _⟩ | hfail | hfail | ⟨r, passed, hfinish, _, hmem, haudio⟩ := lookup_cases h.sorted h.search hok
  · rw [hsame]
    exact ⟨t, rfl, h⟩
  · rw [hfail]
    exact ⟨_, rfl, pruneTable_inv h⟩
  · rw [hfail]
    exact ⟨_, rfl, lookupFailed_inv (pruneTable_inv h)⟩
  rw [hfinish]
  obtain ⟨hdropped, hfirst⟩ := dropPassed_inv (pruneTable_inv h) fun ha => haudio ha (h.audio ha)
  refine ⟨_, rfl, finish_inv hdropped ?_ hfirst⟩
  by_cases ha : type = .audio
  · obtain ⟨rest, hrest⟩ := hfirst ha
    rw [hrest]
    exact .head _
  · rw [dropPassed, if_neg ha]
    exact hmem

end

/-! ### Check-ins -/

/-- Everything of a record but its size. -/
def face (p : PtsRec) : Nat × UInt32 × UInt32 × UInt64 := (p.id, p.offset, p.val, p.ptsUS64)

theorem resizeLast_face (offset last : UInt32) (l : List PtsRec) : (resizeLast offset last l).map face = l.map face := by
  induction l with
  | nil => rfl
  | cons p l ih =>
    cases l with
    | nil =>
      rw [resizeLast]
      split <;> rfl
    | cons q l =>
      show (p :: resizeLast offset last (q :: l)).map face = _
      rw [map_cons, ih]
      rfl

theorem sorted_of_face {l l' : List PtsRec} (h : l'.map face = l.map face) (hsorted : Sorted PtsRec.offset l) : Sorted PtsRec.offset l' := by
  have hoffsets : l'.map PtsRec.offset = l.map PtsRec.offset := by
    have hmap := congrArg (List.map (·.2.1)) h
    rwa [map_map, map_map] at hmap
  have hpairs : (l'.map PtsRec.offset).Pairwise Before := hoffsets ▸ pairwise_map.mpr hsorted
  exact pairwise_map.mp hpairs

theorem mem_of_face {l l' : List PtsRec} (h : l'.map face = l.map face) {p : PtsRec} (hp : p ∈ l') : ∃ q ∈ l, face p = face q := by
  have hmem : face p ∈ l.map face := h ▸ mem_map_of_mem hp
  obtain ⟨q, hq, heq⟩ := mem_map.mp hmem
  exact ⟨q, hq, heq.symm⟩

theorem takeRec_spec {valid : List PtsRec} {free : List Nat} (hsome : valid.map (·.id) ++ free ≠ []) :
    ∃ id stay free', takeRec valid free = some (id, stay, free') ∧ stay = (if free = [] then valid.tail else valid) ∧
      (stay.map (·.id) ++ id :: free').Perm (valid.map (·.id) ++ free) ∧ ∀ p ∈ valid, p ∈ stay ∨ p.id = id := by
  cases free with
  | cons id free => exact ⟨id, valid, free, rfl, (if_neg (cons_ne_nil _ _)).symm, List.Perm.refl _, fun p hp => .inl hp⟩
  | nil =>
    cases valid with
    | nil => exact absurd rfl hsome
    | cons p valid =>
      refine ⟨p.id, valid, [], rfl, (if_pos rfl).symm, ?_, fun q hq => ?_⟩
      · rw [append_nil]
        exact perm_append_singleton _ _
      · rcases mem_cons.mp hq with rfl | hq
        · exact .inr rfl
        · exact .inl hq

theorem checkin_run {val : UInt32} {uS64 : UInt64} {id : Nat} {stay : List PtsRec} {free : List Nat}
    (hstatus : t.status = .running ∨ t.status = .loading)
    (htake : takeRec (resizeLast offset t.lastCheckinOffset t.validList) t.freeList = some (id, stay, free)) :
    ∃ t' size, (Op.checkin offset val uS64).exec type t = some t' ∧ t'.validList = stay ++ [⟨id, offset, val, size, uS64⟩] ∧
      t'.freeList = free ∧ t'.ptsSearch = t.ptsSearch := by
  rw [Op.exec, ptsCheckinOffsetInline, if_pos hstatus]
  by_cases hfirst : t.firstCheckinPts = 0xffffffff
  · rw [if_pos hfirst]
    dsimp only
    rw [htake]
    exact ⟨_, _, rfl, rfl, rfl, rfl⟩
  · rw [if_neg hfirst]
    dsimp only
    rw [htake]
    exact ⟨_, _, rfl, rfl, rfl, rfl⟩

theorem checkin_inv {val : UInt32} {uS64 : UInt64} (h : Inv type t past) (hok : (Op.checkin offset val uS64).Admissible type t) :
    ∃ t', (Op.checkin offset val uS64).exec type t = some t' ∧ Inv type t' ((offset, val, uS64) :: past) := by
  have hpast : ∀ p ∈ t.validList, (p.offset, p.val, p.ptsUS64) ∈ (offset, val, uS64) :: past := fun p hp =>
    .tail _ (h.past p hp)
  by_cases hstatus : t.status = .running ∨ t.status = .loading
  · -- the records as they are when the new one comes
    obtain ⟨valid, hvalid⟩ : ∃ valid, valid = resizeLast offset t.lastCheckinOffset t.validList := ⟨_, rfl⟩
    have hface : valid.map face = t.validList.map face := hvalid ▸ resizeLast_face _ _ _
    have hnames : valid.map (·.id) = t.validList.map (·.id) := by
      have hmap := congrArg (List.map Prod.fst) hface
      rwa [map_map, map_map] at hmap
    obtain ⟨id, stay, free, htake, hstay, hperm, hcover⟩ := @takeRec_spec valid t.freeList (hnames ▸ h.some)
    obtain ⟨t', size, hrun, hlist, hfree, hsearch⟩ := checkin_run hstatus (hvalid ▸ htake)
    have hsub : stay.Sublist valid := by
      rw [hstay]
      split
      · exact tail_sublist _
      · exact List.Sublist.refl _
    have hids : (ids t').Perm (ids t) := by
      rw [ids, ids, hlist, hfree, map_append, append_assoc, ← hnames]
      exact hperm
    refine ⟨t', hrun, ⟨fun hnil => h.some (nil_perm.mp (hnil ▸ hids)), hids.nodup_iff.mpr h.nodup, ?_, ?_, fun ha => ?_, ?_⟩⟩
    · -- the new offset is after all that stay
      rw [hlist]
      refine pairwise_append.mpr ⟨List.Pairwise.sublist hsub (sorted_of_face hface h.sorted), pairwise_singleton _ _, ?_⟩
      intro p hp q hq
      rw [mem_singleton.mp hq]
      have hstayFace : stay.map face = (staying t).map face := by
        rw [hstay, staying]
        split
        · rw [map_tail, map_tail, hface]
        · exact hface
      obtain ⟨w, hw, heq⟩ := mem_of_face hstayFace hp
      rw [show p.offset = w.offset from congrArg (·.2.1) heq]
      exact hok w hw
    · rw [hsearch, hlist]
      rcases h.search with hnone | ⟨p, hp, hid⟩
      · exact .inl hnone
      obtain ⟨q, hq, heq⟩ := mem_of_face hface.symm hp
      have hqid : p.id = q.id := congrArg (·.1) heq
      refine .inr ?_
      rcases hcover q hq with hin | hnew
      · exact ⟨q, mem_append_left _ hin, hid.trans (congrArg some hqid)⟩
      · exact ⟨_, mem_append_right _ mem_cons_self, hid.trans (congrArg some (hqid.trans hnew))⟩
    · rw [hsearch]
      exact h.audio ha
    · intro p hp
      rw [hlist] at hp
      rcases mem_append.mp hp with hp | hp
      · obtain ⟨q, hq, heq⟩ := mem_of_face hface (hsub.subset hp)
        have hdata : (p.offset, p.val, p.ptsUS64) = (q.offset, q.val, q.ptsUS64) := congrArg Prod.snd heq
        rw [hdata]
        exact hpast q hq
      · rw [mem_singleton.mp hp]
        exact .head _
  · refine ⟨t, ?_, h.some, h.nodup, h.sorted, h.search, h.audio, hpast⟩
    rw [Op.exec, ptsCheckinOffsetInline, if_neg hstatus]
    rfl

end Lists

/-! ## Runs -/

/-- A table that was just started, with records of different names. -/
structure Started (t : PtsTable) : Prop where
  valid : t.validList = []
  free : t.freeList ≠ []
  nodup : t.freeList.Nodup
  search : t.ptsSearch = none

theorem started_of_ptsStart {t t' : PtsTable} {recs : List Nat} (hsome : recs ≠ []) (hnodup : recs.Nodup)
    (h : ptsStart (some recs) t = (0, t')) : Started t' := by
  rw [ptsStart] at h
  split at h
  · obtain ⟨_, rfl⟩ := Prod.mk.inj h
    exact ⟨rfl, hsome, hnodup, rfl⟩
  · exact absurd (congrArg Prod.fst h) (show (-16 : Int) ≠ 0 by decide)

section Runs
variable {type : PtsType} {t : PtsTable} {past : Past} {ops : List Op}

theorem Started.inv (h : Started t) : Inv type t past where
  some := by
    rw [ids, h.valid]
    exact h.free
  nodup := by
    rw [ids, h.valid]
    exact h.nodup
  sorted := by
    rw [h.valid]
    exact List.Pairwise.nil
  search := .inl h.search
  audio _ := h.search
  past p hp := nomatch h.valid ▸ hp

theorem op_step {op : Op} (h : Inv type t past) (hok : op.Admissible type t) :
    op.Ok type t past ∧ ∃ t', op.exec type t = some t' ∧ Inv type t' (op.past past) := by
  cases op with
  | checkin offset val uS64 => exact ⟨trivial, checkin_inv h hok⟩
  | lookup offset ptsMargin headOffset => exact ⟨lookupOk_of_sorted h.sorted h.past hok, lookup_inv h hok⟩

theorem run_ok (h : Inv type t past) (hok : RunAdmissible type ops t) : RunOk type ops t past := by
  induction ops generalizing t past with
  | nil => trivial
  | cons op ops ih =>
    obtain ⟨hop, t', hexec, hinv⟩ := op_step h hok.1
    exact ⟨hop, t', hexec, ih hinv (hok.2 t' hexec)⟩

end Runs

/-! ## Half of the circle -/

/-- The video table as it is before the first start. -/
def idleTable : PtsTable := ⟨.idle, 2500, 0, false, 0, 0, 0, 0, false, false, none, [], [], 0⟩

def startedTable : PtsTable := (ptsStart (some [0, 1, 2]) idleTable).2

def twoFrames : List Op := [.checkin 0x1000 90 1000, .checkin 0x3000 3090 34333, .lookup 0x1100 0 0x80]

theorem two_frames_admissible : RunAdmissible .video twoFrames startedTable := by
  refine ⟨fun p hp => absurd hp not_mem_nil, fun t₁ ht₁ => ?_⟩
  cases ht₁
  refine ⟨fun p hp => ?_, fun t₂ ht₂ => ?_⟩
  · rw [mem_singleton.mp hp]
    decide
  cases ht₂
  refine ⟨⟨by decide, ?_⟩, fun _ _ => trivial⟩
  rintro ⟨_, _, p, hp, hfar⟩
  cases hp
  exact nomatch hfar

end AmlogicV901d.Guarantees.PtsLookups
