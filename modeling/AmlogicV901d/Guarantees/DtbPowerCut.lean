import AmlogicV901d.Source.Emmc.DtbStore

/-!
# The stored device tree after power cuts

Histories of `dtb_write`, `dtb_read`, reboots and writes that are cut. A read brings the
two copies together on the last image that was written whole, or on one whose write was
cut, exactly if one copy is valid and two valid copies of one time stamp are the same.
They are whenever a write that is cut knows the stored time stamps.
-/
namespace AmlogicV901d.Guarantees.DtbPowerCut
open Source.DtbStore Lib.StateTriple

/-! ## Histories -/

inductive DtbOp
  | write (dtb : AmlDtbRsv)
  | read (buffer : AmlDtbRsv)
  | restart
  | powerCut (dtb : AmlDtbRsv) (cut : Cut)

def transfersSucceed : DtbEnv where
  mmcFound := true
  fails _ := false
  left _ := ⟨[], 0, 0, 0, 0⟩

def onBuffer {α : Type} (x : DtbM α) (buffer : AmlDtbRsv) (s : DtbState) : α × DtbState := x { s with addr := buffer }

def DtbOp.exec : DtbOp → DtbState → DtbState
  | .write dtb, s => (onBuffer (dtbWrite transfersSucceed) dtb s).2
  | .read buffer, s => (onBuffer (dtbRead transfersSucceed) buffer s).2
  | .restart, s => reboot s
  | .powerCut dtb cut, s => (onBuffer (dtbWriteCut transfersSucceed cut) dtb s).2

/-- The images that may come back: the last one written whole, and those of writes that were
cut since; none before the first write. -/
def DtbOp.images (s : DtbState) (images : Option (List AmlDtbRsv)) : DtbOp → Option (List AmlDtbRsv)
  | .write dtb => some [stamped dtb (newTimestamp s.infos)]
  | .powerCut dtb _ => images.map (stamped dtb (newTimestamp s.infos) :: ·)
  | .read _ => images
  | .restart => images

/-- The store and the images of its history. -/
structure Story where
  store : DtbState
  images : Option (List AmlDtbRsv)

def Story.step (w : Story) (op : DtbOp) : Story := ⟨op.exec w.store, op.images w.store w.images⟩

def Story.run (w : Story) (ops : List DtbOp) : Story := ops.foldl Story.step w

/-- After a boot, with anything in the two copies. -/
def booted (copies : Two AmlDtbRsv) (addr : AmlDtbRsv) : Story := ⟨⟨copies, dtbInfosCleared, addr, 0⟩, none⟩

/-! ## Recovery -/

/-- The read succeeds, brings one of the images, and both copies are that image. -/
def ReadRecovers (images : List AmlDtbRsv) (buffer : AmlDtbRsv) (s : DtbState) : Prop :=
  (onBuffer (dtbRead transfersSucceed) buffer s).1 = 0 ∧ (onBuffer (dtbRead transfersSucceed) buffer s).2.addr ∈ images ∧
  (onBuffer (dtbRead transfersSucceed) buffer s).2.copies.dtb1 = (onBuffer (dtbRead transfersSucceed) buffer s).2.addr ∧
  (onBuffer (dtbRead transfersSucceed) buffer s).2.copies.dtb2 = (onBuffer (dtbRead transfersSucceed) buffer s).2.addr

/-- What `update_dtb_info` takes for a device tree. -/
def Valid (dtb : AmlDtbRsv) : Prop := verifyDtbChecksum dtb = false ∧ dtb.magic ≠ 0

instance (dtb : AmlDtbRsv) : Decidable (Valid dtb) := inferInstanceAs (Decidable (_ ∧ _))

/-- A copy is valid, and two valid ones differ only if their time stamps do. -/
def OneNewest (copies : Two AmlDtbRsv) : Prop :=
  (Valid copies.dtb1 ∨ Valid copies.dtb2) ∧
    (Valid copies.dtb1 → Valid copies.dtb2 → copies.dtb1.timestamp = copies.dtb2.timestamp → copies.dtb1 = copies.dtb2)

/-- With `dtb_infos` loaded, both copies are the same already. -/
def Recoverable (s : DtbState) : Prop :=
  if s.infos.valid.dtb1 then s.copies.dtb1 = s.copies.dtb2 else OneNewest s.copies

/-- A write that is cut after a first whole one finds `dtb_infos` loaded. -/
def LoadedCut (w : Story) : DtbOp → Prop
  | .powerCut _ _ => w.images.isSome → w.store.infos.valid.dtb1 = true
  | _ => True

def LoadedCuts : List DtbOp → Story → Prop
  | [], _ => True
  | op :: ops, w => LoadedCut w op ∧ LoadedCuts ops (w.step op)

/-! ## Time stamps -/

theorem stampAfter_self (a : UInt32) : stampAfter a a = false := by
  rw [stampAfter, Int32.sub_self]
  rfl

theorem stamp_eq {a b : UInt32} (hab : stampAfter a b = false) (hba : stampAfter b a = false) : a = b := by
  have hab : ¬ (b.toInt32 - a.toInt32 < 0) := of_decide_eq_false hab
  have hba : ¬ (a.toInt32 - b.toInt32 < 0) := of_decide_eq_false hba
  rw [Int32.lt_iff_toInt_lt, Int32.toInt_sub] at hab hba
  have hint : a.toInt32.toInt = b.toInt32.toInt := by
    simp only [Int.bmod_def, Int32.toInt_zero] at hab hba
    have halt := a.toInt32.toInt_lt
    have hale := a.toInt32.le_toInt
    have hblt := b.toInt32.toInt_lt
    have hble := b.toInt32.le_toInt
    omega
  exact congrArg Int32.toUInt32 (Int32.toInt_inj.mp hint)

theorem next_stamp_ne (t : UInt32) : 1 + t ≠ t := fun heq => absurd (UInt32.add_eq_right.mp heq) (by decide)

variable (dtb : AmlDtbRsv)

theorem stamped_valid (t : UInt32) : Valid (stamped dtb t) := by
  constructor
  · show (!(calcDtbChecksum (stamped dtb t) == calcDtbChecksum _)) = false
    rw [Bool.not_eq_false', beq_iff_eq]
    rfl
  · show (0x00447e41 : UInt32) ≠ 0
    decide

theorem torn_not_valid (cut : Cut) {dtb : AmlDtbRsv} (h : cut.torn = some dtb) : ¬ Valid dtb := by
  intro hvalid
  rw [Valid, cut.tornInvalid dtb h] at hvalid
  exact Bool.noConfusion hvalid.1

/-! ## What one operation does -/

/-- `dtb_infos` about two copies of one time stamp. -/
def loaded (stamp : UInt32) : AmlDtbInfo := ⟨⟨stamp, stamp⟩, ⟨true, true⟩⟩

theorem newTimestamp_loaded (stamp : UInt32) : newTimestamp (loaded stamp) = 1 + stamp := by
  simp [newTimestamp, loaded]

/-- Both copies and the buffer are this image. -/
def settled (dtb : AmlDtbRsv) (tick : Nat) : DtbState := ⟨⟨dtb, dtb⟩, loaded dtb.timestamp, dtb, tick⟩

/-- A read: without a check, with no valid copy, with one copy written from the other, or with
two valid copies of one time stamp, which stay as they are. -/
inductive ReadStep (s : DtbState) : Int × DtbState → Prop
  | shortcut (tick : Nat) (hloaded : s.infos.valid.dtb1 = true) :
      ReadStep s (0, { s with addr := s.copies.dtb1, tick })
  | lost (tick : Nat) (hcold : s.infos.valid.dtb1 = false) (h1 : ¬ Valid s.copies.dtb1)
      (h2 : ¬ Valid s.copies.dtb2) : ReadStep s (-1, { s with addr := s.copies.dtb1, tick })
  | one (cpy : Cpy) (tick : Nat) (hcold : s.infos.valid.dtb1 = false) (hvalid : Valid (s.copies.get cpy))
      (hother : ¬ (Valid s.copies.dtb1 ∧ Valid s.copies.dtb2 ∧ s.copies.dtb1.timestamp = s.copies.dtb2.timestamp)) :
      ReadStep s (0, settled (s.copies.get cpy) tick)
  | tie (tick : Nat) (hcold : s.infos.valid.dtb1 = false) (h1 : Valid s.copies.dtb1) (h2 : Valid s.copies.dtb2)
      (hstamp : s.copies.dtb1.timestamp = s.copies.dtb2.timestamp) :
      ReadStep s (0, { s with infos := loaded s.copies.dtb1.timestamp, addr := s.copies.dtb1, tick })

def fetched (cpy : Cpy) (s : DtbState) : DtbState := { s with addr := s.copies.get cpy, tick := s.tick + 1 }

theorem valid_check : (!verifyDtbChecksum dtb && dtb.magic != 0) = true ↔ Valid dtb := by
  rw [Bool.and_eq_true, Bool.not_eq_true', bne_iff_ne, Valid]

section Check
variable {cpy : Cpy} {s : DtbState}

theorem checkCopy_run : checkCopy transfersSucceed cpy s = (fun s' : DtbState => ((s'.infos.valid.get cpy).toNat, s'))
    (if (!verifyDtbChecksum (s.copies.get cpy) && (s.copies.get cpy).magic != 0) = true then
      noteCopy cpy (fetched cpy s) else fetched cpy s) := rfl

theorem checkCopy_valid (h : Valid (s.copies.get cpy)) :
    checkCopy transfersSucceed cpy s = (1, noteCopy cpy (fetched cpy s)) := by
  rw [checkCopy_run, if_pos ((valid_check _).mpr h)]
  cases cpy <;> rfl

theorem checkCopy_invalid (h : ¬ Valid (s.copies.get cpy)) (hcold : s.infos.valid.get cpy = false) :
    checkCopy transfersSucceed cpy s = (0, fetched cpy s) := by
  rw [checkCopy_run, if_neg (mt (valid_check _).mp h)]
  show ((s.infos.valid.get cpy).toNat, _) = _
  rw [hcold]
  rfl

theorem updateDtbInfo_run {s1 s2 : DtbState} {k1 k2 : Nat} (h2 : checkCopy transfersSucceed .dtb2 s = (k2, s1))
    (h1 : checkCopy transfersSucceed .dtb1 s1 = (k1, s2)) : updateDtbInfo transfersSucceed s = (k2 + k1, s2) := by
  rw [updateDtbInfo, bind_run h2, bind_run h1]
  rfl

end Check

section Cold
variable {d1 d2 : AmlDtbRsv} {stamp : Two UInt32} {tick : Nat}

/-- Nothing has been read or written since the boot. -/
def cold (d1 d2 : AmlDtbRsv) (stamp : Two UInt32) (addr : AmlDtbRsv) (tick : Nat) : DtbState :=
  ⟨⟨d1, d2⟩, ⟨stamp, ⟨false, false⟩⟩, addr, tick⟩

/-- Two valid copies: the newer one is copied over the other. -/
theorem updateOld_step (a : AmlDtbRsv) (now : Nat) (h1 : Valid d1) (h2 : Valid d2) : ReadStep (cold d1 d2 stamp a tick)
      (0, (updateOldDtb transfersSucceed ⟨⟨d1, d2⟩, ⟨⟨d1.timestamp, d2.timestamp⟩, ⟨true, true⟩⟩, d1, now⟩).2) := by
  rw [updateOldDtb, get_bind]
  split
  next hafter =>
    refine .one (s := cold d1 d2 stamp a tick) .dtb2 (now + 2) rfl h2 fun hsame => ?_
    have heq : d1.timestamp = d2.timestamp := hsame.2.2
    rw [heq, stampAfter_self] at hafter
    exact Bool.noConfusion hafter
  next hnot2 =>
    split
    next hafter =>
      refine .one (s := cold d1 d2 stamp a tick) .dtb1 (now + 1) rfl h1 fun hsame => ?_
      have heq : d1.timestamp = d2.timestamp := hsame.2.2
      rw [heq, stampAfter_self] at hafter
      exact Bool.noConfusion hafter
    next hnot1 =>
      have heq : d1.timestamp = d2.timestamp :=
        stamp_eq (Bool.eq_false_iff.mpr hnot1) (Bool.eq_false_iff.mpr hnot2)
      have htie := ReadStep.tie (s := cold d1 d2 stamp a tick) now rfl h1 h2 heq
      rw [← heq]
      exact htie

theorem read_cold (a buffer : AmlDtbRsv) : ReadStep (cold d1 d2 stamp a tick)
    (dtbRead transfersSucceed (cold d1 d2 stamp buffer tick)) := by
  have hshort : dtbReadShortcut transfersSucceed (cold d1 d2 stamp buffer tick) =
    (-2, cold d1 d2 stamp buffer tick) := rfl
  rw [dtbRead, if_neg (by decide), bind_run hshort, if_neg (by decide)]
  by_cases h2 : Valid d2
  · have hcheck2 := @checkCopy_valid .dtb2 (cold d1 d2 stamp buffer tick) h2
    by_cases h1 : Valid d1
    · rw [bind_run (updateDtbInfo_run hcheck2 (checkCopy_valid h1)), if_neg (by decide), if_neg (by decide)]
      exact updateOld_step a (tick + 2) h1 h2
    · rw [bind_run (updateDtbInfo_run hcheck2 (checkCopy_invalid h1 rfl)), if_neg (by decide), if_pos rfl]
      exact .one (s := cold d1 d2 stamp a tick) .dtb2 _ rfl h2 fun h => h1 h.1
  · have hcheck2 := @checkCopy_invalid .dtb2 (cold d1 d2 stamp buffer tick) h2 rfl
    by_cases h1 : Valid d1
    · rw [bind_run (updateDtbInfo_run hcheck2 (checkCopy_valid h1)), if_neg (by decide), if_pos rfl]
      exact .one (s := cold d1 d2 stamp a tick) .dtb1 _ rfl h1 fun h => h2 h.2.1
    · rw [bind_run (updateDtbInfo_run hcheck2 (checkCopy_invalid h1 rfl)), if_pos rfl]
      exact .lost (s := cold d1 d2 stamp a tick) _ rfl h1 h2

end Cold

theorem read_step {s : DtbState} (hpair : s.infos.valid.dtb2 = s.infos.valid.dtb1) (buffer : AmlDtbRsv) :
    ReadStep s (onBuffer (dtbRead transfersSucceed) buffer s) := by
  obtain ⟨⟨d1, d2⟩, ⟨stamp, ⟨v1, v2⟩⟩, a, tick⟩ := s
  obtain rfl : v2 = v1 := hpair
  cases v2 with
  | true => exact .shortcut _ rfl
  | false => exact read_cold a buffer

/-- The copies that a cut write of `dtb` leaves. -/
inductive CutStep (d1 d2 dtb : AmlDtbRsv) : Two AmlDtbRsv → Prop
  | untouched : CutStep d1 d2 dtb ⟨d1, d2⟩
  | torn1 {torn : AmlDtbRsv} (htorn : ¬ Valid torn) : CutStep d1 d2 dtb ⟨torn, d2⟩
  | written1 : CutStep d1 d2 dtb ⟨dtb, d2⟩
  | torn2 {torn : AmlDtbRsv} (htorn : ¬ Valid torn) : CutStep d1 d2 dtb ⟨dtb, torn⟩
  | written2 : CutStep d1 d2 dtb ⟨dtb, dtb⟩

theorem cut_step (cut : Cut) (s : DtbState) : CutStep s.copies.dtb1 s.copies.dtb2 (stamped dtb (newTimestamp s.infos))
      (onBuffer (dtbWriteCut transfersSucceed cut) dtb s).2.copies := by
  obtain ⟨reached, torn, htorn⟩ := cut
  match reached, torn with
  | 0, none => exact .untouched
  | 0, some t => exact .torn1 (torn_not_valid ⟨0, some t, htorn⟩ rfl)
  | 1, none => exact .written1
  | 1, some t => exact .torn2 (torn_not_valid ⟨1, some t, htorn⟩ rfl)
  | reached + 2, none => cases reached <;> exact .written2
  | reached + 2, some t => cases reached <;> exact .written2

/-! ## What holds along every history -/

/-- `dtb_infos` knows both copies or none, and valid copies come from the history. -/
structure Sound (w : Story) : Prop where
  paired : w.store.infos.valid.dtb2 = w.store.infos.valid.dtb1
  known : w.store.infos.valid.dtb1 = true → w.store.infos = loaded w.store.copies.dtb1.timestamp ∧ Valid w.store.copies.dtb1
  bothKnown : w.store.infos.valid.dtb1 = true → Valid w.store.copies.dtb2 ∧
    w.store.copies.dtb2.timestamp = w.store.copies.dtb1.timestamp
  remembered : ∀ images ∈ w.images, ∀ cpy, Valid (w.store.copies.get cpy) → w.store.copies.get cpy ∈ images

theorem booted_sound (copies : Two AmlDtbRsv) (addr : AmlDtbRsv) : Sound (booted copies addr) where
  paired := rfl
  known h := Bool.noConfusion h
  bothKnown h := Bool.noConfusion h
  remembered _ h := nomatch h

section Steps
variable {w : Story}

theorem settled_sound {dtb : AmlDtbRsv} {tick : Nat} {images : Option (List AmlDtbRsv)} (hvalid : Valid dtb)
    (hin : ∀ l ∈ images, dtb ∈ l) : Sound ⟨settled dtb tick, images⟩ where
  paired := rfl
  known _ := ⟨rfl, hvalid⟩
  bothKnown _ := ⟨hvalid, rfl⟩
  remembered l hl cpy _ := by
    cases cpy with
    | dtb1 | dtb2 => exact hin l hl

section
variable (h : Sound w)
include h

theorem read_sound (buffer : AmlDtbRsv) : Sound (w.step (.read buffer)) := by
  have hread := read_step h.paired buffer
  show Sound ⟨(onBuffer (dtbRead transfersSucceed) buffer w.store).2, w.images⟩
  generalize onBuffer (dtbRead transfersSucceed) buffer w.store = r at hread
  cases hread with
  | shortcut | lost => exact { h with }
  | one cpy tick _ hvalid => exact settled_sound hvalid fun l hl => h.remembered l hl cpy hvalid
  | tie tick _ h1 h2 hstamp => exact ⟨rfl, fun _ => ⟨rfl, h1⟩, fun _ => ⟨h2, hstamp.symm⟩, h.remembered⟩

theorem cut_sound (dtb : AmlDtbRsv) (cut : Cut) : Sound (w.step (.powerCut dtb cut)) where
  paired := rfl
  known hcold := Bool.noConfusion hcold
  bothKnown hcold := Bool.noConfusion hcold
  remembered images himages cpy hvalid := by
    obtain ⟨old, hold, rfl⟩ := Option.map_eq_some_iff.mp himages
    have hstep := cut_step dtb cut w.store
    have hkept1 := h.remembered old hold .dtb1
    have hkept2 := h.remembered old hold .dtb2
    change Valid ((onBuffer (dtbWriteCut transfersSucceed cut) dtb w.store).2.copies.get cpy) at hvalid
    show (onBuffer (dtbWriteCut transfersSucceed cut) dtb w.store).2.copies.get cpy ∈ _
    generalize (onBuffer (dtbWriteCut transfersSucceed cut) dtb w.store).2.copies = copies at hstep hvalid
    cases hstep <;> cases cpy
    case untouched.dtb1 => exact .tail _ (hkept1 hvalid)
    case untouched.dtb2 | torn1.dtb2 | written1.dtb2 => exact .tail _ (hkept2 hvalid)
    case torn1.dtb1 htorn => exact absurd hvalid htorn
    case torn2.dtb2 htorn => exact absurd hvalid htorn
    case written1.dtb1 | torn2.dtb1 | written2.dtb1 | written2.dtb2 => exact .head _

theorem step_sound (op : DtbOp) : Sound (w.step op) := by
  cases op with
  | write dtb =>
    exact settled_sound (stamped_valid _ _) fun l hl => Option.some.inj hl ▸ List.mem_singleton_self _
  | read buffer => exact read_sound h buffer
  | restart => exact ⟨rfl, fun hcold => Bool.noConfusion hcold, fun hcold => Bool.noConfusion hcold, h.remembered⟩
  | powerCut dtb cut => exact cut_sound h dtb cut

theorem run_sound (ops : List DtbOp) : Sound (w.run ops) := by
  induction ops generalizing w with
  | nil => exact h
  | cons op ops ih => exact ih (step_sound h op)

/-! ## Recovery -/

theorem read_recovers_iff {images : List AmlDtbRsv} (himages : w.images = some images)
    (buffer : AmlDtbRsv) : ReadRecovers images buffer w.store ↔ Recoverable w.store := by
  have hread := read_step h.paired buffer
  have hkept := h.remembered images himages
  rw [ReadRecovers]
  generalize onBuffer (dtbRead transfersSucceed) buffer w.store = r at hread
  cases hread with
  | shortcut tick hloaded =>
    rw [Recoverable, if_pos hloaded]
    have hin := hkept .dtb1 (h.known hloaded).2
    exact ⟨fun hr => hr.2.2.2.symm, fun heq => ⟨rfl, hin, rfl, heq.symm⟩⟩
  | lost tick hcold h1 h2 =>
    rw [Recoverable, if_neg (Bool.eq_false_iff.mp hcold)]
    exact ⟨fun hr => absurd hr.1 (show (-1 : Int) ≠ 0 by decide), fun hone => (hone.1.elim h1 h2).elim⟩
  | one cpy tick hcold hvalid hother =>
    rw [Recoverable, if_neg (Bool.eq_false_iff.mp hcold)]
    refine ⟨fun _ => ⟨?_, fun h1 h2 heq => absurd ⟨h1, h2, heq⟩ hother⟩, fun _ => ⟨rfl, hkept cpy hvalid, rfl, rfl⟩⟩
    cases cpy with
    | dtb1 => exact .inl hvalid
    | dtb2 => exact .inr hvalid
  | tie tick hcold h1 h2 hstamp =>
    rw [Recoverable, if_neg (Bool.eq_false_iff.mp hcold)]
    exact ⟨fun hr => ⟨.inl h1, fun _ _ _ => hr.2.2.2.symm⟩,
      fun hone => ⟨rfl, hkept .dtb1 h1, rfl, (hone.2 h1 h2 hstamp).symm⟩⟩

/-- Once a write has been whole, the store stays recoverable. -/
def Kept (w : Story) : Prop := w.images.isSome → Recoverable w.store

omit h in
theorem oneNewest_same {dtb : AmlDtbRsv} (h : Valid dtb) : OneNewest ⟨dtb, dtb⟩ := ⟨.inl h, fun _ _ _ => rfl⟩

theorem read_kept (hkept : Kept w) (buffer : AmlDtbRsv) : Kept (w.step (.read buffer)) := by
  intro hsome
  have hrec := hkept hsome
  have hread := read_step h.paired buffer
  show Recoverable (onBuffer (dtbRead transfersSucceed) buffer w.store).2
  generalize onBuffer (dtbRead transfersSucceed) buffer w.store = r at hread
  cases hread with
  | shortcut | lost => exact hrec
  | one => exact rfl
  | tie tick hcold h1 h2 hstamp =>
    rw [Recoverable, if_neg (Bool.eq_false_iff.mp hcold)] at hrec
    exact hrec.2 h1 h2 hstamp

theorem restart_kept (hkept : Kept w) : Kept (w.step .restart) := by
  intro hsome
  have hrec := hkept hsome
  rw [Recoverable] at hrec
  split at hrec
  next hloaded => exact ⟨.inl (h.known hloaded).2, fun _ _ _ => hrec⟩
  next => exact hrec

theorem cut_kept (hkept : Kept w) {dtb : AmlDtbRsv} {cut : Cut}
    (hloaded : w.images.isSome → w.store.infos.valid.dtb1 = true) : Kept (w.step (.powerCut dtb cut)) := by
  intro hsome
  have hsome : w.images.isSome := (Option.isSome_map ..).symm.trans hsome
  have hknown := h.known (hloaded hsome)
  have hrec := hkept hsome
  rw [Recoverable, if_pos (hloaded hsome)] at hrec
  have hstep := cut_step dtb cut w.store
  show OneNewest (onBuffer (dtbWriteCut transfersSucceed cut) dtb w.store).2.copies
  generalize (onBuffer (dtbWriteCut transfersSucceed cut) dtb w.store).2.copies = copies at hstep
  rw [← hrec] at hstep
  have hnew := stamped_valid dtb (newTimestamp w.store.infos)
  cases hstep with
  | untouched => exact oneNewest_same hknown.2
  | torn1 htorn => exact ⟨.inr hknown.2, fun h1 => absurd h1 htorn⟩
  | written1 =>
    refine ⟨.inl hnew, fun _ _ hstamp => absurd hstamp ?_⟩
    rw [hknown.1, newTimestamp_loaded]
    exact next_stamp_ne _
  | torn2 htorn => exact ⟨.inl hnew, fun _ h2 => absurd h2 htorn⟩
  | written2 => exact oneNewest_same hnew

theorem step_kept (hkept : Kept w) {op : DtbOp} (hop : LoadedCut w op) : Kept (w.step op) := by
  cases op with
  | write dtb => exact fun _ => rfl
  | read buffer => exact read_kept h hkept buffer
  | restart => exact restart_kept h hkept
  | powerCut dtb cut => exact cut_kept h hkept hop

theorem run_kept (hkept : Kept w) {ops : List DtbOp} (hops : LoadedCuts ops w) : Kept (w.run ops) := by
  induction ops generalizing w with
  | nil => exact hkept
  | cons op ops ih => exact ih (step_sound h op) (step_kept h hkept hops.1) hops.2

end

end Steps

/-- After every history with a whole write, a read recovers exactly if the store is recoverable,
and it is if every write that is cut knows the stored time stamps. -/
theorem dtb_read_recovers (copies : Two AmlDtbRsv) (addr : AmlDtbRsv) (ops : List DtbOp) (images : List AmlDtbRsv)
    (himages : ((booted copies addr).run ops).images = some images) (buffer : AmlDtbRsv) :
    (ReadRecovers images buffer ((booted copies addr).run ops).store ↔
      Recoverable ((booted copies addr).run ops).store) ∧
    (LoadedCuts ops (booted copies addr) → Recoverable ((booted copies addr).run ops).store) := by
  refine ⟨read_recovers_iff (run_sound (booted_sound copies addr) ops) himages buffer, fun hops => ?_⟩
  refine run_kept (booted_sound copies addr) (fun hnone => Bool.noConfusion hnone) hops ?_
  rw [himages]
  rfl

/-! ### A cut write after a read, and one before any read -/

def image (word : UInt32) : AmlDtbRsv := ⟨[word], 0, 0, 0, 0⟩

/-- The power fails between the two copies. -/
def betweenCopies : Cut := ⟨1, none, nofun⟩

/-- The power fails in the middle of the copy after the first `reached`. -/
def inCopy (reached : Nat) : Cut := ⟨reached, some ⟨[1], 0, 0, 0, 0⟩, fun _ h => Option.some.inj h ▸ by decide⟩

def empty : Two AmlDtbRsv := ⟨image 0, image 0⟩

/-- The device tree is read before it is written, as the boot loader does. -/
def readFirst : List DtbOp :=
  [.write (image 1), .restart, .read (image 0), .powerCut (image 2) betweenCopies, .restart]

theorem readFirst_recovers :
    ReadRecovers [stamped (image 2) 1, stamped (image 1) 0] (image 0) ((booted empty (image 0)).run readFirst).store :=
  have h := dtb_read_recovers empty (image 0) readFirst [stamped (image 2) 1, stamped (image 1) 0] (by decide +kernel) (image 0)
  h.1.mpr (h.2 ⟨trivial, trivial, trivial, fun _ => by decide +kernel, trivial, trivial⟩)

/-- A first write of a boot is cut before anything was read: both time stamps are 0, and the
copies stay different. -/
def writeFirst : List DtbOp := [.write (image 1), .restart, .powerCut (image 2) betweenCopies]

/-- Two writes are cut one after the other, the first in the second copy. -/
def cutTwice : List DtbOp := [.write (image 1), .powerCut (image 2) (inCopy 1), .powerCut (image 3) (inCopy 0)]

theorem unread_cut_diverges :
    (onBuffer (dtbRead transfersSucceed) (image 0) ((booted empty (image 0)).run writeFirst).store).1 = 0 ∧
    (onBuffer (dtbRead transfersSucceed) (image 0) ((booted empty (image 0)).run writeFirst).store).2.copies =
      ⟨stamped (image 2) 0, stamped (image 1) 0⟩ ∧
    (onBuffer (dtbRead transfersSucceed) (image 0) ((booted empty (image 0)).run cutTwice).store).1 = -1 := by
  decide +kernel

end AmlogicV901d.Guarantees.DtbPowerCut
