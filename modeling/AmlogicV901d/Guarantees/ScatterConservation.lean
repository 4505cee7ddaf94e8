import AmlogicV901d.Guarantees.ScatterMonitor

/-!
# Conservation of scatter pages

Runs of the two scatter managers, an operation at a time and with an arbitrary answer to
every call of an allocator. Whatever is done, no page id is held twice, every set bit of
a slot has its holder, the page lists are in order and the counters of pages in use and
of all pages are right. The counter of cached pages is right as long as no cache is
forgotten with its pages and no cache is fast-freed.
-/
namespace AmlogicV901d.Guarantees.ScatterConservation
open Source.CodecMmScatter Lib.StateTriple Lib.KeyedList ScatterShapes ScatterLedger ScatterPages ScatterFree ScatterLife

open ScatterMonitor

/-! ## Runs -/

inductive ScatterOp
  | alloc (istvp : Bool) (maxPage pageNum : Int)
  | allocNew (istvp : Bool) (maxPage pageNum : Int)
  | wantPages (mms : Nat) (want : Int)
  | freeTail (mms : Nat) (id : Int) (fastMode freeMode : Nat)
  | incForKeeper (mms : Nat)
  | decKeeperUser (mms delayMs : Nat)
  | decOwnerUser (mms delayMs : Nat)
  | slotAlloc (istvp : Bool) (size : Int) (flags : Nat)
  | freeAllFreeSlots (istvp : Bool)
  | monitor (istvp : Bool)
  | delayFreeSwitch (istvp : Bool) (on : Bool) (delayMs waitSizeM : Nat)
  | freeAllIgnorecache (istvp : Bool)

def ScatterOp.exec (env : ScEnv) : ScatterOp → Managers → Managers
  | .alloc istvp maxPage pageNum, w => (onMgt istvp (codecMmScatterAlloc env maxPage pageNum) w).2
  | .allocNew istvp maxPage pageNum, w => (onMgt istvp (codecMmScatterAllocNew env maxPage pageNum) w).2
  | .wantPages mms want, w => (onScatter mms (codecMmScatterAllocWantPagesIn env mms want) w).2
  | .freeTail mms id fastMode freeMode, w =>
    (onScatter mms (codecMmScatterFreeTailPagesIn mms id fastMode freeMode) w).2
  | .incForKeeper mms, w => (codecMmScatterIncForKeeper env mms w).2
  | .decKeeperUser mms delayMs, w => (codecMmScatterDecKeeperUser env mms delayMs w).2
  | .decOwnerUser mms delayMs, w => (codecMmScatterDecOwnerUser env mms delayMs w).2
  | .slotAlloc istvp size flags, w => (onMgt istvp (codecMmSlotAlloc env size flags) w).2
  | .freeAllFreeSlots istvp, w => (onMgt istvp codecMmFreeAllFreeSlotsIn w).2
  | .monitor istvp, w => (onMgt istvp (codecMmScatterMonitor env) w).2
  | .delayFreeSwitch istvp on delayMs waitSizeM, w =>
    (onMgt istvp (codecMmScatterMgtDelayFreeSwith env on delayMs waitSizeM) w).2
  | .freeAllIgnorecache istvp, w => (onMgt istvp (codecMmScatterFreeAllIgnorecacheIn env) w).2

/-- The answers and settings may differ from one operation to the next. -/
def run : List (ScEnv × ScatterOp) → Managers → Managers
  | [], w => w
  | (env, op) :: steps, w => run steps (op.exec env w)

/-- The managers as they are made, before any page is lent. -/
def initial (noCacheSizeM noCacheSizeMTvp : Nat) : Managers where
  scatterMgt := codecMmScatterMgtAllocIn false noCacheSizeM
  scatterTvpMgt := codecMmScatterMgtAllocIn true noCacheSizeMTvp
  ram := { lent := [], tick := 0, nextScatter := 1, freed := [] }

/-! ## What is conserved -/

def Managers.scatters (w : Managers) : List Scatter := w.scatterMgt.scatters ++ w.scatterTvpMgt.scatters

/-- Every page id in a page list, as often as it is there. -/
def held (w : Managers) : List Nat := (Managers.scatters w).flatMap heldPages

structure PagesConserved (w : Managers) : Prop where
  heldOnce : (held w).Nodup
  bits : ∀ istvp, ∀ slot ∈ (w.mgt istvp).slots, ∀ bit, slot.pagemap bit = true → (held w).count (slot.pageId bit) = 1
  tails : ∀ m ∈ Managers.scatters w, m.pageTail = m.pageCnt - 1
  lists : ∀ m ∈ Managers.scatters w, ∀ i < m.pagesList.length, m.pagesList.getD i 0 ≠ 0 ↔ (i : Int) < m.pageCnt
  fits : ∀ m ∈ Managers.scatters w, m.pageCnt ≤ m.pagesList.length
  alloced : ∀ istvp, (w.mgt istvp).allocedPageNum = sumBy Scatter.pageCnt (w.mgt istvp).scatters
  total : ∀ istvp, (w.mgt istvp).totalPageNum =
    sumBy (fun slot => (slot.pageNum : Int)) (w.mgt istvp).slots + (w.mgt istvp).onePageCnt

/-- The counter of cached pages is the pages of the caches. -/
def CachedPagesCounted (w : Managers) : Prop := ∀ istvp, (w.mgt istvp).cachedPages =
  sumBy (fun m => if (w.mgt istvp).isCacheSc m.num then m.pageCnt else 0) (w.mgt istvp).scatters

/-- No fast free of a cache, and no new caches while one is left. -/
def Careful (w : Managers) : ScatterOp → Prop
  | .freeTail mms _ fastMode _ => fastMode = 2 ∨ fastMode = 3 → (w.mgt (w.manager mms)).isCacheSc mms = false
  | .monitor istvp => CachesApart (w.mgt istvp)
  | _ => True

def CarefulRun : List (ScEnv × ScatterOp) → Managers → Prop
  | [], _ => True
  | (env, op) :: steps, w => Careful w op ∧ CarefulRun steps (op.exec env w)

/-! ## One manager -/

/-- The ledger between two operations. -/
def Rests (others : Nat → Int) (gap : Int) (s : Sc) : Prop :=
  Balanced ⟨others, fun _ => 0, 0, gap, lives s, s.scatters⟩ s

section Manager
variable {env : ScEnv} {others : Nat → Int} {gap : Int} {s s' : Sc} {t t' : Terms}

/-- An operation leaves the ledger at rest; under `c` the counter of cached pages stays right. -/
def Settles (c : Prop) (others : Nat → Int) (gap : Int) (s s' : Sc) : Prop :=
  s.nextScatter ≤ s'.nextScatter ∧ ∃ gap', (c → gap = 0 → gap' = 0) ∧ Rests others gap' s'

theorem rests_of_balanced (h : Balanced t s) (hfly : t.fly = fun _ => 0) (hgap : t.gap = 0) :
    Rests t.others t.cacheGap s := by
  have heq : (⟨t.others, fun _ => 0, 0, t.cacheGap, lives s, s.scatters⟩ : Terms) = t := by
    rw [← hfly, ← hgap, show lives s = t.lives from h.alive, h.same]
  rw [Rests, heq]
  exact h

def restTerms (others : Nat → Int) (gap : Int) (s : Sc) : Terms := ⟨others, fun _ => 0, 0, gap, lives s, s.scatters⟩

theorem settles_of_balanced {c : Prop} (h : Balanced t' s') (hothers : t'.others = others)
    (hfly : t'.fly = fun _ => 0) (hgap : t'.gap = 0) (hcache : c → gap = 0 → t'.cacheGap = 0)
    (hnext : s.nextScatter ≤ t'.lives.nextScatter) : Settles c others gap s s' := by
  have hsame : s'.nextScatter = t'.lives.nextScatter := congrArg Lives.nextScatter h.alive
  exact ⟨hsame ▸ hnext, t'.cacheGap, hcache, hothers ▸ rests_of_balanced h hfly hgap⟩

theorem LifeMove.next_le {a b : Life} (h : LifeMove a b) : a.lives.nextScatter ≤ b.lives.nextScatter := by
  cases h with
  | cache | unfilled => exact Nat.le_succ _
  | pages | recache | touch | free | clear => exact Nat.le_refl _

theorem moves_next_le {a b : Life} (h : Relation.ReflTransGen LifeMove a b) :
    a.lives.nextScatter ≤ b.lives.nextScatter := by
  induction h with
  | refl => exact Nat.le_refl _
  | tail _ hmove ih => exact Nat.le_trans ih (LifeMove.next_le hmove)

theorem settles_of_ends {c : Prop} (h : Ends c (restTerms others gap s) s') : Settles c others gap s s' := by
  obtain ⟨t', hmoved, hgap, hb⟩ := h
  exact settles_of_balanced hb hmoved.others hmoved.fly hmoved.gap hgap (moves_next_le hmoved.life)

theorem settles_of_live {c : Prop} {l : Lives} {S : List Scatter} (h : Balanced (live (restTerms others gap s) l S) s')
    (hnext : s.nextScatter ≤ l.nextScatter) : Settles c others gap s s' :=
  settles_of_balanced h rfl rfl rfl (fun _ h => h) hnext

theorem made_settles {c : Prop} {pageNum : Int} {made : Option Nat} (h : Made (restTerms others gap s) pageNum made s') :
    Settles c others gap s s' := by
  cases made with
  | none =>
    obtain ⟨g, _, hb | hb⟩ := h
    · exact settles_of_live hb (Nat.le_refl _)
    · exact settles_of_live hb (Nat.le_succ _)
  | some n =>
    obtain ⟨_, g, m, _, _, _, _, _, hb⟩ := h
    exact settles_of_live hb (Nat.le_succ _)

theorem picked_settles {c : Prop} {n : Nat} {S : List Scatter} (hpick : Picked (restTerms others gap s) n t)
    (h : Balanced (t.on S) s') : Settles c others gap s s' := by
  cases hpick with
  | idle => exact settles_of_live h (Nat.le_refl _)
  | made => exact settles_of_live h (Nat.le_succ _)

theorem touched_settles {c : Prop} {n : Nat} (h : Touched (restTerms others gap s) n s') : Settles c others gap s s' := by
  obtain ⟨f, _, hb⟩ := h
  exact settles_of_live (l := lives s) hb (Nat.le_refl _)

section Ops
variable (h : Rests others gap s) {c : Prop}
include h

theorem alloc_settles (maxPage pageNum : Int) : Settles c others gap s (codecMmScatterAlloc env maxPage pageNum s).2 := by
  have halloc := @alloc_spec env _ _ h (fun _ => rfl) maxPage pageNum
  generalize (codecMmScatterAlloc env maxPage pageNum s).1 = made at halloc
  cases halloc with
  | none hmade => exact made_settles hmade
  | refused hpick hb | some hpick _ _ hb => exact picked_settles hpick hb

theorem allocNew_settles (maxPage pageNum : Int) :
    Settles c others gap s (codecMmScatterAllocNew env maxPage pageNum s).2 :=
  made_settles (allocNew_spec h (fun _ => rfl) pageNum)

theorem wantPages_settles (n : Nat) (want : Int) :
    Settles c others gap s (codecMmScatterAllocWantPagesIn env n want s).2 := by
  rcases wantPages_spec h n want with ⟨_, hs⟩ | ⟨_, g, _, _, hb⟩
  · rw [hs]
    exact settles_of_live (l := lives s) h (Nat.le_refl _)
  · exact settles_of_live (l := lives s) hb (Nat.le_refl _)

theorem freeTail_settles (n : Nat) (id : Int) (fastMode freeMode : Nat) :
    Settles (fastMode = 2 ∨ fastMode = 3 → s.isCacheSc n = false) others gap s
      (codecMmScatterFreeTailPagesIn n id fastMode freeMode s).2 := by
  obtain ⟨S, gap', hgap, hb⟩ := @freeTail_spec n _ _ h id fastMode freeMode fun _ => rfl
  refine settles_of_balanced hb rfl rfl rfl (fun hcond hzero => ?_) (Nat.le_refl _)
  refine (hgap ?_).trans hzero
  by_cases hfast : fastMode = 2 ∨ fastMode = 3
  · exact .inl (hcond hfast)
  · exact .inr hfast

theorem keeps_settles {α : Type} {x : ScM α} (hx : ∀ t, Keeps (Balanced t) x) : Settles c others gap s (x s).2 :=
  settles_of_live (l := lives s) (hx _ s h) (Nat.le_refl _)

end Ops

end Manager

/-! ## Both managers -/

/-- The frames a manager has. -/
def framesOf (m : Smgt) (f : Nat) : Int := sumBy (frameCount f) m.slots + sumBy (heldCount (onePage f)) m.scatters

def AtRest (gap : Bool → Int) (w : Managers) : Prop := ∀ istvp, Rests (framesOf (w.mgt !istvp)) (gap istvp) (w.sc istvp)

theorem framesOf_nonneg (m : Smgt) (f : Nat) : 0 ≤ framesOf m f :=
  Int.add_nonneg (sumBy_nonneg (frameCount_nonneg f _)) (sumBy_nonneg (heldCount_nonneg _ _))

theorem other_rests {m : Smgt} {r : Ram} {others : Nat → Int} {gap gap' : Int} {s' : Sc}
    (ho : Rests others gap { toSmgt := m, toRam := r }) (hs : Rests (framesOf m) gap' s')
    (hnext : r.nextScatter ≤ s'.nextScatter) : Rests (framesOf s'.toSmgt) gap { toSmgt := m, toRam := s'.toRam } := by
  refine { ho with scatterNumbered := fun b hb => ?_, frames := fun f => ?_, lentOnce := hs.lentOnce,
                   othersNonneg := framesOf_nonneg s'.toSmgt, cachesNumbered := fun n hn => ?_, alive := rfl,
                   stand := rfl }
  · exact Nat.lt_of_lt_of_le (ho.scatterNumbered b hb) hnext
  · have hf : (s'.lent.count f : Int) = sumBy (frameCount f) s'.slots +
        (sumBy (heldCount (onePage f)) s'.scatters + 0) + framesOf m f := hs.frames f
    dsimp only [books]
    rw [framesOf] at hf ⊢
    omega
  · exact Nat.lt_of_lt_of_le (ho.cachesNumbered n hn) hnext

section Step
variable {env : ScEnv} {gap : Bool → Int} {w : Managers} {c : Prop}

theorem onMgt_atRest {α : Type} {istvp : Bool} {x : ScM α} (h : AtRest gap w)
    (hx : Settles c (framesOf (w.mgt !istvp)) (gap istvp) (w.sc istvp) (x (w.sc istvp)).2) :
    ∃ gap', (c → (∀ k, gap k = 0) → ∀ k, gap' k = 0) ∧ AtRest gap' (onMgt istvp x w).2 := by
  obtain ⟨hnext, gap', hgap, hs⟩ := hx
  have hother := other_rests (h !istvp) hs hnext
  refine ⟨fun k => if k = istvp then gap' else gap k, fun hc hzero k => ?_, fun k => ?_⟩
  · dsimp only
    split
    · exact hgap hc (hzero istvp)
    · exact hzero k
  · cases istvp <;> cases k
    · exact hs
    · exact hother
    · exact hother
    · exact hs

theorem userIn_atRest {x : ScM Int} (h : AtRest gap w)
    (hx : ∀ others gap s, Rests others gap s → Settles c others gap s (x s).2) :
    ∃ gap', (c → (∀ k, gap k = 0) → ∀ k, gap' k = 0) ∧ AtRest gap' ((do
      let ret ← onMgt false x
      if ret < 0 then onMgt true x else pure ret : StateM Managers Int) w).2 := by
  obtain ⟨gap1, hgap1, h1⟩ := onMgt_atRest h (hx _ _ _ (h false))
  show ∃ gap', _ ∧ AtRest gap' ((if (onMgt false x w).1 < 0 then onMgt true x else pure _ : StateM Managers Int)
    (onMgt false x w).2).2
  split
  next =>
    obtain ⟨gap2, hgap2, h2⟩ := onMgt_atRest h1 (hx _ _ _ (h1 true))
    exact ⟨gap2, fun hc hzero => hgap2 hc (hgap1 hc hzero), h2⟩
  next => exact ⟨gap1, hgap1, h1⟩

theorem goes_settles {α : Type} {x : ScM α} (hx : Goes c x) (others : Nat → Int) (gap : Int) (s : Sc)
    (h : Rests others gap s) : Settles c others gap s (x s).2 :=
  settles_of_ends (hx _ s (fun _ => rfl) h)

theorem delayFreeSwitch_keeps (on : Bool) (delayMs waitSizeM : Nat) (t : Terms) :
    Keeps (Balanced t) (codecMmScatterMgtDelayFreeSwith env on delayMs waitSizeM) := by
  refine .bind ask_keeps fun now => ?_
  cases on with
  | true | false => exact .modify fun _ h => h.frame rfl

/-- Every operation leaves both ledgers at rest. -/
theorem exec_atRest (h : AtRest gap w) (op : ScatterOp) :
    ∃ gap', (Careful w op → (∀ k, gap k = 0) → ∀ k, gap' k = 0) ∧ AtRest gap' (op.exec env w) := by
  cases op with
  | alloc istvp maxPage pageNum => exact onMgt_atRest h (alloc_settles (h istvp) maxPage pageNum)
  | allocNew istvp maxPage pageNum => exact onMgt_atRest h (allocNew_settles (h istvp) maxPage pageNum)
  | wantPages mms want => exact onMgt_atRest h (wantPages_settles (h _) mms want)
  | freeTail mms id fastMode freeMode => exact onMgt_atRest h (freeTail_settles (h _) mms id fastMode freeMode)
  | incForKeeper mms => exact userIn_atRest h fun _ _ _ hs => touched_settles (incUser_spec hs mms keeperWeight)
  | decKeeperUser mms delayMs =>
    exact userIn_atRest h fun _ _ _ hs => touched_settles (decUser_spec hs mms delayMs keeperWeight)
  | decOwnerUser mms delayMs =>
    exact userIn_atRest h fun _ _ _ hs => touched_settles (decUser_spec hs mms delayMs ownerWeight)
  | slotAlloc istvp size flags =>
    exact onMgt_atRest h (keeps_settles (h istvp) fun t s hs => (slotAlloc_spec size flags s hs).1)
  | freeAllFreeSlots istvp => exact onMgt_atRest h (goes_settles freeAllFreeSlots_goes _ _ _ (h istvp))
  | monitor istvp => exact onMgt_atRest h (settles_of_ends (monitor_spec (h istvp) fun _ => rfl))
  | delayFreeSwitch istvp on delayMs waitSizeM =>
    exact onMgt_atRest h (keeps_settles (h istvp) (delayFreeSwitch_keeps on delayMs waitSizeM))
  | freeAllIgnorecache istvp => exact onMgt_atRest h (goes_settles freeAllIgnorecache_goes _ _ _ (h istvp))

theorem run_atRest (h : AtRest gap w) (steps : List (ScEnv × ScatterOp)) :
    ∃ gap', (CarefulRun steps w → (∀ k, gap k = 0) → ∀ k, gap' k = 0) ∧ AtRest gap' (run steps w) := by
  induction steps generalizing gap w with
  | nil => exact ⟨gap, fun _ hzero => hzero, h⟩
  | cons step steps ih =>
    obtain ⟨env, op⟩ := step
    obtain ⟨gap1, hgap1, h1⟩ := exec_atRest h op
    obtain ⟨gap2, hgap2, h2⟩ := ih h1
    exact ⟨gap2, fun hcareful hzero => hgap2 hcareful.2 (hgap1 hcareful.1 hzero), h2⟩

theorem made_rests (tvpMode tvpMode' : Bool) (noCacheSizeM noCacheSizeM' : Nat) :
    Rests (framesOf (codecMmScatterMgtAllocIn tvpMode' noCacheSizeM')) 0
      { toSmgt := codecMmScatterMgtAllocIn tvpMode noCacheSizeM, toRam := ⟨[], 0, 1, []⟩ } where
  slotNums := List.nodup_nil
  slotNumbered _ hin := nomatch hin
  scatterNums := List.nodup_nil
  scatterNumbered _ hin := nomatch hin
  mapped _ hin := nomatch hin
  shaped _ hin := nomatch hin
  listed _ hin := nomatch hin
  pages _ _ := rfl
  frames _ := rfl
  lentOnce _ := Nat.zero_le _
  flying _ := Int.le_refl 0
  othersNonneg _ := Int.le_refl 0
  alloced := rfl
  cached := rfl
  total := rfl
  cachesNumbered _ hn := Bool.noConfusion hn
  cachesUnlisted _ hin := nomatch hin
  alive := rfl
  stand := rfl

theorem initial_atRest (noCacheSizeM noCacheSizeMTvp : Nat) : AtRest (fun _ => 0) (initial noCacheSizeM noCacheSizeMTvp) := by
  intro istvp
  cases istvp with
  | true => exact made_rests true false noCacheSizeMTvp noCacheSizeM
  | false => exact made_rests false true noCacheSizeM noCacheSizeMTvp

end Step

/-! ## Conservation -/

theorem slotIds_nodup {slot : Slot} (h : Mapped slot) : (slotIds slot).Nodup := by
  rw [slotIds, List.Nodup, List.pairwise_map]
  refine Lib.Bitmap.ones_nodup.imp_of_mem fun ha hb hne heq => hne ?_
  rw [pageId_eq h (Lib.Bitmap.mem_ones.mp ha).1, pageId_eq h (Lib.Bitmap.mem_ones.mp hb).1] at heq
  omega

theorem slotCount_le {slot : Slot} (h : Mapped slot) (x : Nat) : slotCount x slot ≤ frameCount (x / 0x1000) slot := by
  rw [frameCount_eq, slotCount, (slotIds_nodup h).count]
  split
  next hin =>
    obtain ⟨i, hi, rfl⟩ := List.mem_map.mp hin
    have hlt := (Lib.Bitmap.mem_ones.mp hi).1
    have hsid := h.hashed
    have hal := h.aligned
    simp only [maxSid, sidMask] at hsid
    have hrange : inRange (slot.phyAddr / pageSize) slot.pageNum (slot.pageId i / 0x1000) = true := by
      rw [pageId_eq h hlt, inRange, Bool.and_eq_true, decide_eq_true_eq, decide_eq_true_eq, pageSize]
      omega
    rw [if_pos hrange]
    exact Int.le_refl 1
  next =>
    split
    · exact Int.zero_le_ofNat 1
    · exact Int.le_refl 0

section Conserved
variable {gap : Bool → Int} {w : Managers} (h : AtRest gap w)
include h

theorem heldSum_le (istvp : Bool) (x : Nat) : sumBy (heldCount x) (w.mgt istvp).scatters ≤
    framesOf (w.mgt istvp) (x / 0x1000) := by
  have hslots := sumBy_nonneg (frameCount_nonneg (x / 0x1000) (w.mgt istvp).slots)
  have hones := sumBy_nonneg (heldCount_nonneg (onePage (x / 0x1000)) (w.mgt istvp).scatters)
  rw [framesOf]
  by_cases hone : pageSid x = onePageSid
  · have hx : x = onePage (x / 0x1000) := by
      rw [pageSid, onePageSid, sidMask] at hone
      rw [onePage]
      omega
    rw [← hx]
    omega
  · have hpages : sumBy (heldCount x) (w.mgt istvp).scatters + 0 = sumBy (slotCount x) (w.mgt istvp).slots :=
      (h istvp).pages x hone
    have hle := sumBy_mono fun slot hslot => slotCount_le ((h istvp).mapped slot hslot).1 x
    have hle : sumBy (slotCount x) (w.mgt istvp).slots ≤ sumBy (frameCount (x / 0x1000)) (w.mgt istvp).slots := hle
    omega

theorem frames_once (f : Nat) : framesOf (w.mgt false) f + framesOf (w.mgt true) f ≤ 1 := by
  have hf : (w.ram.lent.count f : Int) = sumBy (frameCount f) (w.mgt false).slots +
    (sumBy (heldCount (onePage f)) (w.mgt false).scatters + 0) + framesOf (w.mgt true) f := (h false).frames f
  have honce : w.ram.lent.count f ≤ 1 := (h false).lentOnce f
  rw [framesOf]
  omega

omit h in
theorem count_held (x : Nat) : ((held w).count x : Int) =
    sumBy (heldCount x) (w.mgt false).scatters + sumBy (heldCount x) (w.mgt true).scatters := by
  rw [held, count_flatMap, Managers.scatters, sumBy_append]
  rfl

theorem held_once (x : Nat) : (held w).count x ≤ 1 := by
  have hfalse := heldSum_le h false x
  have htrue := heldSum_le h true x
  have honce := frames_once h (x / 0x1000)
  have hcount := @count_held w x
  omega

theorem bit_held {istvp : Bool} {slot : Slot} (hslot : slot ∈ (w.mgt istvp).slots) {bit : Nat}
    (hset : slot.pagemap bit = true) : (held w).count (slot.pageId bit) = 1 := by
  have hm := ((h istvp).mapped slot hslot).1
  have hbit := hm.bits bit hset
  have hin : slot.pageId bit ∈ slotIds slot := List.mem_map.mpr ⟨bit, Lib.Bitmap.mem_ones.mpr ⟨hbit, hset⟩, rfl⟩
  have hpos : 0 < (slotIds slot).count (slot.pageId bit) := List.count_pos_iff.mpr hin
  have hle := le_sumBy hslot (slotCount_nonneg (slot.pageId bit) (w.mgt istvp).slots)
  have hpages : sumBy (heldCount (slot.pageId bit)) (w.mgt istvp).scatters + 0 =
    sumBy (slotCount (slot.pageId bit)) (w.mgt istvp).slots := (h istvp).pages _ (pageId_not_one hm hbit)
  have honce := held_once h (slot.pageId bit)
  have hcount := @count_held w (slot.pageId bit)
  have hother := sumBy_nonneg (heldCount_nonneg (slot.pageId bit) (w.mgt (!istvp)).scatters)
  rw [slotCount] at hle
  cases istvp with
  | true | false =>
    simp only [Bool.not_true, Bool.not_false] at hother
    omega

theorem scatter_holds {m : Scatter} (hm : m ∈ Managers.scatters w) : Holds m (heldPages m) := by
  rcases List.mem_append.mp hm with hm | hm
  · exact (h false).shaped m hm
  · exact (h true).shaped m hm

end Conserved

theorem Holds.entry {m : Scatter} {held : List Nat} (h : Holds m held) (i : Nat) :
    m.pagesList.getD i 0 ≠ 0 ↔ (i : Int) < m.pageCnt := by
  rw [h.cnt, h.list, List.getD_eq_getElem?_getD]
  by_cases hi : i < held.length
  · rw [List.getElem?_append_left hi, List.getElem?_eq_getElem hi, Option.getD_some]
    constructor
    · intro _
      omega
    · intro _ hzero
      exact h.filled (hzero ▸ List.getElem_mem hi)
  · rw [List.getElem?_append_right (by omega), List.getElem?_replicate]
    constructor
    · intro hne
      split at hne <;> exact absurd rfl hne
    · intro hlt
      omega

theorem conserved_of_atRest {gap : Bool → Int} {w : Managers} (h : AtRest gap w) : PagesConserved w where
  heldOnce := List.nodup_iff_count.mpr fun x => held_once h x
  bits istvp slot hslot bit hset := bit_held h hslot hset
  tails m hm := by
    have hheld := scatter_holds h hm
    rw [hheld.tail, hheld.cnt]
  lists m hm i _ := Holds.entry (scatter_holds h hm) i
  fits m hm := by
    have hheld := scatter_holds h hm
    rw [hheld.cnt, hheld.list, List.length_append]
    omega
  alloced istvp := ((h istvp).alloced).trans (Int.add_zero _)
  total istvp := (h istvp).total

theorem cached_of_atRest {gap : Bool → Int} {w : Managers} (h : AtRest gap w) (hzero : ∀ k, gap k = 0) :
    CachedPagesCounted w := by
  intro istvp
  have hcached := (h istvp).cached
  rw [show (⟨_, _, _, gap istvp, _, _⟩ : Terms).cacheGap = 0 from hzero istvp, Int.add_zero] at hcached
  exact hcached

/-- Over every run pages are conserved. The counter of cached pages stays right over every run
in which no cache is fast-freed and no caches are made while one is left. -/
theorem scatter_pages_conserved (noCacheSizeM noCacheSizeMTvp : Nat) (steps : List (ScEnv × ScatterOp)) :
    PagesConserved (run steps (initial noCacheSizeM noCacheSizeMTvp)) ∧
      (CarefulRun steps (initial noCacheSizeM noCacheSizeMTvp) →
        CachedPagesCounted (run steps (initial noCacheSizeM noCacheSizeMTvp))) := by
  obtain ⟨gap, hgap, h⟩ := run_atRest (initial_atRest noCacheSizeM noCacheSizeMTvp) steps
  exact ⟨conserved_of_atRest h, fun hcareful => cached_of_atRest h (hgap hcareful fun _ => rfl)⟩

/-! ### A run with both caches, and one that forgets a cache -/

def sampleConfig : ScatterConfig where
  keepSizePage := 5120
  reservedBlockMmM := 300
  tryAllocInCmaPageCnt := 4096
  tryAllocInSysPageCntMax := 128
  tryAllocInSysPageCntMin := 8
  enableSlotFromSys := false
  supportFromSlotSys := false
  noCacheSizeM := 0
  noAllocFromSys := false

/-- The answers one after the other, then failure. -/
def answers (l : List Nat) : ScEnv := { outcome := fun i => l.getD i 0, config := sampleConfig }

/-- Both caches are made and three single pages are cached; a scatter takes two of them and a
fast free moves one back. -/
def cachedRun : List (ScEnv × ScatterOp) :=
  let env := answers [0, 1, 1, 0, 0, 0, 1, 2, 3, 0, 1]
  [(env, .delayFreeSwitch false true 0 12288), (env, .monitor false), (env, .alloc false 8 2), (env, .freeTail 3 1 2 0)]

theorem cachedRun_conserved : (run cachedRun (initial 0 0)).scatterMgt.cachedPages = 2 ∧
    PagesConserved (run cachedRun (initial 0 0)) ∧ CachedPagesCounted (run cachedRun (initial 0 0)) :=
  ⟨by decide +kernel, (scatter_pages_conserved 0 0 cachedRun).1, (scatter_pages_conserved 0 0 cachedRun).2
    ⟨trivial, fun _ _ => rfl, trivial, fun _ => by decide +kernel, trivial⟩⟩

/-- There is no memory for the first cache; the second one gets three pages. The next run of
the monitor makes both caches again. -/
def forgetfulRun : List (ScEnv × ScatterOp) :=
  let env := answers [0, 0, 1, 0, 0, 0, 1, 2, 3, 0, 1, 1]
  [(env, .delayFreeSwitch false true 0 12288), (env, .monitor false), (env, .monitor false)]

/-- The counter has the three pages, and the two caches have none. -/
theorem forgetfulRun_miscounted : (run forgetfulRun (initial 0 0)).scatterMgt.cachedPages = 3 ∧
    (run forgetfulRun (initial 0 0)).scatterMgt.cacheSc0 = some 2 ∧
    (run forgetfulRun (initial 0 0)).scatterMgt.cacheSc1 = some 3 ∧
    (run forgetfulRun (initial 0 0)).scatterMgt.scatters.map (fun m => (m.num, m.pageCnt)) = [(1, 3), (2, 0), (3, 0)] ∧
    ¬ CachedPagesCounted (run forgetfulRun (initial 0 0)) :=
  ⟨by decide +kernel, by decide +kernel, by decide +kernel, by decide +kernel,
    fun h => absurd (h false) (by decide +kernel)⟩

end AmlogicV901d.Guarantees.ScatterConservation
