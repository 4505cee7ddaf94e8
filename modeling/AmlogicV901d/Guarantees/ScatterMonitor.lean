import Mathlib.Logic.Relation
import AmlogicV901d.Guarantees.ScatterLife

/-!
# The monitor

The monitor makes and gives up the caches, frees scatters without a user and fills or
trims the caches. Whatever it does to the scatters is a sequence of a few moves; the
ledger stays balanced, and the counter of cached pages stays right unless a cache is
forgotten.
-/
namespace AmlogicV901d.Guarantees.ScatterMonitor
open Source.CodecMmScatter Lib.StateTriple Lib.KeyedList ScatterShapes ScatterLedger ScatterPages ScatterFree ScatterLife
open Scatter (num)
open List

/-! ## Moves -/

structure Life where
  lives : Lives
  scatters : List Scatter

/-- A new scatter that has left the list again. -/
def unlistedNew (l : Lives) : Lives :=
  { enlisted (numbered l) l.nextScatter with
    scatterList := (l.scatterList ++ [l.nextScatter]).filter (· ≠ l.nextScatter) }

/-- What the monitor does to the scatters of its manager. -/
inductive LifeMove : Life → Life → Prop
  | pages {l : Lives} {S : List Scatter} {g : Scatter → Scatter} (hg : PageChange g) : LifeMove ⟨l, S⟩ ⟨l, S.map g⟩
  /-- a new scatter that becomes a cache -/
  | cache {l : Lives} {S : List Scatter} {g : Scatter → Scatter} {m : Scatter} {mms0 mms1 : Option Nat}
      (hg : PageChange g) (hnum : m.num = l.nextScatter) :
      LifeMove ⟨l, S⟩ ⟨(unlistedNew l).recached mms0 mms1, S.map g ++ [m]⟩
  /-- a new scatter that is given up at once -/
  | unfilled {l : Lives} {S : List Scatter} {g : Scatter → Scatter} (hg : PageChange g) :
      LifeMove ⟨l, S⟩ ⟨without (numbered l) l.nextScatter true, S.map g⟩
  | recache {l : Lives} {S : List Scatter} {mms0 mms1 : Option Nat} : LifeMove ⟨l, S⟩ ⟨l.recached mms0 mms1, S⟩
  /-- the users of a scatter that is in no list, such as a cache -/
  | touch {l : Lives} {S : List Scatter} {n : Nat} {f : Scatter → Scatter} (hnum : ∀ b, (f b).num = b.num)
      (hn : n ∉ l.scatterList) : LifeMove ⟨l, S⟩ ⟨l, update Scatter.num n f S⟩
  | free {l : Lives} {S : List Scatter} {n : Nat} {m : Scatter} (hm : lookup Scatter.num n S = some m)
      (hn : n ∉ l.scatterList) : LifeMove ⟨l, S⟩ ⟨without l n false, remove Scatter.num n S⟩
  | clear {l : Lives} {S : List Scatter} {n : Nat} {m : Scatter} (hm : lookup Scatter.num n S = some m)
      (hidle : m.userCnt = 0) (hn : n ∈ l.scatterList) : LifeMove ⟨l, S⟩ ⟨without l n false, remove Scatter.num n S⟩

/-- The terms after a sequence of moves. -/
structure Moved (t t' : Terms) : Prop where
  others : t'.others = t.others
  fly : t'.fly = t.fly
  gap : t'.gap = t.gap
  life : Relation.ReflTransGen LifeMove ⟨t.lives, t.scatters⟩ ⟨t'.lives, t'.scatters⟩

theorem Moved.refl (t : Terms) : Moved t t := ⟨rfl, rfl, rfl, .refl⟩

theorem Moved.trans {t t' t'' : Terms} (h : Moved t t') (h' : Moved t' t'') : Moved t t'' :=
  ⟨h'.others.trans h.others, h'.fly.trans h.fly, h'.gap.trans h.gap, h.life.trans h'.life⟩

theorem Moved.quiet {t t' : Terms} (h : Moved t t') (hquiet : t.Quiet) : t'.Quiet := fun x => h.fly ▸ hquiet x

theorem Moved.single {t : Terms} {l : Lives} {S : List Scatter} (h : LifeMove ⟨t.lives, t.scatters⟩ ⟨l, S⟩) :
    Moved t (live t l S) :=
  ⟨rfl, rfl, rfl, .single h⟩

/-- Where an operation ends; under `c` the counter of cached pages stays right. -/
def Ends (c : Prop) (t : Terms) (s : Sc) : Prop :=
  ∃ t', Moved t t' ∧ (c → t.cacheGap = 0 → t'.cacheGap = 0) ∧ Balanced t' s

/-- An operation that starts with no page in flight. -/
def Goes {α : Type} (c : Prop) (x : ScM α) : Prop :=
  ∀ (t : Terms) (s : Sc), (∀ p, t.fly p = 0) → Balanced t s → Ends c t (x s).2

section Rules
variable {α β : Type} {c : Prop} {t : Terms} {s : Sc}

theorem Ends.same (h : Balanced t s) : Ends c t s := ⟨t, .refl t, fun _ h => h, h⟩

theorem Ends.step {l : Lives} {S : List Scatter} (hmove : LifeMove ⟨t.lives, t.scatters⟩ ⟨l, S⟩)
    (h : Balanced (live t l S) s) : Ends c t s :=
  ⟨_, .single hmove, fun _ h => h, h⟩

theorem Ends.trans {t' : Terms} (hmoved : Moved t t') (hgap : c → t.cacheGap = 0 → t'.cacheGap = 0) (h : Ends c t' s) :
    Ends c t s := by
  obtain ⟨t'', hmoved', hgap', hb⟩ := h
  exact ⟨t'', hmoved.trans hmoved', fun hc h0 => hgap' hc (hgap hc h0), hb⟩

theorem Ends.go {s' : Sc} (hquiet : t.Quiet) (h : Ends c t s)
    (hx : ∀ t', t'.Quiet → Balanced t' s → Ends c t' s') : Ends c t s' := by
  obtain ⟨t', hmoved, hgap, hb⟩ := h
  exact .trans hmoved hgap (hx t' (hmoved.quiet hquiet) hb)

theorem Goes.of_keeps {x : ScM α} (h : ∀ t, Keeps (Balanced t) x) : Goes c x := fun t s _ hb => .same (h t s hb)

theorem Goes.pure (a : α) : Goes c (pure a : ScM α) := .of_keeps fun _ => .pure a

theorem Goes.frame {f : Sc → Sc} (h : ∀ s, books (f s) = books s) : Goes c (modify f : ScM PUnit) :=
  .of_keeps fun _ => .modify fun s hb => hb.frame (h s)

theorem Goes.bind {x : ScM α} {f : α → ScM β} (hx : Goes c x) (hf : ∀ a, Goes c (f a)) : Goes c (x >>= f) :=
  fun t s hquiet hb => .go hquiet (hx t s hquiet hb) fun t' hquiet' hb' => hf _ t' _ hquiet' hb'

theorem Goes.get : Goes c (get : ScM Sc) := .of_keeps fun _ => .get

theorem Goes.ask (env : ScEnv) : Goes c (ask env) := .of_keeps fun _ => ask_keeps

theorem Goes.ite {p : Prop} [Decidable p] {x y : ScM α} (hx : Goes c x) (hy : Goes c y) :
    Goes c (if p then x else y) := by
  split
  · exact hx
  · exact hy

end Rules

/-! ## Slots and unused pages -/

section Ops
variable {env : ScEnv} {c : Prop} {t : Terms} {s : Sc}

theorem freeSlotsLoop_keeps (rounds : Nat) : Keeps (Balanced t) (freeSlotsLoop rounds) := by
  induction rounds with
  | zero => exact fun _ h => h
  | succ rounds ih =>
    intro s h
    rw [freeSlotsLoop, get_bind]
    cases hslot : (s.freeList.reverse.filterMap fun num => lookup Slot.num num s.slots).find? (·.allocedPageNum = 0) with
    | none => exact h
    | some slot =>
      obtain ⟨num, _, hlook⟩ := mem_filterMap.mp (mem_of_find?_eq_some hslot)
      obtain rfl := key_of_lookup hlook
      exact ih _ (slotFree_spec slot _ ⟨h.delist slot.num, hlook⟩).1

theorem freeAllFreeSlots_goes : Goes c codecMmFreeAllFreeSlotsIn :=
  .of_keeps fun _ => .bind .get fun _ => freeSlotsLoop_keeps _

theorem pages_move {f : Scatter → Scatter} (hf : PageChange f) (n : Nat)
    (h : Balanced (t.on (update num n f t.scatters)) s) : Ends c t s :=
  .step (l := t.lives) (.pages (pageChange_ite hf n)) h

theorem freeTail_goes (n : Nat) (id : Int) (freeMode : Nat) : Goes c (codecMmScatterFreeTailPagesIn n id 0 freeMode) := by
  intro t s hquiet h
  cases hm : lookup num n s.scatters with
  | none =>
    rw [codecMmScatterFreeTailPagesIn, get_bind, hm]
    exact .same h
  | some m =>
    obtain ⟨f, hf, _, hfree⟩ := freeTail_slow id freeMode h hquiet hm
    rw [h.same] at hfree
    exact pages_move hf n hfree

/-! ## The caches -/

/-- The users of a scatter change. -/
def Touched (t : Terms) (n : Nat) (s : Sc) : Prop :=
  ∃ f, (∀ b : Scatter, (f b).num = b.num) ∧ Balanced (t.on (update Scatter.num n f t.scatters)) s

section
variable (h : Balanced t s)
include h

theorem Touched.stay (n : Nat) : Touched t n s :=
  ⟨fun b => b, fun _ => rfl, by rw [update_self]; exact h⟩

/-- A reference is given back. -/
def released (cnt : Int32) (due : Nat) (m : Scatter) : Scatter :=
  { m with userCnt := m.userCnt - cnt, tofreeJiffies := if m.userCnt - cnt = 0 then due else m.tofreeJiffies }

theorem decUser_spec (n delayFreeMs : Nat) (cnt : Int32) :
    Touched t n (codecMmScatterDecUserIn1 env n delayFreeMs cnt s).2 := by
  have hstay := Touched.stay h n
  rw [codecMmScatterDecUserIn1, get_bind]
  cases hm : lookup num n s.scatters with
  | none => exact hstay
  | some m =>
    dsimp only
    split
    next => exact hstay
    next =>
      split
      next => exact ⟨released cnt (env.outcome s.tick + delayFreeMs), fun _ => rfl,
          touch_balanced (@ask_keeps env t s h) n (fun _ => rfl) fun _ _ hb => hb.frame rfl rfl rfl rfl⟩
      next => exact hstay

/-- A reference is taken. -/
def retained (cnt : Int32) (now : Nat) (m : Scatter) : Scatter :=
  { m with userCnt := m.userCnt + cnt, tofreeJiffies := if m.userCnt = 1 then now else m.tofreeJiffies }

theorem incUser_spec (n : Nat) (cnt : Int32) :
    Touched t n (codecMmScatterIncUserIn1 env n cnt s).2 := by
  have hstay := Touched.stay h n
  rw [codecMmScatterIncUserIn1, get_bind]
  cases hm : lookup num n s.scatters with
  | none => exact hstay
  | some m =>
    dsimp only
    split
    next => exact hstay
    next =>
      split
      next => exact ⟨retained cnt (env.outcome s.tick), fun _ => rfl,
          touch_balanced (@ask_keeps env t s h) n (fun _ => rfl) fun _ _ hb => hb.frame rfl rfl rfl rfl⟩
      next => exact hstay

theorem dropCache_spec (hquiet : t.Quiet) {mms : Option Nat}
    (hout : ∀ n, mms = some n → n ∉ t.lives.scatterList) :
    ∃ t', Moved t t' ∧ t'.cacheGap = t.cacheGap ∧ (∀ k ∈ t'.lives.scatterList, k ∈ t.lives.scatterList) ∧
      t'.lives.cacheSc0 = t.lives.cacheSc0 ∧ t'.lives.cacheSc1 = t.lives.cacheSc1 ∧ Balanced t' (dropCache env mms s).2 := by
  cases mms with
  | none => exact ⟨t, .refl t, rfl, fun _ hk => hk, rfl, rfl, h⟩
  | some n =>
    obtain ⟨f, hnum, hdec⟩ := decUser_spec h n 0 ownerWeight
    have hmove : Moved t (t.on (update num n f t.scatters)) := .single (.touch hnum (hout n rfl))
    show ∃ t', _ ∧ _ ∧ _ ∧ _ ∧ _ ∧ Balanced t'
      (codecMmScatterFreeOnNouserExt n false (codecMmScatterDecUserIn1 env n 0 ownerWeight s).2).2
    generalize (codecMmScatterDecUserIn1 env n 0 ownerWeight s).2 = s' at hdec ⊢
    rcases freeOnNouser_spec (n := n) hdec hquiet false with hkept | ⟨m, hm, _, hfree⟩
    · exact ⟨_, hmove, rfl, fun _ hk => hk, rfl, rfl, hkept⟩
    · exact ⟨_, hmove.trans (.single (.free hm (hout n rfl))), rfl, fun _ hk => (mem_filter.mp hk).1, rfl, rfl, hfree⟩

omit h in
theorem noCache_weight (l : Lives) (h0 : l.cacheSc0 = none) (h1 : l.cacheSc1 = none) (S : List Scatter) :
    sumBy l.cacheWeight S = 0 := by
  refine sumBy_zero fun m _ => ?_
  rw [Lives.cacheWeight, Lives.isCache, h0, h1]
  rfl

theorem caches_eq : s.cacheSc0 = t.lives.cacheSc0 ∧ s.cacheSc1 = t.lives.cacheSc1 :=
  ⟨congrArg Lives.cacheSc0 h.alive, congrArg Lives.cacheSc1 h.alive⟩

theorem cache_unlisted {n : Nat} (hn : t.lives.isCache n = true) : n ∉ t.lives.scatterList := by
  have hunlisted := h.cachesUnlisted n
  rw [h.alive] at hunlisted
  exact fun hin => Bool.noConfusion ((hunlisted hin).symm.trans hn)

theorem forget_balanced {mms0 mms1 : Option Nat}
    (hold : ∀ n, mms0 = some n ∨ mms1 = some n → t.lives.isCache n = true) :
    Balanced { t with
        cacheGap := 0 - sumBy (t.lives.recached mms0 mms1).cacheWeight t.scatters
        lives := t.lives.recached mms0 mms1 }
      { s with cacheSc0 := mms0, cacheSc1 := mms1, cachedPages := 0 } :=
  h.recache mms0 mms1 0 fun n hn => by
    have hnumbered := h.cachesNumbered n
    rw [h.alive] at hnumbered
    exact ⟨hnumbered (hold n hn), cache_unlisted h (hold n hn)⟩

end

theorem isCache_iff {l : Lives} {n : Nat} : l.isCache n = true ↔ l.cacheSc0 = some n ∨ l.cacheSc1 = some n := by
  rw [Lives.isCache, Bool.or_eq_true, beq_iff_eq, beq_iff_eq]

theorem dropCaches_goes : Goes c (dropCaches env) := by
  intro t s hquiet h
  have hforget := @forget_balanced t s h none none fun n hn => by
    rcases hn with hn | hn <;> cases hn
  rw [noCache_weight _ rfl rfl] at hforget
  obtain ⟨h0, h1⟩ := caches_eq h
  have hmove : Moved t { t with cacheGap := 0 - 0, lives := t.lives.recached none none } :=
    ⟨rfl, rfl, rfl, .single .recache⟩
  obtain ⟨t1, hmoved1, hgap1, hsub, _, _, hb1⟩ := dropCache_spec hforget hquiet
    fun n hn => cache_unlisted h (isCache_iff.mpr (.inl (h0 ▸ hn)))
  obtain ⟨t2, hmoved2, hgap2, _, _, _, hb2⟩ := @dropCache_spec env _ _ hb1
    (hmoved1.quiet hquiet) s.cacheSc1
    fun n hn hin => cache_unlisted h (isCache_iff.mpr (.inr (h1 ▸ hn))) (hsub n hin)
  exact ⟨t2, (hmove.trans hmoved1).trans hmoved2, fun _ _ => (hgap2.trans hgap1).trans rfl, hb2⟩

/-- A round of the loop: the first cache goes and the second takes its place. -/
def dropRound (env : ScEnv) : ScM Unit := do
  let s ← get
  modify fun s => { s with delayFreeOn := 0, cacheSc0 := s.cacheSc1, cacheSc1 := none, cachedPages := 0 }
  dropCache env s.cacheSc0

theorem dropRound_spec (h : Balanced t s) (hquiet : t.Quiet) :
    ∃ t', Moved t t' ∧ t'.lives.cacheSc0 = t.lives.cacheSc1 ∧ t'.lives.cacheSc1 = none ∧
      (t.lives.cacheSc1 = none → t'.cacheGap = 0) ∧ Balanced t' (dropRound env s).2 := by
  obtain ⟨h0, h1⟩ := caches_eq h
  have hforget := @forget_balanced t s h s.cacheSc1 none fun n hn => by
    rcases hn with hn | hn
    · exact isCache_iff.mpr (.inr (h1 ▸ hn))
    · cases hn
  have hframe : Balanced _ { s with delayFreeOn := 0, cacheSc0 := s.cacheSc1, cacheSc1 := none, cachedPages := 0 } :=
    hforget.frame rfl
  obtain ⟨t', hmoved, hgap, _, hc0, hc1, hb⟩ := dropCache_spec hframe hquiet
    fun n hn => cache_unlisted h (isCache_iff.mpr (.inl (h0 ▸ hn)))
  have hmove : Moved t { t with
      cacheGap := 0 - sumBy (t.lives.recached s.cacheSc1 none).cacheWeight t.scatters
      lives := t.lives.recached s.cacheSc1 none } := ⟨rfl, rfl, rfl, .single .recache⟩
  refine ⟨t', hmove.trans hmoved, hc0.trans h1, hc1, fun hnone => hgap.trans ?_, hb⟩
  rw [noCache_weight _ (h1.trans hnone) rfl]
  rfl

theorem dropCachesLoop_goes : Goes c (dropCachesLoop env 2) := by
  intro t s hquiet h
  obtain ⟨t1, hmoved1, hc0, hc1, hgap1, hb1⟩ := dropRound_spec h hquiet
  have hs1 : (dropRound env s).2.cacheSc0 = t.lives.cacheSc1 := (congrArg Lives.cacheSc0 hb1.alive).trans hc0
  show Ends c t ((do
    let s ← get
    if s.cacheSc0 ≠ none then dropCachesLoop env 1 else pure () : ScM Unit) (dropRound env s).2).2
  generalize (dropRound env s).2 = s1 at hb1 hs1 ⊢
  rw [get_bind]
  split
  next =>
    obtain ⟨t2, hmoved2, _, _, hgap2, hb2⟩ := dropRound_spec hb1 (hmoved1.quiet hquiet)
    have hlast : (dropCachesLoop env 1 s1).2 = (dropRound env s1).2 := by
      show ((if (dropRound env s1).2.cacheSc0 ≠ none then pure () else pure () : ScM Unit) (dropRound env s1).2).2 = _
      split <;> rfl
    rw [hlast]
    exact ⟨t2, hmoved1.trans hmoved2, fun _ _ => hgap2 hc1, hb2⟩
  next hnone =>
    exact ⟨t1, hmoved1, fun _ _ => hgap1 (hs1.symm.trans (Decidable.not_not.mp hnone)), hb1⟩

/-- A new scatter leaves the list and becomes a cache. If no other cache is forgotten, the
counter stays right: the new one has no pages. -/
theorem newCache_ends {n : Nat} {mms0 mms1 : Option Nat} (hmade : Made t 0 (some n) s)
    (hold : ∀ k, mms0 = some k ∨ mms1 = some k → k = n ∨ t.lives.isCache k = true)
    (hkept : c → ∀ k, t.lives.isCache k = true → mms0 = some k ∨ mms1 = some k) :
    Ends c t { s with scatterList := s.scatterList.filter (· ≠ n), cacheSc0 := mms0, cacheSc1 := mms1 } := by
  obtain ⟨rfl, g, m, hg, hnum, _, _, hnone, hb⟩ := hmade
  have hlist : s.scatterList = t.lives.scatterList ++ [t.lives.nextScatter] := congrArg Lives.scatterList hb.alive
  have hdelist := hb.relive { s with scatterList := s.scatterList.filter (· ≠ t.lives.nextScatter) }
    rfl rfl rfl rfl fun k hk => hb.cachesUnlisted k (mem_filter.mp hk).1
  have hlives : lives { s with scatterList := s.scatterList.filter (· ≠ t.lives.nextScatter) } =
      unlistedNew t.lives := by
    rw [unlistedNew, ← hlist, ← show lives s = enlisted (numbered t.lives) t.lives.nextScatter from hb.alive]
    rfl
  rw [hlives] at hdelist
  have hre := hdelist.recache mms0 mms1 s.cachedPages fun k hk => by
    rcases hold k hk with rfl | hk
    · refine ⟨Nat.lt_succ_self _, fun hin => ?_⟩
      have hne := (mem_filter.mp hin).2
      simp at hne
    have hnumbered := hb.cachesNumbered k
    have hunlisted := hb.cachesUnlisted k
    rw [hb.alive] at hnumbered hunlisted
    exact ⟨hnumbered hk, fun hin => Bool.noConfusion ((hunlisted (mem_filter.mp hin).1).symm.trans hk)⟩
  refine ⟨_, ?_, fun hc hzero => ?_, hre⟩
  · exact ⟨rfl, rfl, rfl, .single (.cache (pageChange_of_cacheOnly hg) hnum)⟩
  · have hcached : s.cachedPages = sumBy (lives s).cacheWeight s.scatters + t.cacheGap := hb.cached
    have hstand : s.scatters = t.scatters.map g ++ [m] := hb.stand
    have hsame : sumBy ((unlistedNew t.lives).recached mms0 mms1).cacheWeight s.scatters =
        sumBy (lives s).cacheWeight s.scatters := sumBy_congr fun b hbin => ?_
    · show s.cachedPages - sumBy ((unlistedNew t.lives).recached mms0 mms1).cacheWeight (t.scatters.map g ++ [m]) = 0
      rw [← hstand, hsame]
      omega
    · have hm : m ∈ s.scatters := hstand ▸ mem_append_right _ (mem_singleton.mpr rfl)
      by_cases hbn : b.num = m.num
      · have hbm : b = m := eq_of_lookup hb.scatterNums (lookup_of_mem hb.scatterNums hm) hbin hbn
        rw [Lives.cacheWeight, Lives.cacheWeight, hbm, hnone (Int.le_refl 0), ite_self, ite_self]
      have hiff : ((unlistedNew t.lives).recached mms0 mms1).isCache b.num = (lives s).isCache b.num := by
        rw [Bool.eq_iff_iff, Lives.isCache_recached,
          show lives s = enlisted (numbered t.lives) t.lives.nextScatter from hb.alive]
        constructor
        · intro hk
          exact (hold b.num hk).resolve_left fun heq => hbn (heq.trans hnum.symm)
        · exact hkept hc b.num
      rw [Lives.cacheWeight, Lives.cacheWeight, hiff]

theorem made_none_ends (hmade : Made t 0 none s) : Ends c t s := by
  obtain ⟨g, hg, hb | hb⟩ := hmade
  · exact .step (l := t.lives) (.pages (pageChange_of_cacheOnly hg)) hb
  · exact .step (.unfilled (pageChange_of_cacheOnly hg)) hb

theorem made_caches {made : Option Nat} (hmade : Made t 0 made s) :
    s.cacheSc0 = t.lives.cacheSc0 ∧ s.cacheSc1 = t.lives.cacheSc1 := by
  cases made with
  | none =>
    obtain ⟨g, _, hb | hb⟩ := hmade
    all_goals exact (caches_eq hb :)
  | some n =>
    obtain ⟨_, _, _, _, _, _, _, _, hb⟩ := hmade
    exact (caches_eq hb :)

theorem makeCache0_spec (h : Balanced t s) (hquiet : t.Quiet) (h0 : t.lives.cacheSc0 = none) :
    Triple (· = s) (makeCache env fun mms s => { s with cacheSc0 := mms }) fun _ s' =>
      Ends True t s' ∧ s'.cacheSc1 = t.lives.cacheSc1 := by
  refine .bind (R := fun made s1 => Made t 0 made s1) (by rintro _ rfl; exact allocNew_spec h hquiet 0) fun made => ?_
  cases made with
  | none => exact fun s1 hmade => ⟨made_none_ends hmade, (made_caches hmade).2⟩
  | some n =>
    intro s1 hmade
    obtain ⟨_, h1⟩ := made_caches hmade
    refine ⟨@newCache_ends _ _ _ n (some n) s1.cacheSc1 hmade (fun k hk => ?_) fun _ k hk => ?_, h1⟩
    · rcases hk with hk | hk
      · exact .inl (Option.some.inj hk).symm
      · exact .inr (isCache_iff.mpr (.inr (h1 ▸ hk)))
    · rcases isCache_iff.mp hk with hk | hk
      · rw [h0] at hk
        cases hk
      · exact .inr (h1.trans hk)

theorem makeCache1_spec (h : Balanced t s) (hquiet : t.Quiet) :
    Triple (· = s) (makeCache env fun mms s => { s with cacheSc1 := mms }) fun _ s' =>
      Ends (t.lives.cacheSc1 = none) t s' := by
  refine .bind (R := fun made s1 => Made t 0 made s1) (by rintro _ rfl; exact allocNew_spec h hquiet 0) fun made => ?_
  cases made with
  | none => exact fun s1 hmade => made_none_ends hmade
  | some n =>
    intro s1 hmade
    obtain ⟨h0, _⟩ := made_caches hmade
    refine @newCache_ends _ _ _ n s1.cacheSc0 (some n) hmade (fun k hk => ?_) fun hnone k hk => ?_
    · rcases hk with hk | hk
      · exact .inr (isCache_iff.mpr (.inl (h0 ▸ hk)))
      · exact .inl (Option.some.inj hk).symm
    · rcases isCache_iff.mp hk with hk | hk
      · exact .inl (h0.trans hk)
      · rw [hnone] at hk
        cases hk

theorem makeCaches_spec (h : Balanced t s) (hquiet : t.Quiet) (h0 : t.lives.cacheSc0 = none) :
    Triple (· = s) (makeCaches env) fun _ s' => Ends (t.lives.cacheSc1 = none) t s' := by
  refine .bind (makeCache0_spec h hquiet h0) fun _ s1 hs => ?_
  obtain ⟨⟨t1, hmoved, hgap, hb⟩, h1⟩ := hs
  have hsame : t1.lives.cacheSc1 = t.lives.cacheSc1 := (congrArg Lives.cacheSc1 hb.alive).symm.trans h1
  have hends := @makeCache1_spec env _ _ hb (hmoved.quiet hquiet) s1 rfl
  rw [hsame] at hends
  exact .trans hmoved (fun _ => hgap trivial) hends

/-- When the caches are made again, none is there. -/
def CachesApart (s : Smgt) : Prop := s.delayFreeOn > 0 → s.cacheSc0 = none → s.cacheSc1 = none

theorem arrange_spec (h : Balanced t s) (hquiet : t.Quiet) :
    Ends (CachesApart s.toSmgt) t (codecMmScatterScatterArrange env s).2 := by
  obtain ⟨h0, h1⟩ := caches_eq h
  rw [codecMmScatterScatterArrange, get_bind]
  split
  next hmake =>
    obtain ⟨t', hmoved, hgap, hb⟩ := makeCaches_spec h hquiet (h0 ▸ hmake.2) s rfl
    exact ⟨t', hmoved, fun hapart => hgap (h1 ▸ hapart hmake.1 hmake.2), hb⟩
  next =>
    have hdrop : Goes (CachesApart s.toSmgt) (do
        let now ← ask env
        if s.delayFreeOn ≤ 0 ∧ s.cacheSc0 ≠ none ∧ now > s.delayFreeTimeout then dropCaches env else pure ()) :=
      .bind (.ask env) fun _ => .ite dropCaches_goes (.pure _)
    exact hdrop t s hquiet h

/-! ## Scatters without a user -/

/-- What a scan of the list has found. -/
structure Scanned (scatters : List Scatter) (list : List Nat) (scan : ScatterScan) : Prop where
  toFree : ∀ m, scan.toFree = some m → m.userCnt = 0 ∧ m.num ∈ list ∧ lookup Scatter.num m.num scatters = some m
  lessPage : ∀ n, scan.lessPage = some n → n ∈ list ∧
    ∃ m, lookup Scatter.num n scatters = some m ∧ m.pageUsed < m.pageCnt

theorem scanScatters_spec {scatters : List Scatter} {list rest : List Nat} {toFree : Option Scatter} {cnt : Nat}
    (hsub : ∀ n ∈ rest, n ∈ list)
    (hfree : ∀ m, toFree = some m → m.userCnt = 0 ∧ m.num ∈ list ∧ lookup Scatter.num m.num scatters = some m) :
    Scanned scatters list (scanScatters scatters rest toFree cnt) := by
  induction rest generalizing toFree cnt with
  | nil => exact ⟨hfree, nofun⟩
  | cons num rest ih =>
    have hrest : ∀ n ∈ rest, n ∈ list := fun n hn => hsub n (.tail _ hn)
    rw [scanScatters]
    cases hm : lookup Scatter.num num scatters with
    | none => exact ih hrest hfree
    | some m =>
      dsimp only
      have hnext : ∀ f, (if m.userCnt = 0 ∧ (toFree.all fun f => m.tofreeJiffies < f.tofreeJiffies) = true then some m
          else toFree) = some f → f.userCnt = 0 ∧ f.num ∈ list ∧ lookup Scatter.num f.num scatters = some f := by
        intro f hf
        split at hf
        next hidle =>
          cases hf
          obtain rfl := key_of_lookup hm
          exact ⟨hidle.1, hsub _ mem_cons_self, hm⟩
        next => exact hfree f hf
      split
      next hless => exact ⟨hnext, fun n hn => Option.some.inj hn ▸ ⟨hsub _ mem_cons_self, m, hm, hless⟩⟩
      next => exact ih hrest hnext

def gone (m : Scatter) : Scatter := { m with userCnt := m.userCnt - 100000 }

theorem without_delisted (l : Lives) (n : Nat) :
    without { l with scatterList := l.scatterList.filter (· ≠ n) } n false = without l n false := by
  simp only [without, unlinked, filter_filter, Bool.and_self]

def delisted (n : Nat) (s : Sc) : Sc :=
  { s with scatters := update Scatter.num n gone s.scatters, scatterList := s.scatterList.filter (· ≠ n) }

/-- A scatter of the list without a user goes. -/
theorem clearScatter_spec {n : Nat} {m : Scatter} (h : Balanced t s) (hquiet : t.Quiet)
    (hm : lookup num n t.scatters = some m) (hidle : m.userCnt = 0) :
    Balanced (live t (without t.lives n false) (remove num n t.scatters)) (clearScatter n s).2 := by
  have htouch := touch_balanced (f := gone) h n (fun _ => rfl) fun _ _ hb => hb.frame rfl rfl rfl rfl
  have hrelive := htouch.relive (delisted n s) rfl rfl rfl rfl fun k hk => h.cachesUnlisted k (mem_filter.mp hk).1
  have hlives : lives (delisted n s) = { t.lives with scatterList := t.lives.scatterList.filter (· ≠ n) } := by
    rw [← h.alive]
    rfl
  rw [hlives] at hrelive
  show Balanced _ (codecMmScatterFreeOnNouserExt n false (delisted n s)).2
  generalize delisted n s = s' at hrelive ⊢
  have hstand : s'.scatters = update num n gone t.scatters := hrelive.stand
  have hnums : (t.scatters.map Scatter.num).Nodup := h.stand ▸ h.scatterNums
  have hlook : lookup num (gone m).num s'.scatters = some (gone m) := by
    rw [hstand, show (gone m).num = n from key_of_lookup (a := m) hm]
    exact lookup_update_self (show m.num = n from key_of_lookup hm) hnums hm
  have huser : ¬ (gone m).userCnt > 0 := by
    show ¬ m.userCnt - 100000 > 0
    rw [hidle]
    decide
  have hfree := freeScatter_spec hrelive hquiet hlook false
  obtain rfl : m.num = n := key_of_lookup hm
  have hrun : codecMmScatterFreeOnNouserExt m.num false s' = freeScatter (gone m) false s' := by
    rw [codecMmScatterFreeOnNouserExt, get_bind, show lookup num m.num s'.scatters = some (gone m) from hlook]
    exact congrFun (if_neg huser) s'
  rw [hrun, ← without_delisted, ← remove_update (f := gone) (by exact fun _ hb => hb)]
  exact hfree

theorem clearLess_goes (toFree lessPage : Option Nat) : Goes c (clearLess toFree lessPage) := by
  cases lessPage with
  | none => exact .pure _
  | some n => exact .ite (.pure _) (.bind (freeTail_goes n 0 1) fun _ => .pure _)

theorem chosen_some {scan : ScatterScan} {delayFreeOn : Int} {now n : Nat} {force : Bool}
    (h : scan.chosen delayFreeOn now force = some n) : ∃ m, scan.toFree = some m ∧ m.num = n := by
  rw [ScatterScan.chosen, Option.map_eq_some_iff] at h
  obtain ⟨m, hm, hnum⟩ := h
  exact ⟨m, (Option.filter_eq_some_iff.mp hm).1, hnum⟩

theorem scan_of_balanced (h : Balanced t s) :
    Scanned t.scatters t.lives.scatterList (scanScatters s.scatters s.scatterList none 0) := by
  rw [h.same,
    show s.scatterList = t.lives.scatterList from congrArg Lives.scatterList h.alive]
  exact scanScatters_spec (fun _ hn => hn) nofun

theorem clearChosen_ends {scan : ScatterScan} {chosen : Option Nat} (h : Balanced t s) (hquiet : t.Quiet)
    (hscan : Scanned t.scatters t.lives.scatterList scan)
    (hchosen : ∀ n, chosen = some n → ∃ m, scan.toFree = some m ∧ m.num = n) :
    Ends c t (clearChosen scan.lessPage chosen s).2 := by
  cases chosen with
  | none => exact clearLess_goes none scan.lessPage t s hquiet h
  | some n =>
    obtain ⟨m, hm, rfl⟩ := hchosen n rfl
    obtain ⟨hidle, hin, hlook⟩ := hscan.toFree m hm
    exact .trans (.single (.clear hlook hidle hin)) (fun _ h => h)
      (clearLess_goes (some m.num) scan.lessPage _ _ hquiet (clearScatter_spec h hquiet hlook hidle))

theorem scatterClear_goes (force : Bool) : Goes c (codecMmScatterScatterClear env force) := by
  intro t s hquiet h
  have hask : Balanced t (ask env s).2 := ask_keeps s h
  exact clearChosen_ends hask hquiet (scan_of_balanced hask) fun n hn => chosen_some hn

theorem clearLoop_goes (retries : Nat) : Goes c (clearLoop env retries) := by
  induction retries with
  | zero => exact .pure _
  | succ retries ih =>
    exact .bind (scatterClear_goes true) fun _ => .bind .get fun _ => .ite ih (.pure _)

theorem freeAllIgnorecache_goes : Goes c (codecMmScatterFreeAllIgnorecacheIn env) :=
  .bind dropCachesLoop_goes fun _ => .bind (clearLoop_goes 1001) fun _ =>
    .bind freeAllFreeSlots_goes fun _ => .bind .get fun _ => .pure _

/-! ## Filling the caches -/

theorem wantPages_goes (n : Nat) {want : Int} (hwant : 0 ≤ want) : Goes c (codecMmScatterAllocWantPagesIn env n want) := by
  intro t s hquiet h
  rcases wantPages_spec h n want with ⟨_, hs⟩ | ⟨_, g, _, hg, hb⟩
  · rw [hs]
    exact .same h
  · exact .step (l := t.lives) (.pages (hg hwant)) hb

theorem stopForceCache_books (now : Nat) (s : Sc) : books (stopForceCache now s) = books s := by
  rw [stopForceCache]
  split <;> rfl

theorem growCache_ends {m : Scatter} (h : Balanced t s) (hquiet : t.Quiet) (hm : m ∈ s.scatters) :
    Ends c t (growCache env m s).2 := by
  have hcnt := (h.shaped m hm).cnt
  rw [growCache, get_bind]
  split
  next hmore =>
    have hgoes : Goes c (do
        let ret ← codecMmScatterAllocWantPagesIn env m.num (cacheNeed s m)
        let now ← ask env
        modify fun s => if ret = 0 ∧ s.cachedPages ≥ s.forceCachePageCnt then stopForceCache now s else s) := by
      refine .bind (wantPages_goes m.num (by omega)) fun ret => .bind (.ask env) fun now => ?_
      refine .frame fun s => ?_
      split
      · exact stopForceCache_books now s
      · rfl
    exact hgoes t s hquiet h
  next => exact .same h

theorem onNextCache_ends {f : Scatter → ScM Unit} (h : Balanced t s)
    (hf : ∀ m ∈ s.scatters, Ends c t (f m s).2) : Ends c t (onNextCache f s).2 := by
  rw [onNextCache, get_bind]
  cases hm : (codecMmGetNextCacheScatter s.toSmgt none false).bind fun mms => lookup num mms s.scatters with
  | none => exact .same h
  | some m =>
    obtain ⟨_, _, hlook⟩ := Option.bind_eq_some_iff.mp hm
    exact hf m (mem_of_lookup hlook)

theorem cacheManage_goes : Goes c (codecMmScatterCacheManage env) := by
  refine .bind (.ask env) fun now => ?_
  intro t s hquiet h
  rw [get_bind]
  have hslots : ∀ t s, t.Quiet → Balanced t s → Ends c t (codecMmFreeAllFreeSlotsIn s).2 :=
    freeAllFreeSlots_goes
  split
  next =>
    split
    next => exact Goes.frame (fun s => stopForceCache_books now s) t s hquiet h
    next =>
      split
      next => exact onNextCache_ends h fun m hm => growCache_ends h hquiet hm
      next =>
        split
        next =>
          have htrim : Ends c t (onNextCache (fun m => do
              let _ ← codecMmScatterLessPages m.num 256
              pure ()) s).2 := onNextCache_ends h fun m _ => freeTail_goes m.num 256 2 t s hquiet h
          exact .go hquiet htrim fun t' hquiet' hb => hslots t' _ hquiet' hb
        next => exact .same h
  next =>
    split
    next => exact hslots t s hquiet h
    next => exact .same h

theorem monitor_spec (h : Balanced t s) (hquiet : t.Quiet) :
    Ends (CachesApart s.toSmgt) t (codecMmScatterMonitor env s).2 := by
  have hconfig : Balanced t (codecMmScatterUpdateConfig env s) := h.frame rfl
  have harrange : Ends (CachesApart s.toSmgt) t
    (codecMmScatterScatterArrange env (codecMmScatterUpdateConfig env s)).2 := arrange_spec hconfig hquiet
  have hrest : Goes (CachesApart s.toSmgt) (do
      codecMmScatterScatterClear env false
      codecMmScatterCacheManage env) := .bind (scatterClear_goes false) fun _ => cacheManage_goes
  exact .go hquiet harrange fun t' hquiet' hb => hrest t' _ hquiet' hb

end Ops

end AmlogicV901d.Guarantees.ScatterMonitor
