import AmlogicV901d.Guarantees.ScatterLedger

/-!
# Pages in and out

One specification for each function that moves pages: what it takes is in flight, what it
gives back is gone, and the ledger stays balanced, whatever the allocators answer.
-/
namespace AmlogicV901d.Guarantees.ScatterPages
open Source.CodecMmScatter Lib.StateTriple Lib.KeyedList ScatterShapes ScatterLedger List

variable {addr n num : Nat} {pages more : List Nat} {slot : Slot}

section Slots
variable {env : ScEnv} {t : Terms}

theorem ask_keeps : Keeps (Balanced t) (ask env) := fun _ h => h

theorem lend_spec (n : Nat) : Triple (Balanced t) (lend env n) fun addr s =>
    addr = 0 ∧ Balanced t s ∨ Range addr n ∧ Balanced (t.lent addr n) s := by
  refine .bind ask_keeps fun frame => .bind .get fun now => .ite (fun hs => ?_) fun _ s h => ?_
  · rintro s ⟨rfl, h⟩
    exact .inr ⟨(suitable_range hs).1, h.lend hs⟩
  · exact .inl ⟨rfl, h.2⟩

/-- A range that is to become a slot. -/
def Got (t : Terms) : Option (Nat × Nat) → Sc → Prop
  | none, s => Balanced t s
  | some (addr, n), s => Range addr n ∧ Balanced (t.lent addr n) s

/-- A slot that can be taken pages from. -/
def Fresh (num : Nat) (s : Sc) : Prop :=
  ∃ slot, lookup Slot.num num s.slots = some slot ∧ slot.onAllocFree = 0 ∧ slot.allocedPageNum < slot.pageNum

section Lent
variable (ho : ∀ f, 0 ≤ t.others f)
include ho

theorem withPagemap_spec (hr : Range addr n) : Triple (Balanced (t.lent addr n)) (withPagemap env addr n) (Got t) :=
  .bind ask_keeps fun _ => .ite (fun _ _ h => h.giveBack ho) fun _ _ h => ⟨hr, h⟩

theorem lendOrNone_spec {x : ScM (Option (Nat × Nat))} (hx : Triple (Balanced t) x (Got t)) :
    Triple (fun s => addr = 0 ∧ Balanced t s ∨ Range addr n ∧ Balanced (t.lent addr n) s)
      (if addr = 0 then x else withPagemap env addr n) (Got t) := by
  refine .ite (fun hz s h => ?_) fun hne s h => ?_
  · rcases h with ⟨_, h⟩ | ⟨hr, _⟩
    · exact hx s h
    · exact absurd hz (Nat.ne_of_gt hr.above)
  · rcases h with ⟨hz, _⟩ | ⟨hr, h⟩
    · exact absurd hz hne
    · exact withPagemap_spec ho hr s h

theorem lendMapped_spec (n : Nat) : Triple (Balanced t) (lendMapped env n) (Got t) :=
  .bind (lend_spec n) fun _ => lendOrNone_spec ho fun _ h => h

theorem slotFromCodecMm_spec (size : Int) (flags : Nat) :
    Triple (Balanced t) (slotFromCodecMm env size flags) (Got t) := by
  refine Triple.bind Keeps.get fun now => Triple.ite (fun _ _ h => h) fun _ => ?_
  refine Triple.bind ask_keeps fun _ => Triple.ite (fun _ => ?_) fun _ _ h => h
  exact .bind ask_keeps fun _ => lendMapped_spec ho _

theorem slotFromSysLoop_spec (rounds : Nat) (trySize : Int) :
    Triple (Balanced t) (slotFromSysLoop env rounds trySize) (Got t) := by
  induction rounds generalizing trySize with
  | zero => exact fun _ h => h
  | succ rounds ih =>
    refine .bind (lend_spec _) fun _ => lendOrNone_spec ho ?_
    refine Triple.bind Keeps.get fun now => Triple.ite (fun _ => ?_) fun _ _ h => h
    exact Triple.bind (Keeps.modify fun _ h => h) fun _ => ih _

theorem slotFromSys_spec (size : Int) : Triple (Balanced t) (slotFromSys env size) (Got t) := by
  refine Triple.bind Keeps.get fun now => Triple.ite (fun _ _ h => h) fun _ => Triple.ite (fun _ _ h => h) fun _ => ?_
  exact Triple.ite (fun _ _ h => h) fun _ => slotFromSysLoop_spec ho _ _

theorem setSlotInHash_spec (fromType : SlotFrom) (hr : Range addr n) :
    Triple (Balanced (t.lent addr n)) (codecMmSetSlotInHash fromType addr n) fun num s =>
      Balanced t s ∧ Fresh num s := by
  intro s h
  have hnew : ∀ b ∈ s.slots, b.num ≠ s.nextSlot := fun b hb => Nat.ne_of_lt (h.slotNumbered b hb)
  have hfresh : ∀ slot : Slot, slot.num = s.nextSlot → lookup Slot.num s.nextSlot (s.slots ++ [slot]) = some slot := by
    intro slot hnum
    rw [← hnum]
    exact lookup_append_new fun b hb => hnum ▸ hnew b hb
  have hn : (0 : Int) < n := Int.natCast_pos.mpr hr.nonempty
  cases fromType with
  | codecMm | getFreePages =>
    exact ⟨h.addSlot ho rfl rfl rfl (newSlot_mapped hr) rfl rfl, _, hfresh _ rfl, rfl, hn⟩

theorem slotFromSysIfNone_spec (size : Int) (got : Option (Nat × Nat)) :
    Triple (Got t got) (slotFromSysIfNone env size got) fun num s =>
      Balanced t s ∧ ∀ k, num = some k → Fresh k s := by
  have hdone : ∀ fromType addr n, Triple (Got t (some (addr, n))) (do
      let num ← codecMmSetSlotInHash fromType addr n
      pure (some num)) fun num s => Balanced t s ∧ ∀ k, num = some k → Fresh k s := by
    intro fromType addr n s h
    obtain ⟨hb, hfresh⟩ := setSlotInHash_spec ho fromType h.1 s h.2
    exact ⟨hb, fun k hk => Option.some.inj hk ▸ hfresh⟩
  cases got with
  | some got => exact hdone _ _ _
  | none =>
    refine .bind (slotFromSys_spec ho size) fun got => ?_
    cases got with
    | none => exact fun _ h => ⟨h, nofun⟩
    | some got => exact hdone _ _ _

end Lent

theorem slotAlloc_spec (size : Int) (flags : Nat) : Triple (Balanced t) (codecMmSlotAlloc env size flags)
    fun num s => Balanced t s ∧ ∀ k, num = some k → Fresh k s := by
  have hnone : Triple (Balanced t) (pure none : ScM (Option Nat)) fun num s =>
      Balanced t s ∧ ∀ k, num = some k → Fresh k s := fun _ h => ⟨h, nofun⟩
  refine .assume (fun _ h => h.othersNonneg) fun ho => .ite (fun _ => hnone) fun _ => ?_
  refine .bind ask_keeps fun _ => .ite (fun _ => hnone) fun _ => ?_
  exact .bind (slotFromCodecMm_spec ho size flags) fun got => slotFromSysIfNone_spec ho size got

theorem slotAllocTwice_spec : Triple (Balanced t) (slotAllocTwice env) fun num s =>
    Balanced t s ∧ ∀ k, num = some k → Fresh k s := by
  refine .bind (slotAlloc_spec 0 0) fun slot => ?_
  cases slot with
  | some num => exact fun _ h => h
  | none => exact (Triple.bind Keeps.get fun _ => slotAlloc_spec _ 0).imp (fun _ h => h.1) fun _ _ h => h

/-! ## Pages from slots -/

/-- Pages in flight after an operation. -/
structure Flying (t : Terms) (pages : List Nat) (num : Nat) (s : Sc) : Prop where
  balanced : Balanced (t.plus pages) s
  filled : 0 ∉ pages
  few : pages.length ≤ num

variable {s : Sc}

theorem Flying.none (h : Balanced t s) : Flying t [] num s :=
  ⟨by rwa [Terms.plus_nil], not_mem_nil, Nat.zero_le _⟩

/-- Pages in flight that the counter of pages in use has. -/
structure Supplied (t : Terms) (pages : List Nat) (num : Nat) (s : Sc) : Prop where
  balanced : Balanced ((t.plus pages).ahead pages.length) s
  filled : 0 ∉ pages
  few : pages.length ≤ num

theorem Supplied.none (h : Balanced t s) : Supplied t [] num s :=
  ⟨by simpa using h, not_mem_nil, Nat.zero_le _⟩

theorem Flying.append {s s' : Sc} (h : Flying t pages num s)
    (h' : Flying (t.plus pages) more (num - pages.length) s') : Flying t (pages ++ more) num s' where
  balanced := Terms.plus_append t pages more ▸ h'.balanced
  filled := fun hin => (mem_append.mp hin).elim h.filled h'.filled
  few := by
    have := h.few
    have := h'.few
    rw [length_append]
    omega

theorem takeSlot_balanced (h : Balanced t s) {slot' : Slot} (hslot : HasSlot s slot)
    (htaken : Taken slot pages slot') (hidle : slot'.onAllocFree = 0) :
    Balanced (t.plus pages) (relistSlot slot' (putSlot slot' { s with freeList := s.freeList.filter (· ≠ slot'.num) })) := by
  refine .relist ?_ (mem_update_self (mem_of_lookup hslot) htaken.num.symm)
  refine .putSlot (h.delist slot'.num) (htaken.num.symm ▸ hslot) htaken.phyAddr htaken.pageNum htaken.mapped
    hidle (fun x _ => ?_) (fun f => ?_) fun hin => ?_
  · have hids := htaken.ids x
    show t.fly x + pages.count x = t.fly x + ((slotIds slot').count x : Int) - ((slotIds slot).count x : Int)
    omega
  · rw [count_onePage htaken.slotPages f]
    exact Int.add_zero _
  · have hne := (mem_filter.mp hin).2
    simp at hne

theorem taken_guarded (h : Mapped slot) (hidle : slot.onAllocFree = 0) (neednum : Nat) :
    ∃ pages slot', codecMmSlotAllocPages { slot with onAllocFree := slot.onAllocFree + 1 } neednum = (pages, slot') ∧
      Taken slot pages { slot' with onAllocFree := slot'.onAllocFree - 1 } ∧ slot'.onAllocFree - 1 = 0 ∧
      pages.length ≤ neednum := by
  have hguarded : Mapped { slot with onAllocFree := slot.onAllocFree + 1 } := { h with }
  obtain ⟨htaken, hlen⟩ := slotAllocPages_taken hguarded neednum
  generalize codecMmSlotAllocPages { slot with onAllocFree := slot.onAllocFree + 1 } neednum = got at htaken hlen
  have hback := htaken.onAllocFree
  refine ⟨got.1, got.2, rfl, { htaken with mapped := { htaken.mapped with }, onAllocFree := ?_ }, ?_, hlen⟩
  · rw [hback]
    exact Int.add_sub_cancel _ _
  · rw [hback, hidle]
    rfl

theorem takePages_spec (h : Balanced t s) (hslot : HasSlot s slot) (neednum : Nat) :
    Flying t (takePages slot neednum s).1 neednum (takePages slot neednum s).2 := by
  obtain ⟨hm, hidle⟩ := h.mapped slot (mem_of_lookup hslot)
  obtain ⟨pages, slot', heq, htaken, hback, hlen⟩ := taken_guarded hm hidle neednum
  rw [takePages, heq]
  exact ⟨takeSlot_balanced h hslot htaken hback, htaken.filled, hlen⟩

theorem chooseSlot_lookup {fresh : Option Nat} (h : chooseSlot s fresh = some slot) : HasSlot s slot := by
  have hof : ∀ {num : Option Nat} {slot : Slot},
      (num.bind fun num => lookup Slot.num num s.slots).filter (·.onAllocFree = 0) = some slot → HasSlot s slot := by
    intro num slot hf
    obtain ⟨num, rfl, hl⟩ := Option.bind_eq_some_iff.mp (Option.filter_eq_some_iff.mp hf).1
    rw [HasSlot, key_of_lookup hl]
    exact hl
  rw [chooseSlot] at h
  split at h
  next hfresh => exact Option.some.inj h ▸ hof hfresh
  next => exact hof h

theorem takeFrom_spec (neednum : Nat) (fresh : Option Nat) : Triple (Balanced t) (takeFrom neednum fresh)
    fun got s => Flying t (got.getD []) neednum s := by
  intro s h
  rw [takeFrom, get_bind]
  cases hc : chooseSlot s fresh with
  | none => exact .none h
  | some slot => exact takePages_spec h (chooseSlot_lookup hc) neednum

theorem slotRound_spec (neednum : Nat) : Triple (Balanced t) (slotRound env neednum) fun got s =>
    Flying t (got.getD []) neednum s := by
  refine Triple.bind Keeps.get fun now => Triple.ite (fun _ => ?_) fun _ => takeFrom_spec neednum none
  refine Triple.bind slotAllocTwice_spec fun slot => ?_
  cases slot with
  | none => exact fun _ h => .none h.1
  | some num => exact fun s h => takeFrom_spec neednum (some num) s h.1

theorem fromSlotLoop_spec (rounds neednum : Nat) : Triple (Balanced t) (fromSlotLoop env rounds neednum)
    fun pages s => Flying t pages neednum s := by
  induction rounds generalizing neednum t with
  | zero => exact fun _ h => .none h
  | succ rounds ih =>
    refine .bind (slotRound_spec neednum) fun got => ?_
    cases got with
    | none => exact fun _ h => h
    | some pages =>
      refine .ite (fun _ s h => ?_) fun _ _ h => h
      exact .append h (ih (neednum - pages.length) s h.balanced)

theorem allocFromSlot_spec (num : Nat) : Triple (Balanced t) (codecMmPageAllocFromSlot env num)
    fun pages s => Supplied t pages num s := by
  refine Triple.bind ask_keeps fun _ => Triple.bind Keeps.get fun now =>
    Triple.ite (fun _ _ h => Supplied.none h) fun _ => ?_
  refine Triple.bind (fromSlotLoop_spec num num) fun pages s h => ?_
  exact ⟨h.balanced.countAlloced pages.length, h.filled, h.few⟩

/-! ## Single pages -/

theorem onePagesLoop_spec (neednum : Nat) : Triple (Balanced t) (onePagesLoop env neednum)
    fun pages s => Flying t pages neednum s := by
  induction neednum generalizing t with
  | zero => exact fun _ h => .none h
  | succ neednum ih =>
    refine .assume (fun _ h => h.othersNonneg) fun ho => .bind (lend_spec 1) fun addr =>
      .ite (fun hz s h => ?_) fun hne s h => ?_
    · rcases h with ⟨_, h⟩ | ⟨hr, _⟩
      · exact .none h
      · exact absurd hz (Nat.ne_of_gt hr.above)
    · rcases h with ⟨hz, _⟩ | ⟨hr, h⟩
      · exact absurd hz hne
      have hone := h.takeOne ho hr
      have hfilled : 0 ∉ [addr2page addr onePageSid] := by
        rw [mem_singleton, addr2page_one hr, onePage]
        omega
      exact .append ⟨hone, hfilled, Nat.succ_le_succ (Nat.zero_le _)⟩ (ih s hone)

theorem allocFromOnePages_spec (num : Nat) : Triple (Balanced t) (codecMmPageAllocFromOnePages env num)
    fun pages s => Supplied t pages num s := by
  refine .bind (onePagesLoop_spec num) fun pages s h => ?_
  exact ⟨(h.balanced.countAlloced pages.length).countOnePages pages.length, h.filled, h.few⟩

end Slots

/-! ## Pages from the caches -/

/-- A change to the pages of caches. -/
structure CacheOnly (l : Lives) (g : Scatter → Scatter) : Prop where
  num : ∀ m, (g m).num = m.num
  userCnt : ∀ m, (g m).userCnt = m.userCnt
  pageUsed : ∀ m, (g m).pageUsed = m.pageUsed
  rest : ∀ m, l.isCache m.num = false → g m = m

theorem CacheOnly.id (l : Lives) : CacheOnly l fun m => m :=
  ⟨fun _ => rfl, fun _ => rfl, fun _ => rfl, fun _ _ => rfl⟩

theorem CacheOnly.comp {l : Lives} {g g' : Scatter → Scatter} (h : CacheOnly l g) (h' : CacheOnly l g') :
    CacheOnly l fun m => g' (g m) where
  num m := (h'.num _).trans (h.num m)
  userCnt m := (h'.userCnt _).trans (h.userCnt m)
  pageUsed m := (h'.pageUsed _).trans (h.pageUsed m)
  rest m hm := by
    rw [h'.rest (g m) (by rw [h.num]; exact hm), h.rest m hm]

theorem CacheOnly.lookup_eq {l : Lives} {g : Scatter → Scatter} (h : CacheOnly l g) {m : Scatter}
    {scatters : List Scatter} (hn : l.isCache n = false) (hm : lookup Scatter.num n scatters = some m) :
    lookup Scatter.num n (scatters.map g) = some m := by
  rw [lookup_map h.num, hm, Option.map_some, h.rest m (key_of_lookup hm ▸ hn)]

section Caches
variable {env : ScEnv} {t : Terms} {s : Sc}

theorem isCacheSc_eq (h : Balanced t s) (n : Nat) : s.isCacheSc n = t.lives.isCache n := by
  rw [← h.alive]
  rfl

/-- Pages from sources of which only the caches are scatters. -/
def FromCaches (t : Terms) (pages : List Nat) (num : Nat) (s : Sc) : Prop :=
  ∃ g, CacheOnly t.lives g ∧ Supplied (t.on (t.scatters.map g)) pages num s

theorem Terms.on_self (t : Terms) : t.on (t.scatters.map fun m => m) = t := by
  rw [Terms.on, map_id']

theorem FromCaches.of_supplied (h : Supplied t pages num s) : FromCaches t pages num s :=
  ⟨fun m => m, CacheOnly.id _, (Terms.on_self t).symm ▸ h⟩

theorem Supplied.append (hfilled : 0 ∉ pages) (hfew : pages.length ≤ num)
    (h : Supplied ((t.plus pages).ahead pages.length) more (num - pages.length) s) :
    Supplied t (pages ++ more) num s where
  balanced := by
    have heq : ((((t.plus pages).ahead pages.length).plus more).ahead more.length) =
        (t.plus (pages ++ more)).ahead (pages ++ more).length := by
      simp only [Terms.plus, Terms.ahead, count_append, length_append, Int.natCast_add, Int.add_assoc]
    exact heq ▸ h.balanced
  filled := fun hin => (mem_append.mp hin).elim hfilled h.filled
  few := by
    have := h.few
    rw [length_append]
    omega

theorem FromCaches.append {s' : Sc} (h : FromCaches t pages num s)
    (h' : ∀ t', Balanced t' s → FromCaches t' more (num - pages.length) s') : FromCaches t (pages ++ more) num s' := by
  obtain ⟨g, hg, hs⟩ := h
  obtain ⟨g', hg', hs'⟩ := h' (((t.on (t.scatters.map g)).plus pages).ahead pages.length) hs.balanced
  refine ⟨fun m => g' (g m), hg.comp hg', .append hs.filled hs.few ?_⟩
  have hmap : (t.scatters.map g).map g' = t.scatters.map fun m => g' (g m) := map_map
  rw [← hmap]
  exact hs'

theorem fromFreeScatter_run {m : Scatter} (hm : lookup Scatter.num m.num s.scatters = some m) (num : Nat)
    {front back : List Nat} (hheld : Holds m (front ++ back)) (hback : back.length = (min m.pageCnt num).toNat) :
    codecMmPageAllocFromFreeScatter (some m.num) num s = (back, { s with
      scatters := update Scatter.num m.num (·.pop front.length back.length) s.scatters
      cachedPages := s.cachedPages - back.length }) := by
  have hfront : m.pageTail - back.length + 1 = front.length := by
    rw [hheld.tail, length_append]
    omega
  rw [codecMmPageAllocFromFreeScatter, get_bind, Option.bind_some, hm]
  dsimp only
  rw [← hback, hfront, hheld.pagesAt]
  rfl

theorem fromFreeScatter_spec (h : Balanced t s) {src : Option Nat} (hsrc : ∀ n, src = some n → s.isCacheSc n = true)
    (num : Nat) : FromCaches t (codecMmPageAllocFromFreeScatter src num s).1 num
      (codecMmPageAllocFromFreeScatter src num s).2 := by
  cases hm : src.bind fun mms => lookup Scatter.num mms s.scatters with
  | none =>
    rw [codecMmPageAllocFromFreeScatter, get_bind, hm]
    exact .of_supplied (.none h)
  | some m =>
    obtain ⟨n, rfl, hl⟩ := Option.bind_eq_some_iff.mp hm
    obtain rfl := key_of_lookup hl
    have hcache := hsrc m.num rfl
    have hheld := h.shaped m (mem_of_lookup hl)
    have hcnt := hheld.cnt
    -- the pages split where the ones that are taken begin
    obtain ⟨front, back, hsplit, hback⟩ : ∃ front back, front ++ back = heldPages m ∧
        back.length = (min m.pageCnt num).toNat := by
      refine ⟨_, _, take_append_drop ((heldPages m).length - (min m.pageCnt num).toNat) _, ?_⟩
      rw [length_drop]
      omega
    rw [← hsplit] at hheld
    rw [fromFreeScatter_run hl num hheld hback]
    have hpop := (h.popScatter hl hheld).countCached (-back.length)
    rw [if_pos hcache] at hpop
    refine ⟨fun b => if b.num = m.num then b.pop front.length back.length else b, ⟨fun b => ?_, fun b => ?_,
      fun b => ?_, fun b hb => if_neg fun heq => ?_⟩, ?_, fun hin => hheld.filled (mem_append_right _ hin), ?_⟩
    · split <;> rfl
    · split <;> rfl
    · split <;> rfl
    · rw [heq, ← isCacheSc_eq h, hcache] at hb
      exact nomatch hb
    · have hterms : ((((t.plus back).ahead back.length).cacheAhead back.length).on
          (update Scatter.num m.num (·.pop front.length back.length) s.scatters)).cacheAhead (-back.length) =
          ((t.on (t.scatters.map fun b => if b.num = m.num then b.pop front.length back.length else b)).plus
            back).ahead back.length := by
        simp only [Terms.plus, Terms.ahead, Terms.cacheAhead, Terms.on, Int.add_neg_cancel_right, Terms.mk.injEq,
          true_and]
        rw [← h.stand]
        rfl
      exact hterms ▸ hpop
    · show back.length ≤ num
      omega

theorem nextCache_isCache {cur : Option Nat} {more : Bool}
    (h : codecMmGetNextCacheScatter s.toSmgt cur more = some n) : s.isCacheSc n = true := by
  have hor : s.cacheSc0 = some n ∨ s.cacheSc1 = some n := by
    rw [codecMmGetNextCacheScatter.eq_def] at h
    cases cur with
    | some c =>
      dsimp only at h
      split at h
      · exact .inr h
      · exact .inl h
    | none =>
      dsimp only at h
      split at h
      next h0 h1 =>
        rw [h0, h1]
        split at h <;> split at h
        · exact .inl h
        · exact .inr h
        · exact .inr h
        · exact .inl h
      next h0 _ => exact .inl (h0.trans h)
      next => exact .inr h
  rw [Smgt.isCacheSc, Bool.or_eq_true, beq_iff_eq, beq_iff_eq]
  exact hor

theorem fromCacheScatter_spec (num : Nat) : Triple (Balanced t) (codecMmPageAllocFromCacheScatter num)
    fun pages s => FromCaches t pages num s := by
  refine .bind .get fun now => .bind (R := fun pages s => FromCaches t pages num s) ?_ fun pages => ?_
  · rintro s ⟨rfl, h⟩
    exact fromFreeScatter_spec h (fun n hn => nextCache_isCache hn) num
  · refine .ite (fun _ s1 h1 => ?_) fun _ _ h1 => h1
    refine .append h1 fun t' h' => ?_
    exact fromFreeScatter_spec h' (fun n hn => nextCache_isCache hn) _

theorem pageSource_spec (source : PageSource) (num : Nat) : Triple (Balanced t) (source.ask env num)
    fun pages s => FromCaches t pages num s := by
  cases source with
  | scatter => exact fromCacheScatter_spec num
  | slot => exact (allocFromSlot_spec num).imp (fun _ h => h) fun _ _ h => .of_supplied h
  | onePages => exact (allocFromOnePages_spec num).imp (fun _ h => h) fun _ _ h => .of_supplied h

theorem allocAllLoop_spec (rounds : Nat) (source : PageSource) (num : Nat) :
    Triple (Balanced t) (allocAllLoop env rounds source num) fun pages s => FromCaches t pages num s := by
  induction rounds generalizing source num t with
  | zero => exact fun _ h => .of_supplied (.none h)
  | succ rounds ih =>
    refine .ite (fun _ _ h => .of_supplied (.none h)) fun _ => ?_
    refine .bind (pageSource_spec source num) fun pages => .ite (fun hnil s1 h1 => ?_) fun _ s1 h1 => ?_
    · obtain rfl := length_eq_zero_iff.mp hnil
      rw [get_bind]
      cases source.next s1 with
      | none => exact h1
      | some source => exact .append h1 fun t' h' => ih source num s1 h'
    · exact .append h1 fun t' h' => ih source (num - pages.length) s1 h'

/-- Without the caches no scatter changes. -/
theorem allocAllLoop_noCache (rounds : Nat) {source : PageSource} (hsource : source ≠ .scatter) (num : Nat) :
    Triple (Balanced t) (allocAllLoop env rounds source num) fun pages s => Supplied t pages num s := by
  induction rounds generalizing source num t with
  | zero => exact fun _ h => .none h
  | succ rounds ih =>
    have hask : Triple (Balanced t) (source.ask env num) fun pages s => Supplied t pages num s := by
      cases source with
      | scatter => exact absurd rfl hsource
      | slot => exact allocFromSlot_spec num
      | onePages => exact allocFromOnePages_spec num
    refine .ite (fun _ _ h => .none h) fun _ => ?_
    refine .bind hask fun pages => .ite (fun hnil s1 h1 => ?_) fun _ s1 h1 => ?_
    · obtain rfl := length_eq_zero_iff.mp hnil
      rw [get_bind]
      cases hnext : source.next s1 with
      | none => exact h1
      | some next =>
        refine .append h1.filled h1.few (ih (fun heq => ?_) num s1 h1.balanced)
        rw [PageSource.next.eq_def] at hnext
        cases source with
        | scatter => exact hsource rfl
        | slot =>
          dsimp only at hnext
          split at hnext
          · rw [heq] at hnext
            cases hnext
          · cases hnext
        | onePages => cases hnext
    · exact .append h1.filled h1.few (ih hsource (num - pages.length) s1 h1.balanced)

end Caches

end AmlogicV901d.Guarantees.ScatterPages
