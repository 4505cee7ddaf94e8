import AmlogicV901d.Guarantees.ScatterPages

/-!
# Pages back

A page that a scatter lists has a bit of its slot, found by the hash id in the page id, or
is a single page. Freeing takes pages off the end of a scatter; a fast free moves them to
a cache instead.
-/
namespace AmlogicV901d.Guarantees.ScatterFree
open Source.CodecMmScatter Lib.StateTriple Lib.KeyedList ScatterShapes ScatterLedger ScatterPages List
open Scatter (num)

variable {slot : Slot} {m : Scatter} {page n : Nat} {front : List Nat}

/-! ## Pages back to slots -/

section Free
variable {env : ScEnv} {t : Terms} {s : Sc}

theorem slots_apart (h : Balanced t s) {slot' : Slot} (hslot : slot ∈ s.slots) (hslot' : slot' ∈ s.slots)
    {f : Nat} (hf : inRange (slot.phyAddr / pageSize) slot.pageNum f = true)
    (hf' : inRange (slot'.phyAddr / pageSize) slot'.pageNum f = true) : slot = slot' := by
  by_cases hnum : slot.num = slot'.num
  · exact eq_of_lookup h.slotNums (lookup_of_mem h.slotNums hslot') hslot hnum
  have hsum := add_le_sumBy hslot hslot' (fun heq => hnum (heq ▸ rfl)) (frameCount_nonneg f s.slots)
  rw [frameCount_eq, frameCount_eq, if_pos hf, if_pos hf'] at hsum
  have hframes : (s.lent.count f : Int) = sumBy (frameCount f) s.slots +
    (sumBy (heldCount (onePage f)) s.scatters + t.fly (onePage f)) + t.others f := h.frames f
  obtain ⟨_, h2, h3, h4⟩ := h.restNonneg f
  have honce : s.lent.count f ≤ 1 := h.lentOnce f
  omega

theorem inRange_of_addr (h : Mapped slot) {addr : Nat} (hlow : slot.phyAddr ≤ addr)
    (hhigh : addr < slot.phyAddr + slot.pageNum * pageSize) :
    inRange (slot.phyAddr / pageSize) slot.pageNum (addr / pageSize) = true := by
  have hal := h.aligned
  rw [pageSize] at hhigh ⊢
  rw [inRange, Bool.and_eq_true, decide_eq_true_eq, decide_eq_true_eq]
  omega

/-- The hash list leads to the slot of a page. -/
theorem findSlot_eq (h : Balanced t s) (hslot : slot ∈ s.slots) {i : Nat} (hset : slot.pagemap i = true) :
    codecMmFindSlotInHash s.slots slot.sid (slot.phyAddr + 0x1000 * i) = some slot := by
  have hm := (h.mapped slot hslot).1
  have hi := hm.bits i hset
  have hhit : slot.phyAddr ≤ slot.phyAddr + 0x1000 * i ∧
      slot.phyAddr + 0x1000 * i < slot.phyAddr + slot.pageNum * pageSize := by
    rw [pageSize]
    omega
  have hsid : (!validSid slot.sid || slot.sid == onePageSid) = false := by
    have hlt := hm.hashed
    have hne : slot.sid ≠ onePageSid := Nat.ne_of_lt (Nat.lt_of_lt_of_le hlt (Nat.sub_le _ _))
    rw [validSid, decide_eq_true hlt, beq_false_of_ne hne]
    rfl
  have hin : slot ∈ s.slots.filter fun other => other.sid = slot.sid :=
    mem_filter.mpr ⟨hslot, decide_eq_true rfl⟩
  rw [codecMmFindSlotInHash, hsid]
  simp only [Bool.false_eq_true, if_false]
  split
  next hnil =>
    rw [hnil] at hin
    exact absurd hin not_mem_nil
  next root rest hlist =>
    have hmem : ∀ b, b ∈ root :: rest.reverse ↔ b ∈ s.slots ∧ b.sid = slot.sid := fun b => by
      rw [mem_cons, mem_reverse, ← mem_cons, ← hlist, mem_filter, decide_eq_true_eq]
    obtain ⟨found, hfound⟩ := Option.isSome_iff_exists.mp
      (find?_isSome (p := fun other : Slot => decide (other.phyAddr ≤ slot.phyAddr + 0x1000 * i ∧
        slot.phyAddr + 0x1000 * i < other.phyAddr + other.pageNum * pageSize)).mpr
        ⟨slot, (hmem slot).mpr ⟨hslot, rfl⟩, decide_eq_true hhit⟩)
    rw [hfound]
    have hof := (hmem found).mp (mem_of_find?_eq_some hfound)
    have hrange := find?_some hfound
    rw [decide_eq_true_eq] at hrange
    refine congrArg some (slots_apart h hof.1 hslot (inRange_of_addr (h.mapped found hof.1).1 hrange.1 hrange.2) ?_)
    exact inRange_of_addr hm hhit.1 hhit.2

theorem alloced_le (h : Mapped slot) : slot.allocedPageNum ≤ slot.pageNum := by
  have hlen : (marked slot).length ≤ (List.range slot.pageNum).length := length_filter_le _ _
  rw [length_range] at hlen
  have hcounted := h.counted
  omega

theorem slotFree_spec (slot : Slot) :
    Triple (fun s => Balanced t s ∧ HasSlot s slot) (codecMmSlotFree slot)
      fun ret s => Balanced t s ∧ (ret ≠ 0 → HasSlot s slot) := by
  refine .ite (fun _ s h => ⟨h.1, fun _ => h.2⟩) fun hfree s h => ?_
  have hcounted := (h.1.mapped slot (mem_of_lookup h.2)).1.counted
  exact ⟨h.1.dropSlot h.2 (by omega), fun hne => absurd rfl hne⟩

theorem slotTryFree_spec (slot : Slot) :
    Triple (fun s => Balanced t s ∧ HasSlot s slot) (codecMmSlotTryFree slot)
      fun ret s => Balanced t s ∧ (ret ≠ 0 → HasSlot s slot) :=
  Triple.bind Keeps.get fun _ => Triple.ite (fun _ _ h => ⟨h.1, fun _ => h.2⟩) fun _ => slotFree_spec slot

/-- A page goes back to its slot. -/
theorem pageFreeToSlot_spec (h : Balanced t s) (hslot : slot ∈ s.slots) {i : Nat} (hset : slot.pagemap i = true) :
    (codecMmPageFreeToSlot slot.sid (slot.phyAddr + 0x1000 * i) s).1 = 0 ∧
      Balanced (t.minus (slot.pageId i)) (codecMmPageFreeToSlot slot.sid (slot.phyAddr + 0x1000 * i) s).2 := by
  obtain ⟨hm, hidle⟩ := h.mapped slot hslot
  obtain ⟨htaken, hmapped⟩ := slotFreePage_taken hm hset
  rw [codecMmPageFreeToSlot, get_bind, findSlot_eq h hslot hset]
  dsimp only
  generalize (codecMmSlotFreePage slot (slot.phyAddr + 0x1000 * i)).2 = slot' at htaken hmapped ⊢
  have hlookup := lookup_of_mem h.slotNums hslot
  rw [htaken.num] at hlookup
  have hput : Balanced (t.minus (slot.pageId i)) (putSlot slot' s) := by
    refine h.putSlot hlookup htaken.phyAddr.symm htaken.pageNum.symm hmapped (htaken.onAllocFree.symm.trans hidle)
      (fun x _ => ?_) (fun f => ?_) fun _ => ?_
    · have hids := htaken.ids x
      show t.fly x - ([slot.pageId i].count x : Int) = t.fly x + (slotIds slot').count x - (slotIds slot).count x
      omega
    · rw [count_onePage htaken.slotPages f]
      exact Int.sub_zero _
    · have hle := alloced_le hm
      have halloced := htaken.alloced
      have hpages := htaken.pageNum
      rw [length_singleton] at halloced
      omega
  have hlook : lookup Slot.num slot'.num (putSlot slot' s).slots = some slot' :=
    lookup_update_self rfl h.slotNums hlookup
  have hrelist : ∀ s', Balanced (t.minus (slot.pageId i)) s' → HasSlot s' slot' →
      Balanced (t.minus (slot.pageId i)) (relistSlot slot' s') := fun s' hs hl => hs.relist (mem_of_lookup hl)
  refine Triple.bind (P := (· = s)) (R := fun _ s' => Balanced (t.minus (slot.pageId i)) s' ∧
    HasSlot s' slot') (Q := fun (ret : Int) s' => ret = 0 ∧ Balanced _ s') ?_ (fun _ => ?_)
    s rfl
  · rintro _ rfl
    exact ⟨hput, hlook⟩
  · refine Triple.ite (fun _ => ?_) fun _ s' hs => ⟨rfl, hrelist s' hs.1 hs.2⟩
    refine Triple.bind (slotTryFree_spec slot') fun ret => Triple.ite (fun _ s' hs => ⟨rfl, hs.1⟩) fun hne s' hs => ?_
    exact ⟨rfl, hrelist s' hs.1 (hs.2 hne)⟩

theorem slot_of_held (h : Balanced t s) (hquiet : t.Quiet) (hm : m ∈ s.scatters) (hpage : page ∈ heldPages m)
    (hsid : pageSid page ≠ onePageSid) : ∃ slot ∈ s.slots, ∃ i, slot.pagemap i = true ∧ slot.pageId i = page := by
  have hpages : sumBy (heldCount page) s.scatters + t.fly page = sumBy (slotCount page) s.slots := h.pages page hsid
  have hle := le_sumBy hm (heldCount_nonneg page s.scatters)
  have hpos : 0 < (heldPages m).count page := count_pos_iff.mpr hpage
  have hfly := hquiet page
  rw [heldCount] at hle
  obtain ⟨slot, hslot, hcount⟩ := exists_of_sumBy_pos (w := slotCount page) (l := s.slots) (by omega)
  have hin : page ∈ slotIds slot := count_pos_iff.mp (Int.natCast_pos.mp hcount)
  obtain ⟨i, hi, heq⟩ := mem_map.mp hin
  exact ⟨slot, hslot, i, (Lib.Bitmap.mem_ones.mp hi).2, heq⟩

/-! ## Pages out of a scatter -/

/-- A change to the pages of a scatter. -/
structure PagesOnly (f : Scatter → Scatter) : Prop where
  num : ∀ m, (f m).num = m.num
  userCnt : ∀ m, (f m).userCnt = m.userCnt
  pageUsed : ∀ m, (f m).pageUsed = m.pageUsed
  pageMaxCnt : ∀ m, (f m).pageMaxCnt = m.pageMaxCnt

theorem PagesOnly.comp {f g : Scatter → Scatter} (hf : PagesOnly f) (hg : PagesOnly g) : PagesOnly fun m => g (f m) :=
  ⟨fun m => (hg.num _).trans (hf.num m), fun m => (hg.userCnt _).trans (hf.userCnt m),
    fun m => (hg.pageUsed _).trans (hf.pageUsed m), fun m => (hg.pageMaxCnt _).trans (hf.pageMaxCnt m)⟩

theorem popped_balanced {f : Scatter → Scatter} {fly : Nat → Int} (h : Balanced t s)
    (hm : Has s n m) (hnum : ∀ b, (f b).num = b.num) (hheld : Holds m (front ++ [page]))
    (hfront : Holds (f m) front) (hfly : ∀ x, fly x = t.fly x + [page].count x) (hones : ∀ f, 0 ≤ fly (onePage f)) :
    Balanced ((({ t with fly := fly } : Terms).popped n 1).on (update num n f s.scatters))
      { s with scatters := update num n f s.scatters } := by
  have hcnt := hheld.cnt
  rw [length_append, length_singleton] at hcnt
  refine h.updateScatter hm hnum hfront rfl rfl rfl (fun x => ?_) hones ?_ ?_
  · show fly x = t.fly x + heldCount x m - front.count x
    rw [hfly, Scatter.heldCount_eq hheld, count_append]
    omega
  · show t.gap + 1 = t.gap + m.pageCnt - (f m).pageCnt
    rw [hfront.cnt]
    omega
  · show t.cacheGap + (if t.lives.isCache n then 1 else 0) = t.cacheGap + _
    rw [hfront.cnt, hcnt, isCacheSc_eq h]
    split <;> omega

theorem last_page (h : Holds m (front ++ [page])) : m.pagesList.getD front.length 0 = page := by
  rw [h.list, append_assoc, getD_eq_getElem?_getD, getElem?_append_right (Nat.le_refl _), Nat.sub_self]
  rfl

def clearEntry (id : Nat) (m : Scatter) : Scatter := { m with pagesList := m.pagesList.set id 0 }

/-- A scatter whose last page is freed. -/
def lastFreed (id : Nat) (m : Scatter) : Scatter :=
  { m with pagesList := m.pagesList.set id 0, pageCnt := m.pageCnt - 1, pageTail := m.pageTail - 1 }

theorem lastFreed_pagesOnly (id : Nat) : PagesOnly (lastFreed id) :=
  ⟨fun _ => rfl, fun _ => rfl, fun _ => rfl, fun _ => rfl⟩

theorem lastFreed_holds (h : Holds m (front ++ [page])) : Holds (lastFreed front.length m) front :=
  h.freeLast rfl rfl rfl rfl

def freeLast (n : Nat) (i : Int) : ScM Unit := do
  let _ ← codecMmScatterFreePageIdLocked n i
  modifyScatter n fun m => { m with pagesList := m.pagesList.set i.toNat 0 }

section
variable (h : Balanced t s)
include h

/-- The last page of a scatter is freed. -/
theorem freeLast_spec
    (hquiet : t.Quiet) (hm : Has s n m) (hheld : Holds m (front ++ [page])) :
    Balanced ((t.popped n 1).on (update num n (lastFreed front.length) s.scatters))
      (freeLast n front.length s).2 := by
  have hcnt := hheld.cnt
  have htail := hheld.tail
  rw [length_append, length_singleton] at hcnt htail
  have hfree : codecMmScatterFreePageIdLocked n front.length s = freePage n front.length page s := by
    rw [codecMmScatterFreePageIdLocked, get_bind, hm]
    dsimp only
    rw [if_neg (by omega), Int.toNat_natCast, last_page hheld]
  have hfront := lastFreed_holds hheld
  have hof : ∀ b ∈ s.scatters, b.num = n → b = m := fun _ => eq_of_lookup h.scatterNums hm
  show Balanced _ (modifyScatter n (clearEntry (front.length : Int).toNat)
    (codecMmScatterFreePageIdLocked n front.length s).2).2
  rw [hfree, Int.toNat_natCast, freePage]
  by_cases hone : pageSid page = onePageSid
  · -- the page leaves the scatter, then the system has it back
    have hpop := popped_balanced (f := lastFreed front.length) h hm (fun _ => rfl) hheld hfront
      (show ∀ x, (t.plus [page]).fly x = _ from fun _ => rfl) fun f => by
      dsimp only [books, Terms.plus]
      rw [hquiet]
      omega
    have hback := Balanced.countOnePages
      (.giveOne (t := (t.popped n 1).on (update num n (lastFreed front.length) s.scatters)) hpop hone
        h.flying) (-1)
    have hscatters : update num n (clearEntry front.length) (freeOnePage n front.length page s).scatters =
        update num n (lastFreed front.length) s.scatters := by
      rw [freeOnePage]
      rw [update_update (by exact fun _ hb => hb)]
      refine update_congr fun b hb hbn => ?_
      have htail : (front.length : Int) = b.pageTail := by
        rw [hof b hb hbn]
        omega
      rw [if_pos htail]
      rfl
    rw [hone, if_neg (by decide), if_pos rfl]
    show Balanced _ { freeOnePage n front.length page s with
      scatters := update num n (clearEntry front.length) (freeOnePage n front.length page s).scatters }
    rw [hscatters]
    exact hback
  · have hpage : page ∈ heldPages m := by
      rw [hheld.held_eq]
      exact mem_append_right _ (mem_singleton.mpr rfl)
    obtain ⟨slot, hslot, i, hset, rfl⟩ := slot_of_held h hquiet (mem_of_lookup hm) hpage hone
    have hmapped := (h.mapped slot hslot).1
    have hi := hmapped.bits i hset
    have hvalid : validSid slot.sid = true := by
      rw [validSid, decide_eq_true hmapped.hashed]
      rfl
    obtain ⟨hret, hfreed⟩ := pageFreeToSlot_spec h hslot hset
    rw [pageSid_pageId hmapped hi, pageAddr_pageId hmapped hi, hvalid, if_neg (by decide),
      if_neg (pageSid_pageId hmapped hi ▸ hone)]
    show Balanced _ (modifyScatter n _ ((if (codecMmPageFreeToSlot slot.sid (slot.phyAddr + 0x1000 * i) s).1 = 0 then _ else _ :
      ScM Int) (codecMmPageFreeToSlot slot.sid (slot.phyAddr + 0x1000 * i) s).2).2).2
    rw [if_pos hret]
    generalize (codecMmPageFreeToSlot slot.sid (slot.phyAddr + 0x1000 * i) s).2 = s' at hfreed ⊢
    have hsame : s'.scatters = s.scatters := hfreed.stand.trans h.stand.symm
    have hpop := popped_balanced (f := lastFreed front.length) hfreed (by rwa [Has, hsame]) (fun _ => rfl) hheld hfront
      (show ∀ x, t.fly x = t.fly x - ([slot.pageId i].count x : Int) + _ from fun x => by omega) h.flying
    have hscatters : update num n (clearEntry front.length)
        (update num n (fun m => { m with pageCnt := m.pageCnt - 1, pageTail := m.pageTail - 1 }) s'.scatters) =
        update num n (lastFreed front.length) s'.scatters := update_update fun _ hb => hb
    rw [hsame] at hpop hscatters
    show Balanced _ { s' with scatters := update num n _ (update num n _ s'.scatters) }
    rw [hsame, hscatters]
    exact hpop

omit h in
theorem popped_popped (t : Terms) (n : Nat) (j k : Int) (scatters scatters' : List Scatter) :
    (((t.popped n j).on scatters).popped n k).on scatters' = (t.popped n (k + j)).on scatters' := by
  have hgap : t.gap + j + k = t.gap + (k + j) := by omega
  have hcache : t.cacheGap + (if t.lives.isCache n then j else 0) + (if t.lives.isCache n then k else 0) =
      t.cacheGap + if t.lives.isCache n then k + j else 0 := by
    cases t.lives.isCache n with
    | true =>
      show t.cacheGap + j + k = t.cacheGap + (k + j)
      omega
    | false =>
      show t.cacheGap + 0 + 0 = t.cacheGap + 0
      omega
  show Terms.mk t.others t.fly (t.gap + j + k)
    (t.cacheGap + (if t.lives.isCache n then j else 0) + (if t.lives.isCache n then k else 0)) t.lives scatters' = _
  rw [hgap, hcache]
  rfl

theorem on_stand : t.on s.scatters = t := by
  rw [h.same]
  rfl

/-- The loop takes the pages off the end, one a round. -/
theorem freePagesLoop_spec {back : List Nat} (hquiet : t.Quiet)
    (hm : Has s n m) (hheld : Holds m (front ++ back)) :
    ∃ f, PagesOnly f ∧ Holds (f m) front ∧ Balanced ((t.popped n back.length).on (update num n f s.scatters))
        (freePagesLoop n back.length ((front ++ back).length - 1) s).2 := by
  induction hk : back.length generalizing t s m back with
  | zero =>
    obtain rfl := length_eq_zero_iff.mp hk
    rw [append_nil] at hheld
    refine ⟨fun m => m, ⟨fun _ => rfl, fun _ => rfl, fun _ => rfl, fun _ => rfl⟩, hheld, ?_⟩
    have hnone : t.popped n 0 = t := by
      rw [Terms.popped, ite_self, Terms.ahead_zero, Terms.cacheAhead_zero]
    rw [update_self, show ((0 : Nat) : Int) = 0 from rfl, hnone, on_stand h]
    exact h
  | succ k ih =>
    obtain ⟨back, page, rfl⟩ : ∃ back' page, back = back' ++ [page] :=
      ⟨_, _, (dropLast_concat_getLast (ne_nil_of_length_pos (by omega))).symm⟩
    rw [length_append, length_singleton, Nat.add_right_cancel_iff] at hk
    rw [← append_assoc] at hheld
    have hstep := freeLast_spec h hquiet hm hheld
    have hlast := lastFreed_holds hheld
    have hindex : ((front ++ (back ++ [page])).length : Int) - 1 = (front ++ back).length := by
      rw [← append_assoc, length_append, length_singleton]
      omega
    have hstand : (freeLast n (front ++ back).length s).2.scatters =
      update num n (lastFreed (front ++ back).length) s.scatters := hstep.stand
    have hm' : lookup num n (update num n (lastFreed (front ++ back).length) s.scatters) = some _ :=
      lookup_update_self (show m.num = n from key_of_lookup hm) h.scatterNums hm
    rw [← hstand] at hm'
    obtain ⟨f, hf, hfront, hrest⟩ := ih hstep hquiet hm' hlast hk
    refine ⟨fun m => f (lastFreed (front ++ back).length m), (lastFreed_pagesOnly _).comp hf, hfront, ?_⟩
    rw [hstand, popped_popped] at hrest
    rw [hindex]
    have hupd : update num n f (update num n (lastFreed (front ++ back).length) s.scatters) =
      update num n (fun m => f (lastFreed (front ++ back).length m)) s.scatters := update_update fun _ hb => hb
    rw [← hupd]
    exact hrest

omit h in
theorem popped_counted {k : Int} {scatters : List Scatter} (h : Balanced ((t.popped n k).on scatters) s) :
    Balanced (t.on scatters) { s with
      allocedPageNum := s.allocedPageNum - k
      cachedPages := if s.isCacheSc n then s.cachedPages - k else s.cachedPages } := by
  refine { h with alloced := ?_, cached := ?_ }
  · have halloced : s.allocedPageNum = sumBy Scatter.pageCnt s.scatters + (t.gap + k) := h.alloced
    show s.allocedPageNum - k = sumBy Scatter.pageCnt s.scatters + t.gap
    omega
  · have hcached : s.cachedPages = sumBy (lives s).cacheWeight s.scatters +
      (t.cacheGap + if t.lives.isCache n then k else 0) := h.cached
    have hcache : s.isCacheSc n = t.lives.isCache n := isCacheSc_eq h n
    show (if s.isCacheSc n then s.cachedPages - k else s.cachedPages) =
      sumBy (lives s).cacheWeight s.scatters + t.cacheGap
    rw [hcache]
    split at hcached
    next hc =>
      rw [if_pos hc]
      omega
    next hc =>
      rw [if_neg hc]
      omega

/-- The pages from `front` on are freed. -/
theorem freePagesIn_spec {back : List Nat}
    (hquiet : t.Quiet) (hm : Has s n m) (hheld : Holds m (front ++ back)) :
    ∃ f, PagesOnly f ∧ Holds (f m) front ∧ Balanced (t.on (update num n f s.scatters))
      (codecMmScatterFreePagesInLocked n front.length s).2 := by
  have htail := hheld.tail
  have hnum : (m.pageTail - front.length + 1).toNat = back.length := by
    rw [htail, length_append]
    omega
  obtain ⟨f, hf, hfront, hloop⟩ := freePagesLoop_spec h hquiet hm hheld
  refine ⟨f, hf, hfront, ?_⟩
  rw [codecMmScatterFreePagesInLocked, get_bind, hm]
  dsimp only
  rw [hnum, htail]
  show Balanced _ { (freePagesLoop n back.length ((front ++ back).length - 1) s).2 with allocedPageNum := _, cachedPages := _ }
  generalize (freePagesLoop n back.length ((front ++ back).length - 1) s).2 = s' at hloop ⊢
  exact popped_counted hloop

omit h in
theorem pushCounted {held pages : List Nat} (h : Balanced ((t.plus pages).ahead pages.length) s)
    (hfly : ∀ f, 0 ≤ t.fly (onePage f)) (hm : Has s n m) (hheld : Holds m held)
    (hpages : 0 ∉ pages) (hroom : (held.length : Int) + pages.length ≤ m.pageMaxCnt) :
    Balanced (t.on (update num n (·.push pages) s.scatters)) { s with
      scatters := update num n (·.push pages) s.scatters
      cachedPages := if s.isCacheSc n then s.cachedPages + pages.length else s.cachedPages } := by
  have hpush := h.pushScatter hfly hm hheld hpages hroom
  refine { hpush with cached := ?_ }
  have hcached : s.cachedPages = sumBy (lives s).cacheWeight (update num n (·.push pages) s.scatters) +
    (t.cacheGap + if s.isCacheSc n then -(pages.length : Int) else 0) := hpush.cached
  show (if s.isCacheSc n then s.cachedPages + pages.length else s.cachedPages) =
    sumBy (lives s).cacheWeight (update num n (·.push pages) s.scatters) + t.cacheGap
  split at hcached
  next hc =>
    rw [if_pos hc]
    omega
  next hc =>
    rw [if_neg hc]
    omega

/-! ## Fast frees -/

/-- Where a fast free ends. The pages that go from one cache to the other are counted twice. -/
def FastFreed (t : Terms) (n : Nat) (S : List Scatter) (s : Sc) : Prop :=
  ∃ gap, (t.lives.isCache n = false → gap = t.cacheGap) ∧ Balanced { t with cacheGap := gap, scatters := S } s

/-- Pages move from a scatter to a cache. -/
theorem movePages_spec {src dst : Scatter} (hsrc : Has s src.num src)
    (hdst : Has s dst.num dst) (hne : src.num ≠ dst.num)
    (hcache : t.lives.isCache dst.num = true) (hused : 0 ≤ src.pageUsed) (hless : src.pageUsed < src.pageCnt) :
    ∃ S, FastFreed t src.num S (movePages src dst s).2 ∧ ∃ src', lookup num src.num S = some src' ∧
      src'.pageUsed = src.pageUsed ∧ src.pageUsed ≤ src'.pageCnt := by
  have hheld := h.shaped src (mem_of_lookup hsrc)
  have hcnt := hheld.cnt
  have hdheld := h.shaped dst (mem_of_lookup hdst)
  have hdcnt := hdheld.cnt
  have hdroom := hdheld.room
  -- the pages that move are the last ones of the source
  obtain ⟨front, back, hsplit, hback⟩ : ∃ front back, front ++ back = heldPages src ∧
      back.length = (min (src.pageCnt - src.pageUsed) (dst.pageMaxCnt - dst.pageCnt)).toNat := by
    refine ⟨_, _, take_append_drop ((heldPages src).length -
      (min (src.pageCnt - src.pageUsed) (dst.pageMaxCnt - dst.pageCnt)).toNat) _, ?_⟩
    rw [length_drop]
    omega
  rw [← hsplit] at hheld hcnt
  rw [length_append] at hcnt
  have hfront : src.pageCnt - back.length = front.length := by omega
  have hpop := h.popScatter hsrc hheld
  rw [isCacheSc_eq h] at hpop
  have hdst' : lookup num dst.num (update num src.num (·.pop front.length back.length) s.scatters) =
      some dst := by
    rw [lookup_update_ne (by exact fun _ hb => hb) hne.symm]
    exact hdst
  have hpush := pushCounted (t := (t.cacheAhead (if t.lives.isCache src.num then back.length else 0)).on
    (update num src.num (·.pop front.length back.length) s.scatters)) hpop h.flying hdst' hdheld (fun hin => hheld.filled (mem_append_right _ hin)) (by omega)
  refine ⟨update num dst.num (·.push back)
    (update num src.num (·.pop front.length back.length) s.scatters),
    ⟨t.cacheGap + (if t.lives.isCache src.num then (back.length : Int) else 0), fun hplain => ?_, ?_⟩,
    src.pop front.length back.length, ?_, rfl, ?_⟩
  · rw [hplain]
    exact Int.add_zero _
  · have hrun : (movePages src dst s).2 = { s with
        scatters := update num src.num (·.pop front.length back.length)
          (update num dst.num (·.push back) s.scatters)
        cachedPages := s.cachedPages + back.length } := by
      rw [movePages, ← hback, hfront, hheld.pagesAt]
      rfl
    rw [hrun, update_comm (by exact fun _ hb => hb) (by exact fun _ hb => hb) hne]
    have hcount : (if s.isCacheSc dst.num then s.cachedPages + back.length else s.cachedPages) =
        s.cachedPages + back.length := if_pos (by rw [isCacheSc_eq h, hcache])
    rw [← hcount]
    exact hpush
  · rw [lookup_update_ne (by exact fun _ hb => hb) hne]
    exact lookup_update_self (by exact rfl) h.scatterNums hsrc
  · show src.pageUsed ≤ src.pageCnt - back.length
    omega

theorem FastFreed.stay (n : Nat) : FastFreed t n s.scatters s :=
  ⟨t.cacheGap, fun _ => rfl, (on_stand h).symm ▸ h⟩

theorem pageFreeToCache_spec (hm : Has s n m)
    (hused : 0 ≤ m.pageUsed) (hless : m.pageUsed < m.pageCnt) :
    ∃ S, FastFreed t n S (codecMmPageFreeToCacheScatter n s).2 ∧ ∃ m', lookup num n S = some m' ∧
      m'.pageUsed = m.pageUsed ∧ m.pageUsed ≤ m'.pageCnt := by
  have hstay : ∃ S, FastFreed t n S s ∧ ∃ m', lookup num n S = some m' ∧
      m'.pageUsed = m.pageUsed ∧ m.pageUsed ≤ m'.pageCnt :=
    ⟨s.scatters, .stay h n, m, hm, rfl, Int.le_of_lt hless⟩
  obtain rfl := key_of_lookup hm
  rw [codecMmPageFreeToCacheScatter, get_bind, hm]
  dsimp only
  rw [codecMmPagesFreeToScatter, get_bind, if_neg (by omega)]
  split
  next => exact hstay
  next hself =>
    cases hdst : (codecMmGetNextCacheScatter s.toSmgt none false).bind fun mms => lookup num mms s.scatters with
    | none => exact hstay
    | some dst =>
      obtain ⟨k, hk, hlook⟩ := Option.bind_eq_some_iff.mp hdst
      obtain rfl := key_of_lookup hlook
      have hcache := nextCache_isCache hk
      rw [isCacheSc_eq h] at hcache
      exact movePages_spec h hm hlook (fun heq => hself (heq ▸ hk)) hcache hused hless

/-! ## Tail frees -/

theorem freePagesFrom_spec {start : Int} (hquiet : t.Quiet)
    (hm : Has s n m) (hstart : 0 ≤ start) (hle : start ≤ m.pageCnt) :
    ∃ f, PagesOnly f ∧ Holds (f m) ((heldPages m).take start.toNat) ∧
      Balanced (t.on (update num n f s.scatters)) (codecMmScatterFreePagesInLocked n start s).2 := by
  have hheld := h.shaped m (mem_of_lookup hm)
  have hcnt := hheld.cnt
  rw [← take_append_drop start.toNat (heldPages m)] at hheld
  have hlen : (((heldPages m).take start.toNat).length : Int) = start := by
    rw [length_take]
    omega
  have hfree := freePagesIn_spec h hquiet hm hheld
  rw [hlen] at hfree
  exact hfree

/-- Where a free of the tail ends. -/
def TailFreed (t : Terms) (n fastMode : Nat) (s : Sc) : Prop :=
  ∃ S gap, (t.lives.isCache n = false ∨ ¬ (fastMode = 2 ∨ fastMode = 3) → gap = t.cacheGap) ∧
    Balanced { t with cacheGap := gap, scatters := S } s

theorem TailFreed.stay {fastMode : Nat} : TailFreed t n fastMode s :=
  ⟨s.scatters, t.cacheGap, fun _ => rfl, (on_stand h).symm ▸ h⟩

theorem freeUnused_spec {start : Int} {fastMode : Nat}
    (hquiet : t.Quiet) (hm : Has s n m) (hused : m.pageUsed = start)
    (hstart : 0 ≤ start) (hless : start < m.pageCnt) : TailFreed t n fastMode (freeUnused n start fastMode s).2 := by
  rw [freeUnused]
  split
  next => exact .stay h
  next =>
    split
    next htwo =>
      obtain ⟨S, ⟨gap, hgap, hmoved⟩, _⟩ := pageFreeToCache_spec h hm (by omega) (by omega)
      exact ⟨S, gap, fun hor => hgap (hor.resolve_right (not_not_intro (.inl htwo))), hmoved⟩
    next =>
      split
      next hthree =>
        obtain ⟨S, ⟨gap, hgap, hmoved⟩, m', hm', hused', hle⟩ := pageFreeToCache_spec h hm (by omega) (by omega)
        have hkept : t.lives.isCache n = false ∨ ¬ (fastMode = 2 ∨ fastMode = 3) → gap = t.cacheGap :=
          fun hor => hgap (hor.resolve_right (not_not_intro (.inr hthree)))
        rw [hused] at hused' hle
        cases hrun : codecMmPageFreeToCacheScatter n s with
        | mk ret s' =>
          rw [hrun] at hmoved
          have hstand : s'.scatters = S := hmoved.stand
          rw [bind_run hrun, get_bind, hstand, hm']
          dsimp only
          split
          next => exact ⟨S, gap, hkept, hmoved⟩
          next =>
            obtain ⟨f, _, _, hfree⟩ := freePagesFrom_spec hmoved hquiet (hstand.symm ▸ hm') hstart hle
            exact ⟨_, gap, hkept, hfree⟩
      next =>
        obtain ⟨f, _, _, hfree⟩ := freePagesFrom_spec h hquiet hm hstart (Int.le_of_lt hless)
        exact ⟨_, t.cacheGap, fun _ => rfl, hfree⟩

def setUsed (used : Int) (m : Scatter) : Scatter := { m with pageUsed := used }

theorem setUsed_balanced (n : Nat) (used : Int) :
    Balanced (t.on (update num n (setUsed used) s.scatters))
      { s with scatters := update num n (setUsed used) s.scatters } :=
  h.touchScatter (fun _ => rfl) fun _ _ hb => hb.frame rfl rfl rfl rfl

theorem lookup_setUsed (hm : Has s n m)
    (used : Int) : lookup num n (update num n (setUsed used) s.scatters) = some (setUsed used m) :=
  lookup_update_self (show m.num = n from key_of_lookup hm) h.scatterNums hm

theorem freeTail_spec {id : Int} {fastMode freeMode : Nat} (hquiet : t.Quiet) :
    TailFreed t n fastMode (codecMmScatterFreeTailPagesIn n id fastMode freeMode s).2 := by
  rw [codecMmScatterFreeTailPagesIn, get_bind]
  cases hm : lookup num n s.scatters with
  | none => exact .stay h
  | some m =>
    dsimp only
    split
    next => exact .stay h
    next hstart =>
      obtain ⟨S, gap, hgap, hfree⟩ := freeUnused_spec (setUsed_balanced h n (startFreeId m id freeMode)) hquiet
        (lookup_setUsed h hm _) rfl (show 0 ≤ startFreeId m id freeMode by omega)
        (show startFreeId m id freeMode < m.pageCnt by omega)
      exact ⟨S, gap, hgap, hfree⟩

end

/-- A change to scatters that keeps their users. -/
structure UsersKept (g : Scatter → Scatter) : Prop where
  num : ∀ m, (g m).num = m.num
  userCnt : ∀ m, (g m).userCnt = m.userCnt

structure PageChange (g : Scatter → Scatter) : Prop extends UsersKept g where
  used : ∀ m, 0 ≤ m.pageUsed → 0 ≤ (g m).pageUsed

/-- What a free without the caches does to the scatter. -/
structure Trimmed (m : Scatter) (start : Int) (m' : Scatter) : Prop where
  pages : 0 ≤ start → start < m.pageCnt → Holds m' ((heldPages m).take start.toNat) ∧ m'.pageUsed = start
  same : ¬ (0 ≤ start ∧ start < m.pageCnt) → m' = m

theorem freeTail_slow (id : Int) (freeMode : Nat) (h : Balanced t s) (hquiet : t.Quiet)
    (hm : Has s n m) : ∃ f, PageChange f ∧ Trimmed m (startFreeId m id freeMode) (f m) ∧
      Balanced (t.on (update num n f s.scatters)) (codecMmScatterFreeTailPagesIn n id 0 freeMode s).2 := by
  have hheld := h.shaped m (mem_of_lookup hm)
  have hcnt := hheld.cnt
  have htail := hheld.tail
  rw [codecMmScatterFreeTailPagesIn, get_bind, hm]
  dsimp only
  split
  next hstart =>
    refine ⟨fun m => m, ⟨⟨fun _ => rfl, fun _ => rfl⟩, fun _ hm => hm⟩, ⟨fun h0 h1 => ?_, fun _ => rfl⟩, ?_⟩
    · omega
    · rw [update_self, on_stand h]
      exact h
  next hstart =>
    obtain ⟨f, hf, hholds, hfree⟩ := freePagesFrom_spec (setUsed_balanced h n (startFreeId m id freeMode)) hquiet
      (lookup_setUsed h hm (startFreeId m id freeMode)) (by omega) (show startFreeId m id freeMode ≤ m.pageCnt by omega)
    refine ⟨fun b => f (setUsed (startFreeId m id freeMode) b), ⟨⟨fun b => hf.num _, fun b => hf.userCnt _⟩,
      fun b _ => ?_⟩, ⟨fun _ _ => ⟨hholds, hf.pageUsed _⟩, fun hnot => absurd ⟨by omega, by omega⟩ hnot⟩, ?_⟩
    · rw [hf.pageUsed]
      show 0 ≤ startFreeId m id freeMode
      omega
    · have hupd : update num n f (update num n (setUsed (startFreeId m id freeMode)) s.scatters) =
          update num n (fun b => f (setUsed (startFreeId m id freeMode) b)) s.scatters :=
        update_update fun _ hb => hb
      rw [← hupd]
      exact hfree

end Free

end AmlogicV901d.Guarantees.ScatterFree
