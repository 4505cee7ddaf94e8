import AmlogicV901d.Guarantees.ScatterShapes

/-!
# The ledger of the scatter manager

Every page id and page frame of the manager is accounted for by sums over its slots and
scatters. While an operation is under way some terms are open: pages on their way from
a slot or a cache to a scatter, frames lent but in no slot yet, and counters that are
brought up to date only at the end.
-/
namespace AmlogicV901d.Guarantees.ScatterLedger
open Source.CodecMmScatter Lib.StateTriple Lib.KeyedList ScatterShapes List
open Scatter (num)

variable {m : Scatter} {held : List Nat} {n addr : Nat} {slot : Slot}

/-- The id of a single page. -/
def onePage (frame : Nat) : Nat := frame * 0x1000 + 0xfff

theorem pageSid_onePage (frame : Nat) : pageSid (onePage frame) = onePageSid := by
  rw [pageSid, onePage, onePageSid, sidMask]
  omega

/-- Which scatters there are, and where they are registered. -/
structure Lives where
  scatterList : List Nat
  scmap : List (Option Nat)
  scattersCnt : Int
  freed : List Nat
  nextScatter : Nat
  cacheSc0 : Option Nat
  cacheSc1 : Option Nat

def lives (s : Sc) : Lives :=
  ⟨s.scatterList, s.scmap, s.scattersCnt, s.freed, s.nextScatter, s.cacheSc0, s.cacheSc1⟩

structure Books where
  slots : List Slot
  scatters : List Scatter
  freeList : List Nat
  lent : List Nat
  total : Int
  alloced : Int
  cached : Int
  onePages : Int
  nextSlot : Nat
  lives : Lives

def books (s : Sc) : Books :=
  ⟨s.slots, s.scatters, s.freeList, s.lent, s.totalPageNum, s.allocedPageNum, s.cachedPages, s.onePageCnt,
    s.nextSlot, lives s⟩

/-- The open terms: frames lent to others, page ids in flight, pages the counters have ahead
of the scatters and of the caches; and the scatters as they stand. -/
structure Terms where
  others : Nat → Int
  fly : Nat → Int
  gap : Int
  cacheGap : Int
  lives : Lives
  scatters : List Scatter

def Lives.isCache (l : Lives) (mms : Nat) : Bool := l.cacheSc0 == some mms || l.cacheSc1 == some mms

def Lives.cacheWeight (l : Lives) (m : Scatter) : Int := if l.isCache m.num then m.pageCnt else 0

def slotCount (x : Nat) (slot : Slot) : Int := (slotIds slot).count x

def frameCount (f : Nat) (slot : Slot) : Int := (slotFrames slot).count f

def heldCount (x : Nat) (m : Scatter) : Int := (heldPages m).count x

structure Ledger (t : Terms) (b : Books) : Prop where
  slotNums : (b.slots.map Slot.num).Nodup
  slotNumbered : ∀ slot ∈ b.slots, slot.num < b.nextSlot
  scatterNums : (b.scatters.map Scatter.num).Nodup
  scatterNumbered : ∀ m ∈ b.scatters, m.num < b.lives.nextScatter
  mapped : ∀ slot ∈ b.slots, Mapped slot ∧ slot.onAllocFree = 0
  shaped : ∀ m ∈ b.scatters, Holds m (heldPages m)
  listed : ∀ n ∈ b.freeList, ∃ slot ∈ b.slots, slot.num = n ∧ slot.allocedPageNum < slot.pageNum
  /-- a set bit for every page id that is held or in flight -/
  pages : ∀ x, pageSid x ≠ onePageSid → sumBy (heldCount x) b.scatters + t.fly x = sumBy (slotCount x) b.slots
  /-- a lent frame for every page of a slot and every single page -/
  frames : ∀ f, (b.lent.count f : Int) = sumBy (frameCount f) b.slots +
    (sumBy (heldCount (onePage f)) b.scatters + t.fly (onePage f)) + t.others f
  lentOnce : ∀ f, b.lent.count f ≤ 1
  flying : ∀ f, 0 ≤ t.fly (onePage f)
  othersNonneg : ∀ f, 0 ≤ t.others f
  alloced : b.alloced = sumBy Scatter.pageCnt b.scatters + t.gap
  cached : b.cached = sumBy b.lives.cacheWeight b.scatters + t.cacheGap
  total : b.total = sumBy (fun slot => (slot.pageNum : Int)) b.slots + b.onePages
  cachesNumbered : ∀ n, b.lives.isCache n = true → n < b.lives.nextScatter
  cachesUnlisted : ∀ n ∈ b.lives.scatterList, b.lives.isCache n = false
  alive : b.lives = t.lives
  stand : b.scatters = t.scatters

def Balanced (t : Terms) (s : Sc) : Prop := Ledger t (books s)

/-! ## Terms -/

/-- Pages come into flight. -/
def Terms.plus (t : Terms) (pages : List Nat) : Terms := { t with fly := fun x => t.fly x + pages.count x }

/-- A page that a scatter still lists is gone from its slot. -/
def Terms.minus (t : Terms) (page : Nat) : Terms := { t with fly := fun x => t.fly x - [page].count x }

/-- The scatters change. -/
def Terms.on (t : Terms) (scatters : List Scatter) : Terms := { t with scatters }

def Terms.ahead (t : Terms) (n : Int) : Terms := { t with gap := t.gap + n }

def Terms.cacheAhead (t : Terms) (n : Int) : Terms := { t with cacheGap := t.cacheGap + n }

/-- The counters have pages that have left scatter `n`. -/
def Terms.popped (t : Terms) (n : Nat) (k : Int) : Terms :=
  (t.ahead k).cacheAhead (if t.lives.isCache n then k else 0)

/-- A range of frames that is in no slot yet. -/
def Terms.lent (t : Terms) (addr n : Nat) : Terms :=
  { t with others := fun f => t.others f + if inRange (addr / pageSize) n f then 1 else 0 }

/-- No page is in flight. -/
def Terms.Quiet (t : Terms) : Prop := ∀ x, t.fly x = 0

variable (t : Terms)

@[simp] theorem Terms.plus_nil : t.plus [] = t := by
  simp [Terms.plus]

@[simp] theorem Terms.ahead_zero : t.ahead 0 = t := by
  simp [Terms.ahead]

@[simp] theorem Terms.cacheAhead_zero : t.cacheAhead 0 = t := by
  simp [Terms.cacheAhead]

theorem Terms.plus_append (pages more : List Nat) : (t.plus pages).plus more = t.plus (pages ++ more) := by
  simp only [Terms.plus, count_append, Int.natCast_add, Int.add_assoc]

/-! ## Counting -/

theorem slotCount_nonneg (x : Nat) (slots : List Slot) : ∀ slot ∈ slots, 0 ≤ slotCount x slot :=
  fun _ _ => Int.natCast_nonneg _

theorem frameCount_nonneg (f : Nat) (slots : List Slot) : ∀ slot ∈ slots, 0 ≤ frameCount f slot :=
  fun _ _ => Int.natCast_nonneg _

theorem heldCount_nonneg (x : Nat) (scatters : List Scatter) : ∀ m ∈ scatters, 0 ≤ heldCount x m :=
  fun _ _ => Int.natCast_nonneg _

theorem Scatter.heldCount_eq (h : Holds m held) (x : Nat) : heldCount x m = held.count x := by
  rw [heldCount, h.held_eq]

theorem count_range_map (frame n f : Nat) :
    ((List.range n).map (frame + ·)).count f = if inRange frame n f then 1 else 0 := by
  have hnodup : ((List.range n).map (frame + ·)).Nodup := List.Pairwise.map _ (fun a b hne heq => hne (by omega)) nodup_range
  have hmem : f ∈ (List.range n).map (frame + ·) ↔ inRange frame n f = true := by
    simp only [mem_map, mem_range, inRange, Bool.and_eq_true, decide_eq_true_eq]
    constructor
    · rintro ⟨i, hi, rfl⟩
      omega
    · intro hr
      exact ⟨f - frame, by omega, by omega⟩
  rw [hnodup.count]
  simp only [hmem]

theorem frameCount_eq (f : Nat) (slot : Slot) :
    frameCount f slot = if inRange (slot.phyAddr / pageSize) slot.pageNum f then 1 else 0 := by
  rw [frameCount, slotFrames, count_range_map]
  split <;> rfl

theorem count_onePage {pages : List Nat} (h : ∀ p ∈ pages, pageSid p ≠ onePageSid) (f : Nat) :
    pages.count (onePage f) = 0 :=
  count_eq_zero.mpr fun hin => h _ hin (pageSid_onePage f)

/-! ## Moves of the ledger -/

abbrev Has (s : Sc) (n : Nat) (m : Scatter) : Prop := lookup Scatter.num n s.scatters = some m

abbrev HasSlot (s : Sc) (slot : Slot) : Prop := lookup Slot.num slot.num s.slots = some slot

section Moves
variable {t : Terms} {s : Sc}

section
variable (h : Balanced t s)
include h

theorem Balanced.frame {s' : Sc} (hb : books s' = books s) : Balanced t s' := by
  rw [Balanced, hb]
  exact h

theorem Balanced.countAlloced (n : Int) : Balanced (t.ahead n) { s with allocedPageNum := s.allocedPageNum + n } :=
  { h with alloced := (congrArg (· + n) h.alloced).trans (Int.add_assoc ..) }

theorem Balanced.countCached (n : Int) : Balanced (t.cacheAhead n) { s with cachedPages := s.cachedPages + n } :=
  { h with cached := (congrArg (· + n) h.cached).trans (Int.add_assoc ..) }

theorem Balanced.countOnePages (n : Int) :
    Balanced t { s with totalPageNum := s.totalPageNum + n, onePageCnt := s.onePageCnt + n } :=
  { h with total := (congrArg (· + n) h.total).trans (Int.add_assoc ..) }

theorem Balanced.same : s.scatters = t.scatters := h.stand

theorem Balanced.totalSum : s.totalPageNum = sumBy (fun slot => (slot.pageNum : Int)) s.slots + s.onePageCnt := h.total

theorem Balanced.pageSum {x : Nat} (hx : pageSid x ≠ onePageSid) :
    sumBy (heldCount x) s.scatters + t.fly x = sumBy (slotCount x) s.slots := h.pages x hx

theorem Balanced.frameSum (f : Nat) : (s.lent.count f : Int) = sumBy (frameCount f) s.slots +
    (sumBy (heldCount (onePage f)) s.scatters + t.fly (onePage f)) + t.others f := h.frames f

/-- The list of scatters changes; the terms take up the difference. -/
theorem Balanced.rescatter {t' : Terms} {l : List Scatter} {nextScatter : Nat} {freed : List Nat}
    (hnums : (l.map Scatter.num).Nodup) (hnumbered : ∀ b ∈ l, b.num < nextScatter) (hnext : s.nextScatter ≤ nextScatter)
    (hshaped : ∀ b ∈ l, Holds b (heldPages b)) (hothers : t'.others = t.others)
    (hlives : t'.lives = { t.lives with nextScatter, freed }) (hstand : t'.scatters = l)
    (hfly : ∀ x, sumBy (heldCount x) l + t'.fly x = sumBy (heldCount x) s.scatters + t.fly x)
    (hones : ∀ f, 0 ≤ t'.fly (onePage f)) (hgap : sumBy Scatter.pageCnt l + t'.gap = sumBy Scatter.pageCnt s.scatters + t.gap)
    (hcache : sumBy (lives s).cacheWeight l + t'.cacheGap = sumBy (lives s).cacheWeight s.scatters + t.cacheGap) :
    Balanced t' { s with scatters := l, nextScatter := nextScatter, freed := freed } := by
  refine { h with scatterNums := hnums, scatterNumbered := hnumbered, shaped := hshaped,
                  pages := fun x hx => (hfly x).trans (h.pages x hx), frames := fun f => ?_, flying := hones,
                  othersNonneg := hothers ▸ h.othersNonneg, alloced := h.alloced.trans hgap.symm,
                  cached := h.cached.trans hcache.symm,
                  cachesNumbered := fun n hn => Nat.lt_of_lt_of_le (h.cachesNumbered n hn) hnext, alive := ?_,
                  stand := hstand.symm }
  · dsimp only [books]
    rw [hfly, hothers]
    exact h.frames f
  · rw [hlives, ← h.alive]
    rfl

theorem Balanced.updateScatter {t' : Terms} {f : Scatter → Scatter} (hm : Has s n m)
    (hnum : ∀ b, (f b).num = b.num) (hheld : Holds (f m) held) (hothers : t'.others = t.others)
    (hlives : t'.lives = t.lives) (hstand : t'.scatters = update num n f s.scatters)
    (hfly : ∀ x, t'.fly x = t.fly x + heldCount x m - held.count x) (hones : ∀ f, 0 ≤ t'.fly (onePage f))
    (hgap : t'.gap = t.gap + m.pageCnt - (f m).pageCnt)
    (hcache : t'.cacheGap = t.cacheGap + if s.isCacheSc n then m.pageCnt - (f m).pageCnt else 0) :
    Balanced t' { s with scatters := update num n f s.scatters } := by
  have hsum : ∀ w : Scatter → Int, sumBy w (update num n f s.scatters) =
      sumBy w s.scatters - w m + w (f m) := fun w => sumBy_update w f h.scatterNums hm
  refine h.rescatter ?_ ?_ (Nat.le_refl _) ?_ hothers ?_ hstand (fun x => ?_) hones ?_ ?_
  · exact keys_update_nodup (fun b hb => (hnum b).trans hb) h.scatterNums
  · exact forall_update h.scatterNumbered fun b hb _ => by
      rw [hnum]
      exact h.scatterNumbered b hb
  · refine forall_update h.shaped fun b hb hbn => ?_
    rw [eq_of_lookup h.scatterNums hm hb hbn, hheld.held_eq]
    exact hheld
  · rw [hlives, ← h.alive]
    rfl
  · rw [hsum, hfly, Scatter.heldCount_eq hheld]
    omega
  · rw [hsum, hgap]
    omega
  · have hw : (lives s).cacheWeight m - (lives s).cacheWeight (f m) =
        if s.isCacheSc n then m.pageCnt - (f m).pageCnt else 0 := by
      rw [Lives.cacheWeight, Lives.cacheWeight, hnum, key_of_lookup hm]
      show (if s.isCacheSc n = true then m.pageCnt else 0) - (if s.isCacheSc n = true then (f m).pageCnt else 0) = _
      split <;> rfl
    rw [hsum, hcache]
    omega

/-- Pages leave a scatter for the flight. -/
theorem Balanced.popScatter {front back : List Nat}
    (hm : Has s n m) (hheld : Holds m (front ++ back)) :
    Balanced ((((t.plus back).ahead back.length).cacheAhead (if s.isCacheSc n then back.length else 0)).on
        (update num n (·.pop front.length back.length) s.scatters))
      { s with scatters := update num n (·.pop front.length back.length) s.scatters } := by
  have hpop := hheld.pop
  have hcnt : m.pageCnt = front.length + back.length := by
    rw [hheld.cnt, length_append]
    rfl
  refine h.updateScatter hm (fun _ => rfl) hpop rfl rfl rfl (fun x => ?_) (fun f => ?_) ?_ ?_
  · show t.fly x + back.count x = t.fly x + heldCount x m - front.count x
    rw [Scatter.heldCount_eq hheld, count_append]
    omega
  · have hfly := h.flying f
    show 0 ≤ t.fly (onePage f) + back.count (onePage f)
    omega
  · dsimp only [books, Terms.on, Terms.ahead, Terms.cacheAhead, Terms.plus]
    rw [hpop.cnt]
    omega
  · show t.cacheGap + _ = t.cacheGap + _
    rw [hpop.cnt, hcnt]
    split <;> omega

end

theorem Balanced.pushScatter {pages : List Nat} (h : Balanced ((t.plus pages).ahead pages.length) s)
    (hfly : ∀ f, 0 ≤ t.fly (onePage f)) (hm : Has s n m) (hheld : Holds m held)
    (hpages : 0 ∉ pages) (hroom : (held.length : Int) + pages.length ≤ m.pageMaxCnt) :
    Balanced ((t.cacheAhead (if s.isCacheSc n then -pages.length else 0)).on
        (update num n (·.push pages) s.scatters))
      { s with scatters := update num n (·.push pages) s.scatters } := by
  have hpush := hheld.push hpages hroom
  have hcnt := hheld.cnt
  refine h.updateScatter hm (fun _ => rfl) hpush rfl rfl rfl (fun x => ?_) hfly ?_ ?_
  · dsimp only [books, Terms.on, Terms.ahead, Terms.cacheAhead, Terms.plus]
    rw [Scatter.heldCount_eq hheld, count_append]
    omega
  · show t.gap = t.gap + pages.length + m.pageCnt - (m.push pages).pageCnt
    rw [hpush.cnt, length_append]
    omega
  · show t.cacheGap + _ = t.cacheGap + _
    rw [hpush.cnt, length_append, hcnt]
    split <;> omega

section
variable (h : Balanced t s)
include h

theorem Balanced.touchScatter {f : Scatter → Scatter} (hnum : ∀ b, (f b).num = b.num)
    (hholds : ∀ b held, Holds b held → Holds (f b) held) :
    Balanced (t.on (update num n f s.scatters)) { s with scatters := update num n f s.scatters } := by
  cases hm : lookup num n s.scatters with
  | none =>
    rw [show update num n f s.scatters = s.scatters from update_of_none f hm]
    exact { h with stand := rfl }
  | some m =>
    have hheld := h.shaped m (mem_of_lookup hm)
    have hcnt : (f m).pageCnt = m.pageCnt := (hholds m _ hheld).cnt.trans hheld.cnt.symm
    refine h.updateScatter hm hnum (hholds m _ hheld) rfl rfl rfl (fun x => ?_) h.flying ?_ ?_
    · dsimp only [books, Terms.on, Terms.plus]
      rw [heldCount]
      omega
    · show t.gap = t.gap + m.pageCnt - (f m).pageCnt
      omega
    · show t.cacheGap = t.cacheGap + _
      rw [hcnt, Int.sub_self, ite_self, Int.add_zero]

/-! ### Slots -/

/-- A slot of the list changes its pagemap; the pages go into flight or come back. -/
theorem Balanced.putSlot {fly : Nat → Int} {slot' : Slot}
    (hslot : lookup Slot.num slot'.num s.slots = some slot) (hphy : slot'.phyAddr = slot.phyAddr)
    (hnum : slot'.pageNum = slot.pageNum) (hmapped : Mapped slot') (hidle : slot'.onAllocFree = 0)
    (hfly : ∀ x, pageSid x ≠ onePageSid → fly x = t.fly x + slotCount x slot' - slotCount x slot)
    (hones : ∀ f, fly (onePage f) = t.fly (onePage f))
    (hlisted : slot'.num ∈ s.freeList → slot'.allocedPageNum < slot'.pageNum) :
    Balanced { t with fly := fly } (putSlot slot' s) := by
  have hkey : ∀ b, Slot.num b = slot'.num → Slot.num slot' = slot'.num := fun _ _ => rfl
  have hsum : ∀ w : Slot → Int, sumBy w (update Slot.num slot'.num (fun _ => slot') s.slots) =
      sumBy w s.slots - w slot + w slot' := fun w => sumBy_update w _ h.slotNums hslot
  have hframe : ∀ f, frameCount f slot' = frameCount f slot := fun f => by
    rw [frameCount_eq, frameCount_eq, hphy, hnum]
  refine { h with slotNums := ?_, slotNumbered := ?_, mapped := ?_, listed := fun n hn => ?_,
                  pages := fun x hx => ?_, frames := fun f => ?_, flying := fun f => ?_, total := ?_ }
  · show ((update Slot.num slot'.num (fun _ => slot') s.slots).map Slot.num).Nodup
    exact keys_update_nodup hkey h.slotNums
  · exact forall_update h.slotNumbered fun b hb hbn => hbn ▸ h.slotNumbered b hb
  · exact forall_update h.mapped fun _ _ _ => ⟨hmapped, hidle⟩
  · obtain ⟨other, hother, rfl, hfree⟩ := h.listed n hn
    by_cases heq : other.num = slot'.num
    · exact ⟨slot', mem_update_self hother heq, heq.symm, hlisted (heq ▸ hn)⟩
    · exact ⟨other, mem_update_ne hother heq, rfl, hfree⟩
  · have hp := h.pageSum hx
    show sumBy (heldCount x) s.scatters + fly x = sumBy (slotCount x) (update Slot.num slot'.num (fun _ => slot') s.slots)
    rw [hsum, hfly x hx]
    omega
  · have hf := h.frameSum f
    show (s.lent.count f : Int) = sumBy (frameCount f) (update Slot.num slot'.num (fun _ => slot') s.slots) +
        (sumBy (heldCount (onePage f)) s.scatters + fly (onePage f)) + t.others f
    rw [hsum, hones, hframe]
    omega
  · dsimp only
    rw [hones]
    exact h.flying f
  · have ht := h.totalSum
    show s.totalPageNum = sumBy (fun slot => (slot.pageNum : Int))
      (update Slot.num slot'.num (fun _ => slot') s.slots) + s.onePageCnt
    rw [hsum, hnum]
    omega

theorem Balanced.relist (hslot : slot ∈ s.slots) : Balanced t (relistSlot slot s) := by
  rw [relistSlot]
  split
  next hfree =>
    refine { h with listed := fun n hn => ?_ }
    rcases mem_append.mp (show n ∈ s.freeList ++ [slot.num] from hn) with hin | hin
    · exact h.listed n hin
    · exact ⟨slot, hslot, (mem_singleton.mp hin).symm, hfree.2⟩
  next => exact h

theorem Balanced.delist (num : Nat) : Balanced t { s with freeList := s.freeList.filter (· ≠ num) } :=
  { h with listed := fun n hn => h.listed n (mem_filter.mp hn).1 }

/-- A range of pages as the allocators hand it out. -/
structure Range (addr n : Nat) : Prop where
  aligned : addr % 0x1000 = 0
  above : 0 < addr
  nonempty : 0 < n
  below : addr / 0x1000 + n ≤ 0x100000

omit h in
theorem suitable_range {lent : List Nat} {frame : Nat} (h : suitable lent frame n = true) :
    Range (frame * pageSize) n ∧ ∀ i < n, frame + i ∉ lent := by
  simp only [suitable, Bool.and_eq_true, decide_eq_true_eq, all_eq_true, mem_range,
    Bool.not_eq_true', contains_eq_mem, decide_eq_false_iff_not] at h
  obtain ⟨⟨⟨habove, hsome⟩, hbelow⟩, hout⟩ := h
  rw [pageSize]
  exact ⟨⟨by omega, by omega, hsome, by omega⟩, hout⟩

omit h in
theorem count_filter_range (lent : List Nat) (frame n f : Nat) :
    (lent.filter fun g => !inRange frame n g).count f = if inRange frame n f then 0 else lent.count f := by
  split
  next hin => exact count_eq_zero.mpr fun hmem => by simp [hin] at hmem
  next hout => exact count_filter (by simpa using hout)

/-- A range is lent. -/
theorem Balanced.lend {frame : Nat} (hs : suitable s.lent frame n = true) :
    Balanced (t.lent (frame * pageSize) n) { s with lent := (List.range n).map (frame + ·) ++ s.lent } := by
  obtain ⟨_, hout⟩ := suitable_range hs
  have hframe : frame * pageSize / pageSize = frame := Nat.mul_div_cancel frame (by decide)
  have hcount : ∀ f, ((List.range n).map (frame + ·) ++ s.lent).count f =
      (if inRange frame n f then 1 else 0) + s.lent.count f := fun f => by
    rw [count_append, count_range_map]
  refine { h with frames := fun f => ?_, lentOnce := fun f => ?_, othersNonneg := fun f => ?_ }
  · have hf := h.frameSum f
    dsimp only [books, Terms.lent]
    rw [hcount, hframe]
    split <;> omega
  · dsimp only [books]
    have honce : s.lent.count f ≤ 1 := h.lentOnce f
    rw [hcount]
    split
    next hin =>
      simp only [inRange, Bool.and_eq_true, decide_eq_true_eq] at hin
      have hnot := hout (f - frame) (by omega)
      rw [show frame + (f - frame) = f by omega] at hnot
      have hzero := count_eq_zero.mpr hnot
      omega
    next => omega
  · have := h.othersNonneg f
    dsimp only [books, Terms.lent]
    split <;> omega

theorem Balanced.restNonneg (f : Nat) :
    0 ≤ sumBy (frameCount f) s.slots ∧ 0 ≤ sumBy (heldCount (onePage f)) s.scatters ∧
      0 ≤ t.fly (onePage f) ∧ 0 ≤ t.others f :=
  ⟨sumBy_nonneg (frameCount_nonneg f _), sumBy_nonneg (heldCount_nonneg _ _), h.flying f, h.othersNonneg f⟩

theorem Balanced.filterOnce (frame n f : Nat) : (s.lent.filter fun g => !inRange frame n g).count f ≤ 1 := by
  have honce : s.lent.count f ≤ 1 := h.lentOnce f
  rw [count_filter_range]
  split <;> omega

end

/-- What is left of a frame when a range goes back that it was counted for. -/
theorem filter_count {lent : List Nat} {frame n f : Nat} {rest : Int} (honce : lent.count f ≤ 1) (hrest : 0 ≤ rest)
    (hcount : (lent.count f : Int) = rest + if inRange frame n f then 1 else 0) :
    ((lent.filter fun g => !inRange frame n g).count f : Int) = rest := by
  rw [count_filter_range]
  split at hcount
  next hin =>
    rw [if_pos hin]
    omega
  next hout =>
    rw [if_neg hout]
    omega

theorem Balanced.giveBack (h : Balanced (t.lent addr n) s) (hnonneg : ∀ f, 0 ≤ t.others f) :
    Balanced t { s with lent := s.lent.filter fun f => !inRange (addr / pageSize) n f } := by
  refine { h with frames := fun f => ?_, lentOnce := h.filterOnce _ n, othersNonneg := hnonneg }
  have hf : _ = _ + (_ + t.fly (onePage f)) + (t.others f + if inRange (addr / pageSize) n f then 1 else 0) := h.frameSum f
  obtain ⟨h1, h2, h3, _⟩ := h.restNonneg f
  have h3 : 0 ≤ t.fly (onePage f) := h3
  have h4 := hnonneg f
  refine filter_count (h.lentOnce f) ?_ (hf.trans (Int.add_assoc ..).symm)
  dsimp only [books]
  omega

theorem newSlot_mapped {num : Nat} {fromType : SlotFrom} (hr : Range addr n) :
    Mapped { num, fromType, pagemap := fun _ => false, phyAddr := addr, pagemapSize := n / 8 + 2, pageNum := n,
             allocedPageNum := 0, nextBit := 0, sid := slotToSid addr, onAllocFree := 0 } where
  aligned := hr.aligned
  above := hr.above
  below := hr.below
  hashed := Nat.mod_lt _ (by decide)
  bits := fun _ hbit => Bool.noConfusion hbit
  counted := by
    rw [marked, Lib.Bitmap.ones_false]
    rfl
  next := hr.nonempty
  room := by
    show n ≤ (n / 8 + 2) * 8
    omega

theorem slotIds_of_clear (h : Mapped slot) (hnone : slot.allocedPageNum = 0) : slotIds slot = [] := by
  have hlen := h.counted
  rw [slotIds, length_eq_zero_iff.mp (by omega : (marked slot).length = 0)]
  rfl

theorem sumBy_append_single {α : Type} (w : α → Int) (l : List α) (a : α) : sumBy w (l ++ [a]) = sumBy w l + w a := by
  rw [sumBy_append, sumBy_cons, sumBy_nil, Int.add_zero]

/-- A range that was lent becomes a slot. -/
theorem Balanced.addSlot (h : Balanced (t.lent addr n) s) (hnonneg : ∀ f, 0 ≤ t.others f) (hphy : slot.phyAddr = addr)
    (hpages : slot.pageNum = n) (hnum : slot.num = s.nextSlot) (hmapped : Mapped slot) (hidle : slot.onAllocFree = 0)
    (hnone : slot.allocedPageNum = 0) : Balanced t { s with
      slots := s.slots ++ [slot], freeList := s.freeList ++ [s.nextSlot], nextSlot := s.nextSlot + 1,
      totalPageNum := s.totalPageNum + n, slotCnt := s.slotCnt + 1 } := by
  refine { h with slotNums := ?_, slotNumbered := ?_, mapped := ?_, listed := fun k hk => ?_,
                  pages := fun x hx => ?_, frames := fun f => ?_, othersNonneg := hnonneg, total := ?_ }
  · exact keys_append_nodup h.slotNums fun b hb => Nat.ne_of_lt (hnum ▸ h.slotNumbered b hb)
  · refine forall_append_single (fun b hb => Nat.lt_succ_of_lt (h.slotNumbered b hb)) ?_
    rw [hnum]
    exact Nat.lt_succ_self _
  · exact forall_append_single h.mapped ⟨hmapped, hidle⟩
  · rcases mem_append.mp (show k ∈ s.freeList ++ [s.nextSlot] from hk) with hk | hk
    · obtain ⟨other, hother, hkey, hfree⟩ := h.listed k hk
      exact ⟨other, mem_append_left _ hother, hkey, hfree⟩
    refine ⟨slot, mem_append_right _ (mem_singleton.mpr rfl), ?_, ?_⟩
    · rw [hnum, mem_singleton.mp hk]
    · have := hmapped.next
      omega
  · have hp : _ + t.fly x = _ := h.pageSum hx
    dsimp only [books]
    rw [sumBy_append_single, slotCount, slotIds_of_clear hmapped hnone, hp]
    exact (Int.add_zero _).symm
  · have hf : _ = _ + (_ + t.fly (onePage f)) + (t.others f + if inRange (addr / pageSize) n f then 1 else 0) := h.frameSum f
    dsimp only [books]
    rw [sumBy_append_single, frameCount_eq, hphy, hpages]
    omega
  · have ht := h.totalSum
    dsimp only [books]
    rw [sumBy_append_single, hpages]
    omega

/-- A slot without pages in use leaves the lists, and its range goes back. -/
theorem Balanced.dropSlot (h : Balanced t s) (hslot : HasSlot s slot)
    (hnone : slot.allocedPageNum = 0) : Balanced t (releaseSlot slot s) := by
  have hmapped := (h.mapped slot (mem_of_lookup hslot)).1
  have hsum : ∀ w : Slot → Int, sumBy w (remove Slot.num slot.num s.slots) = sumBy w s.slots - w slot :=
    fun w => sumBy_remove w h.slotNums hslot
  have hsub : ∀ b ∈ remove Slot.num slot.num s.slots, b ∈ s.slots := fun b hb => (mem_remove.mp hb).1
  refine { h with slotNums := keys_remove_nodup h.slotNums, slotNumbered := fun b hb => h.slotNumbered b (hsub b hb),
                  mapped := fun b hb => h.mapped b (hsub b hb), listed := fun k hk => ?_,
                  pages := fun x hx => ?_, frames := fun f => ?_, lentOnce := h.filterOnce _ _, total := ?_ }
  · obtain ⟨hin, hne⟩ := mem_filter.mp (show k ∈ s.freeList.filter (· ≠ slot.num) from hk)
    obtain ⟨other, hother, rfl, hfree⟩ := h.listed k hin
    exact ⟨other, mem_remove.mpr ⟨hother, by simpa using hne⟩, rfl, hfree⟩
  · have hp := h.pageSum hx
    show sumBy (heldCount x) s.scatters + t.fly x = sumBy (slotCount x) (remove Slot.num slot.num s.slots)
    rw [hsum, slotCount, slotIds_of_clear hmapped hnone, hp]
    exact (Int.sub_zero _).symm
  · have hf := h.frameSum f
    obtain ⟨_, h2, h3, h4⟩ := h.restNonneg f
    have hle := le_sumBy (mem_of_lookup hslot) (frameCount_nonneg f s.slots)
    have hslotf := frameCount_eq f slot
    refine filter_count (h.lentOnce f) ?_ ?_
    · dsimp only [books, releaseSlot]
      rw [hsum]
      omega
    · dsimp only [books, releaseSlot]
      rw [hsum, ← hslotf]
      omega
  · have ht := h.totalSum
    show s.totalPageNum - slot.pageNum = sumBy (fun slot => (slot.pageNum : Int))
      (remove Slot.num slot.num s.slots) + s.onePageCnt
    rw [hsum]
    omega

/-! ### Single pages -/

theorem addr2page_one (hr : Range addr 1) : addr2page addr onePageSid = onePage (addr / pageSize) := by
  have hbelow := hr.below
  rw [addr2page, onePage, onePageSid, sidMask, pageSize]
  omega

theorem onePage_inj {f g : Nat} (h : onePage f = onePage g) : f = g := by
  rw [onePage, onePage] at h
  omega

theorem count_single (frame f : Nat) : [onePage frame].count (onePage f) = if inRange frame 1 f then 1 else 0 := by
  rw [count_singleton]
  simp only [inRange, Bool.and_eq_true, decide_eq_true_eq, beq_iff_eq]
  by_cases heq : f = frame
  · rw [if_pos (by rw [heq]), if_pos (by omega)]
  · rw [if_neg fun hone => heq (onePage_inj hone).symm, if_neg (by omega)]

/-- A frame lent as a single page is a page in flight. -/
theorem Balanced.takeOne (h : Balanced (t.lent addr 1) s) (hnonneg : ∀ f, 0 ≤ t.others f)
    (hr : Range addr 1) : Balanced (t.plus [addr2page addr onePageSid]) s := by
  refine { h with pages := fun x hx => ?_, frames := fun f => ?_, flying := fun f => ?_, othersNonneg := hnonneg }
  · have hnot : [addr2page addr onePageSid].count x = 0 := by
      rw [count_eq_zero, mem_singleton, addr2page_one hr]
      rintro rfl
      exact hx (pageSid_onePage _)
    have hp : _ + t.fly x = _ := h.pageSum hx
    dsimp only [books, Terms.plus]
    omega
  · have hf : _ = _ + (_ + t.fly (onePage f)) + (t.others f + if inRange (addr / pageSize) 1 f then 1 else 0) := h.frameSum f
    dsimp only [books, Terms.plus]
    rw [addr2page_one hr, count_single]
    split at hf <;> split <;> first | omega | contradiction
  · have hfly : 0 ≤ t.fly (onePage f) := h.flying f
    dsimp only [books, Terms.plus]
    omega

theorem eq_onePage {page : Nat} (h : pageSid page = onePageSid) : page = onePage (pageAddr page / pageSize) := by
  rw [pageSid, onePageSid, sidMask] at h
  rw [onePage, pageAddr, pageSize]
  omega

/-- A single page in flight goes back. -/
theorem Balanced.giveOne {page : Nat} (h : Balanced (t.plus [page]) s) (hone : pageSid page = onePageSid)
    (hfly : ∀ f, 0 ≤ t.fly (onePage f)) :
    Balanced t { s with lent := s.lent.filter fun f => !inRange (pageAddr page / pageSize) 1 f } := by
  have hpage := eq_onePage hone
  have hcount : ∀ f, ([page].count (onePage f) : Int) = if inRange (pageAddr page / pageSize) 1 f then 1 else 0 := fun f => by
    rw [(congrArg (fun p => [p].count (onePage f)) hpage).trans (count_single _ f)]
    split <;> rfl
  refine { h with pages := fun x hx => ?_, frames := fun f => ?_, lentOnce := h.filterOnce _ 1, flying := hfly }
  · have hnot : [page].count x = 0 := by
      rw [count_eq_zero, mem_singleton]
      rintro rfl
      exact hx hone
    have hp : _ + (t.fly x + [page].count x) = _ := h.pageSum hx
    dsimp only [books]
    omega
  · have hf : _ = _ + (_ + (t.fly (onePage f) + [page].count (onePage f))) + t.others f := h.frameSum f
    obtain ⟨h1, h2, _, h4⟩ := h.restNonneg f
    have h4 : 0 ≤ t.others f := h4
    have h3 := hfly f
    rw [hcount] at hf
    refine filter_count (h.lentOnce f) ?_ (hf.trans ?_)
    all_goals
      dsimp only [books]
      omega

/-! ### Scatters and caches -/

theorem newScatter_holds (num : Nat) {maxPage : Int} (h : 0 ≤ maxPage) : Holds (newScatter num maxPage) [] :=
  ⟨rfl, rfl, h, rfl, not_mem_nil⟩

/-- A scatter without pages is added. -/
theorem Balanced.addScatter {maxPage : Int} (h : Balanced t s) (hmax : 0 ≤ maxPage) : Balanced { t with
        lives := { t.lives with nextScatter := s.nextScatter + 1 }
        scatters := s.scatters ++ [newScatter s.nextScatter maxPage] }
      { s with scatters := s.scatters ++ [newScatter s.nextScatter maxPage], nextScatter := s.nextScatter + 1 } := by
  have hholds := newScatter_holds s.nextScatter hmax
  have hsum : ∀ w : Scatter → Int, w (newScatter s.nextScatter maxPage) = 0 →
      sumBy w (s.scatters ++ [newScatter s.nextScatter maxPage]) = sumBy w s.scatters := fun w hw => by
    rw [sumBy_append_single, hw, Int.add_zero]
  refine h.rescatter ?_ ?_ (Nat.le_succ _) ?_ rfl ?_ rfl (fun x => ?_) h.flying ?_ ?_
  · exact keys_append_nodup h.scatterNums fun b hb => Nat.ne_of_lt (h.scatterNumbered b hb)
  · exact forall_append_single (fun b hb => Nat.lt_succ_of_lt (h.scatterNumbered b hb)) (Nat.lt_succ_self _)
  · refine forall_append_single h.shaped ?_
    exact hholds
  · rw [← h.alive]
    rfl
  · rw [hsum _ (Scatter.heldCount_eq hholds x)]
  · rw [hsum Scatter.pageCnt rfl]
  · rw [hsum (lives s).cacheWeight (ite_self _)]

/-- A scatter without pages is freed. -/
theorem Balanced.dropScatter {freed : List Nat} (h : Balanced t s)
    (hm : Has s n m) (hnone : Holds m []) :
    Balanced { t with
        lives := { t.lives with freed }
        scatters := remove num n s.scatters }
      { s with scatters := remove num n s.scatters, freed := freed } := by
  have hsum : ∀ w : Scatter → Int, w m = 0 → sumBy w (remove num n s.scatters) = sumBy w s.scatters :=
    fun w hw => by
      have hnums : (s.scatters.map Scatter.num).Nodup := h.scatterNums
      rw [sumBy_remove w hnums hm, hw, Int.sub_zero]
  have hsub : ∀ b ∈ remove num n s.scatters, b ∈ s.scatters := fun b hb => (mem_remove.mp hb).1
  refine h.rescatter (keys_remove_nodup h.scatterNums) (fun b hb => h.scatterNumbered b (hsub b hb)) (Nat.le_refl _)
    (fun b hb => h.shaped b (hsub b hb)) rfl ?_ rfl (fun x => ?_) h.flying ?_ ?_
  · rw [← h.alive]
    rfl
  · rw [hsum _ (Scatter.heldCount_eq hnone x)]
  · rw [hsum Scatter.pageCnt hnone.cnt]
  · have hw : (lives s).cacheWeight m = 0 := by
      rw [Lives.cacheWeight, hnone.cnt]
      exact ite_self _
    rw [hsum _ hw]

/-- The lists of scatters change, and nothing else. -/
theorem Balanced.relive (h : Balanced t s) (s' : Sc) (hb : books s' = { books s with lives := lives s' })
    (h0 : s'.cacheSc0 = s.cacheSc0) (h1 : s'.cacheSc1 = s.cacheSc1) (hnext : s'.nextScatter = s.nextScatter)
    (hlist : ∀ n ∈ s'.scatterList, s.isCacheSc n = false) : Balanced { t with lives := lives s' } s' := by
  rw [Balanced, hb]
  have hweight : (lives s').cacheWeight = (lives s).cacheWeight := by
    funext m
    dsimp only [books, lives]
    rw [h0, h1]
    rfl
  have hcache : ∀ n, (lives s').isCache n = s.isCacheSc n := fun n => by
    rw [Lives.isCache, show (lives s').cacheSc0 = s.cacheSc0 from h0, show (lives s').cacheSc1 = s.cacheSc1 from h1]
    rfl
  refine { h with scatterNumbered := fun m hm => ?_, cached := ?_, cachesNumbered := fun n hn => ?_,
                  cachesUnlisted := fun n hn => (hcache n).trans (hlist n hn), alive := rfl }
  · show m.num < s'.nextScatter
    rw [hnext]
    exact h.scatterNumbered m hm
  · rw [hweight]
    exact h.cached
  · show n < s'.nextScatter
    rw [hnext]
    exact h.cachesNumbered n ((hcache n).symm.trans hn)

def Lives.recached (l : Lives) (mms0 mms1 : Option Nat) : Lives := { l with cacheSc0 := mms0, cacheSc1 := mms1 }

theorem Lives.isCache_recached {l : Lives} {mms0 mms1 : Option Nat} :
    (l.recached mms0 mms1).isCache n = true ↔ mms0 = some n ∨ mms1 = some n := by
  rw [Lives.isCache, Bool.or_eq_true, beq_iff_eq, beq_iff_eq]
  rfl

/-- Other scatters become the caches, and the counter is set. -/
theorem Balanced.recache (h : Balanced t s) (mms0 mms1 : Option Nat) (cached : Int)
    (hnew : ∀ n, mms0 = some n ∨ mms1 = some n → n < t.lives.nextScatter ∧ n ∉ t.lives.scatterList) : Balanced { t with
        cacheGap := cached - sumBy (t.lives.recached mms0 mms1).cacheWeight t.scatters
        lives := t.lives.recached mms0 mms1 } { s with cacheSc0 := mms0, cacheSc1 := mms1, cachedPages := cached } := by
  have hlives : lives { s with cacheSc0 := mms0, cacheSc1 := mms1, cachedPages := cached } =
      t.lives.recached mms0 mms1 := by
    rw [← h.alive]
    rfl
  refine { h with cached := ?_, cachesNumbered := fun n hn => ?_, cachesUnlisted := fun n hn => ?_, alive := hlives }
  · dsimp only [books]
    rw [hlives, h.same]
    omega
  · show n < s.nextScatter
    rw [show s.nextScatter = t.lives.nextScatter from congrArg Lives.nextScatter h.alive]
    have hn : (lives { s with cacheSc0 := mms0, cacheSc1 := mms1, cachedPages := cached }).isCache n = true := hn
    rw [hlives] at hn
    exact (hnew n (Lives.isCache_recached.mp hn)).1
  · dsimp only [books]
    rw [hlives, Bool.eq_false_iff]
    intro hc
    refine (hnew n (Lives.isCache_recached.mp hc)).2 ?_
    rw [← h.alive]
    exact hn

end Moves

end AmlogicV901d.Guarantees.ScatterLedger
