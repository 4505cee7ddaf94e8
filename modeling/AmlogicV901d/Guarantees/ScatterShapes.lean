import AmlogicV901d.Source.CodecMm.Scatter

/-!
# Slots and scatters one by one

A slot in order: its bits are those of its pages, and the counter is their number. A
scatter in order: its page list is the pages it holds and zeros behind them. What taking
and giving back pages does to one slot, and pushing and popping pages to one scatter.
-/
namespace AmlogicV901d.Guarantees.ScatterShapes
open Source.CodecMmScatter Lib.Bitmap List

/-! ## Slots -/

def marked (slot : Slot) : List Nat := ones slot.pagemap slot.pageNum

/-- The ids of the pages that are taken. -/
def slotIds (slot : Slot) : List Nat := (marked slot).map slot.pageId

def slotFrames (slot : Slot) : List Nat := (List.range slot.pageNum).map (slot.phyAddr / pageSize + ·)

structure Mapped (slot : Slot) : Prop where
  aligned : slot.phyAddr % 0x1000 = 0
  above : 0 < slot.phyAddr
  below : slot.phyAddr / 0x1000 + slot.pageNum ≤ 0x100000
  hashed : slot.sid < maxSid
  bits : ∀ i, slot.pagemap i = true → i < slot.pageNum
  counted : slot.allocedPageNum = (marked slot).length
  next : slot.nextBit < slot.pageNum
  room : slot.pageNum ≤ slot.pagemapSize * 8

section Ids
variable {slot : Slot} (h : Mapped slot) {i : Nat} (hi : i < slot.pageNum)
include h hi

theorem pageId_eq : slot.pageId i = slot.phyAddr + 0x1000 * i + slot.sid := by
  have hal := h.aligned
  have hbelow := h.below
  have hsid := h.hashed
  simp only [maxSid, sidMask] at hsid
  rw [Slot.pageId, addr2page, pageSize]
  omega

theorem pageSid_pageId : pageSid (slot.pageId i) = slot.sid := by
  have hal := h.aligned
  have hsid := h.hashed
  simp only [maxSid, sidMask] at hsid
  rw [pageId_eq h hi, pageSid]
  omega

theorem pageAddr_pageId : pageAddr (slot.pageId i) = slot.phyAddr + 0x1000 * i := by
  have hal := h.aligned
  have hsid := h.hashed
  simp only [maxSid, sidMask] at hsid
  rw [pageId_eq h hi, pageAddr]
  omega

theorem pageId_ne_zero : slot.pageId i ≠ 0 := by
  have habove := h.above
  rw [pageId_eq h hi]
  omega

theorem pageId_not_one : pageSid (slot.pageId i) ≠ onePageSid := by
  rw [pageSid_pageId h hi]
  exact Nat.ne_of_lt (Nat.lt_of_lt_of_le h.hashed (Nat.sub_le _ _))

end Ids

/-- What taking pages does to a slot. -/
structure Taken (slot : Slot) (pages : List Nat) (slot' : Slot) : Prop where
  mapped : Mapped slot'
  num : slot'.num = slot.num
  phyAddr : slot'.phyAddr = slot.phyAddr
  pageNum : slot'.pageNum = slot.pageNum
  onAllocFree : slot'.onAllocFree = slot.onAllocFree
  ids : ∀ x, (slotIds slot').count x = (slotIds slot).count x + pages.count x
  alloced : slot'.allocedPageNum = slot.allocedPageNum + pages.length
  filled : 0 ∉ pages
  slotPages : ∀ p ∈ pages, pageSid p ≠ onePageSid

variable {slot : Slot}

theorem Taken.refl (h : Mapped slot) : Taken slot [] slot :=
  ⟨h, rfl, rfl, rfl, rfl, fun _ => rfl, (Int.add_zero _).symm, not_mem_nil, nofun⟩

theorem Taken.trans {slot slot' slot'' : Slot} {pages pages' : List Nat} (h : Taken slot pages slot')
    (h' : Taken slot' pages' slot'') : Taken slot (pages ++ pages') slot'' where
  mapped := h'.mapped
  num := h'.num.trans h.num
  phyAddr := h'.phyAddr.trans h.phyAddr
  pageNum := h'.pageNum.trans h.pageNum
  onAllocFree := h'.onAllocFree.trans h.onAllocFree
  ids x := by rw [h'.ids, h.ids, count_append, Nat.add_assoc]
  alloced := by
    rw [h'.alloced, h.alloced, length_append]
    omega
  filled hin := (mem_append.mp hin).elim h.filled h'.filled
  slotPages p hp := (mem_append.mp hp).elim (h.slotPages p) (h'.slotPages p)

variable {i : Nat}

theorem taken_setBit (h : Mapped slot) (hi : i < slot.pageNum) (hclear : slot.pagemap i = false) :
    Taken slot [slot.pageId i] { slot.setBit i true with allocedPageNum := slot.allocedPageNum + 1 } := by
  have hperm := ones_set hi hclear
  refine ⟨{ h with bits := fun j hj => ?_, counted := ?_ }, rfl, rfl, rfl, rfl,
    fun x => ?_, rfl, ?_, ?_⟩
  · by_cases heq : j = i
    · exact heq ▸ hi
    · exact h.bits j ((setBit_ne _ heq).symm.trans hj)
  · have hlen : (marked (slot.setBit i true)).length = (marked slot).length + 1 := hperm.length_eq
    exact (congrArg (· + 1) h.counted).trans (congrArg Int.ofNat hlen).symm
  · have hids : (slotIds { slot.setBit i true with allocedPageNum := slot.allocedPageNum + 1 }).Perm
        (slot.pageId i :: slotIds slot) := hperm.map slot.pageId
    rw [hids.count_eq, count_cons, count_singleton]
  · rw [mem_singleton]
    exact (pageId_ne_zero h hi).symm
  · intro p hp
    rw [mem_singleton.mp hp]
    exact pageId_not_one h hi

theorem next_lt {i n : Nat} (h : i < n) : (if i + 1 ≥ n then 0 else i + 1) < n := by
  split <;> omega

theorem slotAllocLoop_taken (h : Mapped slot) (tryn need : Nat) (hi : i < slot.pageNum) :
    Taken slot (slotAllocLoop tryn need i slot).1 (slotAllocLoop tryn need i slot).2.2 ∧
      (slotAllocLoop tryn need i slot).1.length ≤ need ∧ (slotAllocLoop tryn need i slot).2.1 < slot.pageNum := by
  induction tryn generalizing need i slot with
  | zero => exact ⟨.refl h, Nat.zero_le _, hi⟩
  | succ tryn ih =>
    rw [slotAllocLoop]
    split
    next => exact ⟨.refl h, Nat.zero_le _, hi⟩
    next hgo =>
      dsimp only
      split
      next => exact ih h need (next_lt hi)
      next hclear =>
        have htaken := taken_setBit h hi (Bool.eq_false_iff.mpr hclear)
        obtain ⟨hrest, hlen, hlast⟩ := ih htaken.mapped (need - 1) (next_lt hi)
        exact ⟨htaken.trans hrest, Nat.le_trans (Nat.succ_le_succ hlen) (by omega), hlast⟩

theorem Mapped.nextBit (h : Mapped slot) (hi : i < slot.pageNum) : Mapped { slot with nextBit := i } :=
  { h with next := hi }

theorem slotAllocPages_taken (h : Mapped slot) (num : Nat) :
    Taken slot (codecMmSlotAllocPages slot num).1 (codecMmSlotAllocPages slot num).2 ∧
      (codecMmSlotAllocPages slot num).1.length ≤ num := by
  rw [codecMmSlotAllocPages]
  split
  next => exact ⟨.refl h, Nat.zero_le _⟩
  next =>
    obtain ⟨htaken, hlen, hlast⟩ := slotAllocLoop_taken h slot.pageNum
      (min num (slot.pageNum - slot.allocedPageNum).toNat) h.next
    refine ⟨{ htaken with mapped := ?_ }, Nat.le_trans hlen (Nat.min_le_left _ _)⟩
    refine htaken.mapped.nextBit ?_
    rw [htaken.pageNum]
    split <;> omega

/-- A page that is taken goes back. -/
theorem slotFreePage_taken (h : Mapped slot) (hset : slot.pagemap i = true) :
    Taken (codecMmSlotFreePage slot (slot.phyAddr + 0x1000 * i)).2 [slot.pageId i] slot ∧
      Mapped (codecMmSlotFreePage slot (slot.phyAddr + 0x1000 * i)).2 := by
  have hi := h.bits i hset
  have hroom := h.room
  have hbit : (slot.phyAddr + 0x1000 * i - slot.phyAddr) / pageSize = i := by
    rw [pageSize]
    omega
  have hvalid : slot.validBit i = true := by
    rw [Slot.validBit, decide_eq_true_eq]
    omega
  have hfree : (codecMmSlotFreePage slot (slot.phyAddr + 0x1000 * i)).2 =
      { slot.setBit i false with allocedPageNum := slot.allocedPageNum - 1 } := by
    rw [codecMmSlotFreePage, hbit]
    rw [if_neg (by omega), hvalid, hset]
    rfl
  rw [hfree]
  have hlen : (marked slot).length = (marked (slot.setBit i false)).length + 1 := (ones_clear hi hset).length_eq
  have hcounted := h.counted
  have hmapped : Mapped { slot.setBit i false with allocedPageNum := slot.allocedPageNum - 1 } := by
    refine { h with bits := fun j hj => ?_, counted := ?_ }
    · by_cases heq : j = i
      · exact heq ▸ hi
      · exact h.bits j ((setBit_ne _ heq).symm.trans hj)
    · show slot.allocedPageNum - 1 = ((marked (slot.setBit i false)).length : Int)
      omega
  -- taking the page again gives back the slot
  have hagain := taken_setBit hmapped hi (setBit_self ..)
  have hback : setBit (setBit slot.pagemap i false) i true = slot.pagemap := by
    funext j
    by_cases heq : j = i
    · rw [heq, setBit_self, hset]
    · rw [setBit_ne _ heq, setBit_ne _ heq]
  rw [Slot.setBit, Slot.setBit, hback, Int.sub_add_cancel] at hagain
  exact ⟨hagain, hmapped⟩

/-! ## Scatters -/

/-- The pages of a scatter. -/
def heldPages (m : Scatter) : List Nat := m.pagesList.take m.pageCnt.toNat

structure Holds (m : Scatter) (held : List Nat) : Prop where
  cnt : m.pageCnt = held.length
  tail : m.pageTail = held.length - 1
  room : (held.length : Int) ≤ m.pageMaxCnt
  list : m.pagesList = held ++ List.replicate (m.pageMaxCnt.toNat - held.length) 0
  filled : 0 ∉ held

theorem Holds.held_eq {m : Scatter} {held : List Nat} (h : Holds m held) : heldPages m = held := by
  rw [heldPages, h.list, h.cnt, Int.toNat_natCast, take_left]

theorem Holds.frame {m m' : Scatter} {held : List Nat} (h : Holds m held) (hcnt : m'.pageCnt = m.pageCnt)
    (htail : m'.pageTail = m.pageTail) (hmax : m'.pageMaxCnt = m.pageMaxCnt)
    (hlist : m'.pagesList = m.pagesList) : Holds m' held :=
  ⟨hcnt.trans h.cnt, htail.trans h.tail, hmax ▸ h.room, by rw [hlist, hmax]; exact h.list, h.filled⟩

theorem writeAt_behind (held zeros pages : List Nat) :
    writeAt (held ++ zeros) held.length pages = held ++ pages ++ zeros.drop pages.length := by
  rw [writeAt, take_left, drop_append, drop_of_length_le (Nat.le_add_right _ _), nil_append,
    Nat.add_sub_cancel_left]

theorem Holds.push {m : Scatter} {held pages : List Nat} (h : Holds m held) (hpages : 0 ∉ pages)
    (hroom : (held.length : Int) + pages.length ≤ m.pageMaxCnt) : Holds (m.push pages) (held ++ pages) := by
  have hcnt := h.cnt
  have htail := h.tail
  refine ⟨?_, ?_, ?_, ?_, fun hin => (mem_append.mp hin).elim h.filled hpages⟩
  · show m.pageCnt + pages.length = _
    rw [hcnt, length_append]
    rfl
  · show m.pageTail + pages.length = _
    rw [htail, length_append]
    omega
  · rw [length_append]
    exact hroom
  · show writeAt m.pagesList (m.pageTail + 1).toNat pages = _
    have hoff : (m.pageTail + 1).toNat = held.length := by omega
    rw [hoff, h.list, writeAt_behind, drop_replicate, length_append, Nat.sub_sub]
    rfl

section Pop
variable {m : Scatter} {front back : List Nat} (h : Holds m (front ++ back))
include h

theorem Holds.pagesAt : m.pagesAt front.length back.length = back := by
  rw [Scatter.pagesAt, Int.toNat_natCast, h.list, append_assoc, drop_left, take_left]

theorem Holds.pop : Holds (m.pop front.length back.length) front := by
  have hcnt := h.cnt
  have htail := h.tail
  have hroom := h.room
  rw [length_append] at hcnt htail hroom
  refine ⟨?_, ?_, ?_, ?_, fun hin => h.filled (mem_append_left _ hin)⟩
  · show m.pageCnt - back.length = _
    omega
  · show m.pageTail - back.length = _
    omega
  · show (front.length : Int) ≤ m.pageMaxCnt
    omega
  · show writeAt m.pagesList (front.length : Int).toNat (List.replicate back.length 0) =
      front ++ List.replicate (m.pageMaxCnt.toNat - front.length) 0
    rw [Int.toNat_natCast, h.list, append_assoc, writeAt_behind, length_replicate, drop_left,
      append_assoc, replicate_append_replicate, length_append]
    congr 2
    omega

end Pop

theorem Holds.freeLast {m m' : Scatter} {front : List Nat} {page : Nat} (h : Holds m (front ++ [page]))
    (hcnt : m'.pageCnt = m.pageCnt - 1) (htail : m'.pageTail = m.pageTail - 1) (hmax : m'.pageMaxCnt = m.pageMaxCnt)
    (hlist : m'.pagesList = m.pagesList.set front.length 0) : Holds m' front := by
  have hc := h.cnt
  have ht := h.tail
  have hroom := h.room
  rw [length_append, length_singleton] at hc ht hroom
  refine ⟨by omega, by omega, by rw [hmax]; omega, ?_, fun hin => h.filled (mem_append_left _ hin)⟩
  rw [hlist, hmax, h.list, append_assoc, set_append_right _ _ (Nat.le_refl _), Nat.sub_self,
    singleton_append, set_cons_zero, length_append, length_singleton,
    ← replicate_succ]
  congr 2
  omega

end AmlogicV901d.Guarantees.ScatterShapes
