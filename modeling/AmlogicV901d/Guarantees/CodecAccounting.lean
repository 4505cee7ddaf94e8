import Mathlib
import AmlogicV901d.Lib.KeyedList
import AmlogicV901d.Source.CodecMm.Manager

/-!
# Accounting of codec memory

Every counter of the manager is a tally over the blocks in `mem_list`: a weight for
each block, added when the block enters the list and taken off when it leaves. The
invariant `Sound` holds these tallies together with the allocators' side: what freeing
a block would give back has been handed out by that allocator, once for each block.
-/
namespace AmlogicV901d.Guarantees.CodecAccounting
open Source.CodecMm Lib.StateTriple Lib.KeyedList List

/-! ## Tallies -/

inductive Tally
  | sys
  | cma
  | res
  | tvp
  | cmaRes
  | total
  | scatter
  | scatterCnt
  deriving DecidableEq, Repr

/-- The counter of a tally. -/
def Tally.value : Tally → Mgt → Int32
  | .sys, s => s.allocedSysSize
  | .cma, s => s.allocedCmaSize
  | .res, s => s.allocedResSize
  | .tvp, s => s.tvpPool.allocedSize
  | .cmaRes, s => s.cmaResPool.allocedSize
  | .total, s => s.totalAllocedSize
  | .scatter, s => s.allocedForScSize
  | .scatterCnt, s => s.allocedForScCnt

/-- The blocks a tally is about. -/
def Tally.counts : Tally → CodecMm → Bool
  | .sys, mem => mem.fromFlags = .pages
  | .cma, mem => mem.fromFlags = .cma
  | .res, mem => mem.fromFlags = .reversed
  | .tvp, mem => mem.fromFlags = .tvp
  | .cmaRes, mem => mem.fromFlags = .cmaRes
  | .total, mem => mem.flags &&& flagsForLocalMgr = 0
  | .scatter, mem => mem.flags &&& flagsForScatter ≠ 0
  | .scatterCnt, mem => mem.flags &&& flagsForScatter ≠ 0

/-- Bytes, but for the number of scatter blocks. -/
def Tally.weight (t : Tally) (mem : CodecMm) : Int :=
  if t.counts mem then (if t = .scatterCnt then 1 else mem.bufferSize.toInt) else 0

def Tally.sum (t : Tally) (s : Mgt) : Int := (s.memList.map t.weight).sum

/-- The source a tally is about. -/
def Tally.source : Tally → Option FromFlags
  | .sys => some .pages
  | .cma => some .cma
  | .res => some .reversed
  | .tvp => some .tvp
  | .cmaRes => some .cmaRes
  | _ => none

section
variable (t : Tally) (mem : CodecMm) (count : Int32 → Int32) (s : Mgt)

theorem value_countSource (source : FromFlags) : t.value (countSource source count s) =
      if some source = t.source then count (t.value s) else t.value s := by
  cases t <;> cases source <;> rfl

theorem value_countTotal : t.value (countTotal mem count s) =
      if t = .total ∧ t.counts mem then count (t.value s) else t.value s := by
  by_cases h : mem.flags &&& flagsForLocalMgr = 0 <;>
    cases t <;> simp [countTotal, Tally.value, Tally.counts, h]

theorem value_countScatter (countSize countCnt : Int32 → Int32) : t.value (countScatter mem countSize countCnt s) =
      if t = .scatter ∧ t.counts mem then countSize (t.value s)
      else if t = .scatterCnt ∧ t.counts mem then countCnt (t.value s) else t.value s := by
  by_cases h : mem.flags &&& flagsForScatter = 0 <;>
    cases t <;> simp [countScatter, Tally.value, Tally.counts, h]

@[simp] theorem value_countVmaped : t.value (countVmaped mem count s) = t.value s := by
  unfold countVmaped
  split <;> cases t <;> rfl

@[simp] theorem value_countMaxUsed (c : Prop) [Decidable c] :
    t.value (if c then countMaxUsed s else s) = t.value s := by
  unfold countMaxUsed
  split_ifs <;> cases t <;> rfl

theorem value_countAlloced : t.value (countAlloced mem s) = t.value s + Int32.ofInt (t.weight mem) := by
  rw [countAlloced, value_countVmaped, value_countScatter, value_countMaxUsed, value_countTotal, value_countSource]
  by_cases h : t.counts mem = true <;> cases t <;> simp_all [Tally.source, Tally.counts, Tally.weight]

theorem value_countFreed : t.value (countFreed mem s) = t.value s - Int32.ofInt (t.weight mem) := by
  rw [countFreed, value_countSource, value_countVmaped, value_countScatter, value_countTotal]
  by_cases h : t.counts mem = true <;> cases t <;> simp_all [Tally.source, Tally.counts, Tally.weight]

end

/-! ## Blocks of the list -/

variable {id : Nat}

theorem eraseP_split {front behind : List CodecMm} {mem : CodecMm} (hid : mem.id = id)
    (hfront : ∀ m ∈ front, m.id ≠ id) : (front ++ mem :: behind).eraseP (·.id = id) = front ++ behind := by
  rw [eraseP_append_right _ (by simpa using hfront), eraseP_cons_of_pos (by simpa using hid)]

/-! ## The invariant -/

/-- What the blocks of a list would give back. -/
def ranges (env : MmEnv) (l : List CodecMm) : List Range := l.filterMap (·.range env)

/-- The invariant, with the numbers of blocks that are on their way into the list or out
of it. -/
structure Sound (env : MmEnv) (pending : List Nat) (s : Mgt) : Prop where
  counted : ∀ t : Tally, t.value s = Int32.ofInt (t.sum s)
  held : ∀ r, (ranges env s.memList).count r ≤ s.granted.count r
  sourced : ∀ m ∈ s.memList, m.fromFlags ≠ .unset
  distinct : (s.memList.map (·.id)).Nodup
  numbered : ∀ m ∈ s.memList, m.id < s.nextBlock
  gone : ∀ id ∈ s.kfreed, id < s.nextBlock ∧ ∀ m ∈ s.memList, m.id ≠ id
  waiting : ∀ id ∈ pending, id < s.nextBlock ∧ id ∉ s.kfreed ∧ ∀ m ∈ s.memList, m.id ≠ id

section Rules
variable {env : MmEnv} {pending : List Nat} {s : Mgt}

/-- What the invariant looks at besides the counters. -/
structure SameBlocks (s s' : Mgt) : Prop where
  list : s'.memList = s.memList
  granted : s'.granted = s.granted
  next : s'.nextBlock = s.nextBlock
  kfreed : s'.kfreed = s.kfreed

theorem SameBlocks.trans {s s' s'' : Mgt} (h : SameBlocks s s') (h' : SameBlocks s' s'') : SameBlocks s s'' :=
  ⟨h'.list.trans h.list, h'.granted.trans h.granted, h'.next.trans h.next, h'.kfreed.trans h.kfreed⟩

theorem Sound.frame {s s' : Mgt} (h : Sound env pending s) (hsame : SameBlocks s s')
    (hvalue : ∀ t : Tally, t.value s' = t.value s) : Sound env pending s' := by
  refine ⟨fun t => ?_, ?_, ?_, ?_, ?_, ?_, ?_⟩
  · rw [hvalue, h.counted, Tally.sum, Tally.sum, hsame.list]
  · rw [hsame.list, hsame.granted]
    exact h.held
  · rw [hsame.list]
    exact h.sourced
  · rw [hsame.list]
    exact h.distinct
  · rw [hsame.list, hsame.next]
    exact h.numbered
  · rw [hsame.list, hsame.next, hsame.kfreed]
    exact h.gone
  · rw [hsame.list, hsame.next, hsame.kfreed]
    exact h.waiting

section
variable {source : FromFlags} {mem : CodecMm} {count countCnt : Int32 → Int32} {s : Mgt}

theorem countSource_same : SameBlocks s (countSource source count s) := by
  cases source <;> exact ⟨rfl, rfl, rfl, rfl⟩

theorem countTotal_same : SameBlocks s (countTotal mem count s) := by
  unfold countTotal
  split <;> exact ⟨rfl, rfl, rfl, rfl⟩

theorem countScatter_same : SameBlocks s (countScatter mem count countCnt s) := by
  unfold countScatter
  split <;> exact ⟨rfl, rfl, rfl, rfl⟩

theorem countVmaped_same : SameBlocks s (countVmaped mem count s) := by
  unfold countVmaped
  split <;> exact ⟨rfl, rfl, rfl, rfl⟩

theorem countMaxUsed_same {c : Prop} [Decidable c] : SameBlocks s (if c then countMaxUsed s else s) := by
  unfold countMaxUsed
  split_ifs <;> exact ⟨rfl, rfl, rfl, rfl⟩

theorem countFreed_same (mem : CodecMm) (s : Mgt) : SameBlocks s (countFreed mem s) :=
  countTotal_same.trans <| countScatter_same.trans <| countVmaped_same.trans countSource_same

theorem countAlloced_same (mem : CodecMm) (s : Mgt) : SameBlocks s (countAlloced mem s) :=
  countSource_same.trans <| countTotal_same.trans <| countMaxUsed_same.trans <| countScatter_same.trans countVmaped_same

end

theorem Sound.weaken (h : Sound env (id :: pending) s) : Sound env pending s :=
  { h with waiting := fun i hi => h.waiting i (mem_cons_of_mem _ hi) }

/-- One more range has been handed out than the blocks of the list have. -/
def Spare (env : MmEnv) (r : Range) (s : Mgt) : Prop :=
  ∀ r', (r :: ranges env s.memList).count r' ≤ s.granted.count r'

/-- A block outside the list holds its memory, if it has any. -/
def Holding (env : MmEnv) (pending : List Nat) (mem : CodecMm) (s : Mgt) : Prop :=
  Sound env pending s ∧ (mem.memHandle ≠ 0 → ∃ r, mem.range env = some r ∧ Spare env r s)

theorem ask_frame (h : Sound env pending s) (tick : Nat) : Sound env pending { s with tick := tick } :=
  h.frame ⟨rfl, rfl, rfl, rfl⟩ fun t => by cases t <;> rfl

theorem ask_keeps : Keeps (Sound env pending) (ask env) := fun _ h => ask_frame h _

theorem Sound.handOut (h : Sound env pending s) (r : Range) : Sound env pending { s with granted := r :: s.granted } ∧
      Spare env r { s with granted := r :: s.granted } := by
  refine ⟨{ h with counted := fun t => ?_, held := fun r' => ?_ }, fun r' => ?_⟩
  · have ht := h.counted t
    cases t <;> exact ht
  · exact Nat.le_trans (h.held r') count_le_count_cons
  · have hheld := h.held r'
    dsimp only
    rw [count_cons, count_cons]
    omega

theorem grant_spec (allocator : Allocator) (extent : Int) :
    Triple (Sound env pending) (grant env allocator extent) fun handle s =>
      Sound env pending s ∧ (handle ≠ 0 → Spare env ⟨allocator, handle, extent⟩ s) := by
  refine .bind ask_keeps fun handle => .ite (fun hne => ?_) fun hz => ?_
  · exact fun s h => ⟨(h.handOut _).1, fun _ => (h.handOut _).2⟩
  · exact fun s h => ⟨h, fun hne => absurd hne hz⟩

variable (slots : List PoolSlot)

theorem extpoolAlloc_spec (size : Int32) : Triple (Sound env pending) (codecMmExtpoolAlloc env slots size) fun got s =>
      Sound env pending s ∧ (got.2 ≠ 0 → Spare env ⟨.genPool got.1, got.2, size.toInt⟩ s) := by
  induction slots with
  | nil => exact fun s h => ⟨h, fun hne => absurd rfl hne⟩
  | cons slot rest ih =>
    refine .bind (grant_spec _ _) fun handle => .ite (fun hne s h => ⟨h.1, h.2⟩) fun _ => ?_
    exact ih.imp (fun s h => h.1) fun _ _ h => h

theorem mapPhyaddr_spec (mem : CodecMm) : Triple (Holding env pending mem) (codecMmMapPhyaddr env mem)
    fun mem' s => Holding env pending mem' s ∧ mem'.id = mem.id := by
  have hask : Keeps (Holding env pending mem) (ask env) := fun s h => ⟨ask_frame h.1 _, h.2⟩
  refine .bind hask fun highMem => .ite (fun _ s h => ⟨h, rfl⟩) fun _ => ?_
  refine .bind hask fun vaddr => .ite (fun _ s h => ⟨h, rfl⟩) fun _ s h => ⟨⟨h.1, h.2⟩, rfl⟩

/-! ### Sources of memory -/

/-- A source leaves the invariant, the block with its memory or without. -/
def Finds (env : MmEnv) (source : CodecMm → MgtM CodecMm) : Prop :=
  ∀ pending mem, mem.memHandle = 0 → Triple (Sound env pending) (source mem) fun mem' s =>
    Holding env pending mem' s ∧ mem'.id = mem.id

theorem allocFromPages_finds : Finds env (allocFromPages env) := by
  intro pending mem _
  refine .bind (grant_spec _ _) fun handle s h => ⟨⟨h.1, fun hne => ⟨_, rfl, h.2 hne⟩⟩, rfl⟩

theorem allocFromCma_finds (mapped : Bool) : Finds env (allocFromCma env mapped) := by
  intro pending mem _
  refine .bind (grant_spec _ _) fun handle => .ite (fun _ => ?_) fun _ s h =>
    ⟨⟨h.1, fun hne => ⟨_, rfl, h.2 hne⟩⟩, rfl⟩
  exact (mapPhyaddr_spec _).imp (fun s h => ⟨h.1, fun hne => ⟨_, rfl, h.2 hne⟩⟩) fun _ _ h => h

theorem allocFromReserved_finds : Finds env (allocFromReserved env) := by
  intro pending mem _
  refine .bind (grant_spec _ _) fun handle => .ite (fun _ s h => ?_) fun hz s h => ?_
  · exact ⟨⟨h.1, fun hne => ⟨_, rfl, h.2 hne⟩⟩, rfl⟩
  · exact ⟨⟨h.1, fun hne => absurd hne hz⟩, rfl⟩

theorem allocFromCmaRes_finds : Finds env (allocFromCmaRes env) := by
  intro pending mem _
  refine Triple.bind Keeps.get fun s => Triple.bind (extpoolAlloc_spec _ _) fun got => ?_
  refine .ite (fun _ => .ite (fun _ => ?_) fun _ s h => ?_) fun hz s h => ?_
  · exact (mapPhyaddr_spec _).imp (fun s h => ⟨h.1, fun hne => ⟨_, rfl, h.2 hne⟩⟩) fun _ _ h => h
  · exact ⟨⟨h.1, fun hne => ⟨_, rfl, h.2 hne⟩⟩, rfl⟩
  · exact ⟨⟨h.1, fun hne => absurd hne hz⟩, rfl⟩

theorem allocFromTvp_finds : Finds env (allocFromTvp env) := by
  intro pending mem _
  refine Triple.bind Keeps.get fun s => Triple.bind (extpoolAlloc_spec _ _) fun got => ?_
  refine .ite (fun _ s h => ⟨⟨h.1, fun hne => ⟨_, rfl, h.2 hne⟩⟩, rfl⟩) fun hz => ?_
  exact .ite (fun _ s h => ⟨⟨h.1, fun hne => absurd hne hz⟩, rfl⟩) fun _ s h =>
    ⟨⟨h.1, fun hne => absurd hne hz⟩, rfl⟩

theorem Holding.of_none {mem : CodecMm} (hz : mem.memHandle = 0) (h : Sound env pending s) :
    Holding env pending mem s := ⟨h, fun hne => absurd hz hne⟩

theorem Finds.after {next : CodecMm → MgtM CodecMm} (hnext : Finds env next) {mem mem' : CodecMm}
    (hz : mem'.memHandle = 0) : Triple (fun s => Holding env pending mem' s ∧ mem'.id = mem.id)
      (next mem') fun mem'' s => Holding env pending mem'' s ∧ mem''.id = mem.id := by
  intro s h
  have hafter := hnext pending mem' hz s h.1.1
  exact ⟨hafter.1, hafter.2.trans h.2⟩

theorem attempt_finds {cond : Mgt → CodecMm → Bool} {source next : CodecMm → MgtM CodecMm}
    (hsource : Finds env source) (hnext : Finds env next) : Finds env (attempt cond source next) := by
  intro pending mem hz
  refine Triple.bind Keeps.get fun s => Triple.ite (fun _ => ?_) fun _ => hnext pending mem hz
  refine Triple.bind (hsource pending mem hz) fun mem' => Triple.ite (fun _ s h => h) fun hz' => ?_
  exact hnext.after (Decidable.not_not.mp hz')

section BySlot
variable {bySlot : MgtM Int32} (hslot : ∀ pending, Keeps (Sound env pending) bySlot)
include hslot

theorem allocFromTvpDynamic_finds (rounds : Nat) : Finds env (allocFromTvpDynamic env bySlot rounds) := by
  induction rounds with
  | zero => exact fun pending mem hz s h => ⟨.of_none hz h, rfl⟩
  | succ rounds ih =>
    intro pending mem hz
    refine .bind (allocFromTvp_finds pending mem hz) fun mem' => ?_
    refine .ite (fun _ s h => h) fun hz' => ?_
    have hnone : mem'.memHandle = 0 := Decidable.not_not.mp hz'
    have hadd : Keeps (fun s => Holding env pending mem' s ∧ mem'.id = mem.id) bySlot :=
      fun s h => ⟨.of_none hnone (hslot pending s h.1.1), h.2⟩
    refine .bind hadd fun added => .ite (fun _ s h => h) fun _ => ?_
    exact Triple.bind Keeps.get fun s => Triple.ite (fun _ => ih.after hnone) fun _ s h => h

omit hslot in
theorem tvpPreCheckIn_keeps (needSize : Int32) (slots : List PoolSlot) :
    Keeps (Sound env pending) (codecMmAllocTvpPreCheckIn env needSize slots) := by
  induction slots with
  | nil => exact .pure _
  | cons slot rest ih => exact .bind ask_keeps fun avail => .ite (.pure _) ih

theorem growTvpForSpace_keeps (alignedSize : Int32) (rounds : Nat) :
    Keeps (Sound env pending) (growTvpForSpace env bySlot alignedSize rounds) := by
  induction rounds with
  | zero => exact .pure _
  | succ rounds ih =>
    refine .bind (hslot pending) fun added => .ite (.pure _) ?_
    refine .bind .get fun s => .bind (tvpPreCheckIn_keeps _ _) fun fits => ?_
    exact .ite (.pure _) (.ite ih (.pure _))

theorem preCheckIn_keeps (needSize : Int32) (flags : UInt32) :
    Keeps (Sound env pending) (codecMmAllocPreCheckIn env bySlot needSize flags) := by
  have htvp : Keeps (Sound env pending) (tvpSpace env bySlot (pageAlign needSize) flags) := by
    refine .bind .get fun s => .ite (.pure _) (.ite ?_ (.pure _))
    exact .bind (tvpPreCheckIn_keeps _ _) fun fits =>
      .ite (.pure _) (growTvpForSpace_keeps hslot _ _)
  refine .bind .get fun s => .bind htvp fun tvp => .bind .get fun s => ?_
  exact .ite (.pure _) (.pure _)

omit hslot in
theorem kmallocOnNomem_spec (mem : CodecMm) : Triple (Holding env pending mem) (kmallocOnNomem env mem)
    fun mem' s => Holding env pending mem' s ∧ mem'.id = mem.id := by
  refine Triple.bind Keeps.get fun s => Triple.ite (fun _ => ?_) fun _ s h => ⟨h, rfl⟩
  exact Triple.bind ((grant_spec _ _).imp (fun s h => h.1) fun _ _ h => h) fun handle s h =>
    ⟨⟨h.1, fun hne => ⟨_, rfl, h.2 hne⟩⟩, rfl⟩

omit hslot in
theorem kmallocOnNomem_finds : Finds env (kmallocOnNomem env) := fun _ mem hz =>
  (kmallocOnNomem_spec mem).imp (fun _ h => .of_none hz h) fun _ _ h => h

theorem tvpThenKmalloc_finds (can : CanFrom) : Finds env (tvpThenKmalloc env bySlot can) := by
  intro pending mem hz
  refine .ite (fun _ => .ite (fun _ => ?_) fun _ => ?_) fun _ =>
    kmallocOnNomem_finds pending mem hz
  · exact attempt_finds allocFromTvp_finds kmallocOnNomem_finds pending mem hz
  · refine .bind (allocFromTvpDynamic_finds hslot _ pending mem hz) fun mem' s h => ?_
    have hafter := kmallocOnNomem_spec mem' s h.1
    exact ⟨hafter.1, hafter.2.trans h.2⟩

theorem tryAlloc_finds (can : CanFrom) : Finds env (tryAlloc env bySlot can) :=
  attempt_finds allocFromPages_finds <| attempt_finds (allocFromCma_finds false) <|
    attempt_finds allocFromReserved_finds <| attempt_finds allocFromCmaRes_finds <|
    attempt_finds (allocFromCma_finds true) <| tvpThenKmalloc_finds hslot can

/-- `codec_mm_alloc_in` succeeds with memory for the block and fails without. -/
theorem allocIn_spec (mem : CodecMm) (hz : mem.memHandle = 0) :
    Triple (Sound env pending) (codecMmAllocIn env bySlot mem) fun got s =>
      Holding env pending got.2 s ∧ got.2.id = mem.id ∧ (got.1 < 0 ↔ got.2.memHandle = 0) := by
  have hfail : ∀ ret : Int, ret < 0 → Triple (Sound env pending) (pure (ret, mem) : MgtM (Int × CodecMm))
      fun got s => Holding env pending got.2 s ∧ got.2.id = mem.id ∧
        (got.1 < 0 ↔ got.2.memHandle = 0) := fun ret hret s h =>
    ⟨.of_none hz h, rfl, iff_of_true hret hz⟩
  refine Triple.bind Keeps.get fun s => Triple.bind (preCheckIn_keeps hslot _ _) fun haveSpace => ?_
  refine .ite (fun _ => hfail _ (by decide)) fun _ => .ite (fun _ => hfail _ (by decide)) fun _ => ?_
  refine .bind (tryAlloc_finds hslot _ pending mem hz) fun mem' s h => ⟨h.1, h.2, ?_⟩
  change (if mem'.memHandle ≠ 0 then (0 : Int) else -10003) < 0 ↔ mem'.memHandle = 0
  split
  next hne => exact iff_of_false (by decide) hne
  next hz' => exact iff_of_true (by decide) (Decidable.not_not.mp hz')

end BySlot

/-! ### Leaving the list -/

theorem ranges_split {front behind : List CodecMm} {mem : CodecMm} {r : Range} (hr : mem.range env = some r)
    (r' : Range) : (ranges env (front ++ mem :: behind)).count r' =
      (ranges env (front ++ behind)).count r' + if r == r' then 1 else 0 := by
  simp only [ranges, filterMap_append, filterMap_cons, hr, count_append, count_cons]
  omega

theorem sum_split (t : Tally) (front behind : List CodecMm) (mem : CodecMm) :
    ((front ++ mem :: behind).map t.weight).sum = ((front ++ behind).map t.weight).sum + t.weight mem := by
  simp only [map_append, map_cons, sum_append, sum_cons]
  omega

theorem range_isSome {mem : CodecMm} (h : mem.fromFlags ≠ .unset) : ∃ r, mem.range env = some r := by
  unfold CodecMm.range
  cases hf : mem.fromFlags with
  | unset => exact absurd hf h
  | pages | reversed => exact ⟨_, rfl⟩
  | cma | tvp => exact ⟨_, rfl⟩
  | cmaRes => exact ⟨_, rfl⟩

/-- The list, the counters and the allocators after a block has been freed. -/
def freedState (id : Nat) (mem : CodecMm) (r : Range) (s : Mgt) : Mgt :=
  countFreed mem { s with memList := s.memList.eraseP (·.id = id), granted := s.granted.erase r }

theorem Sound.freed (h : Sound env pending s) {mem : CodecMm} {r : Range}
    (hfind : s.memList.find? (·.id = id) = some mem) (hr : mem.range env = some r) :
    Sound env (id :: pending) (freedState id mem r s) := by
  obtain ⟨front, behind, hlist, hfront, hbehind⟩ := lookup_split h.distinct hfind
  have hid : mem.id = id := by simpa using find?_some hfind
  have hsame := countFreed_same mem
    { s with memList := s.memList.eraseP (·.id = id), granted := s.granted.erase r }
  have herase : s.memList.eraseP (·.id = id) = front ++ behind := by
    rw [hlist, eraseP_split hid hfront]
  have hmem : ∀ m ∈ front ++ behind, m ∈ s.memList := by
    rw [hlist]
    exact (Sublist.append_left (sublist_cons_self _ _) _).subset
  have hout : ∀ m ∈ front ++ behind, m.id ≠ id := forall_mem_append.mpr ⟨hfront, hbehind⟩
  have hlast : mem ∈ s.memList := by
    rw [hlist]
    exact mem_append_right _ mem_cons_self
  have hlist' := hsame.list.trans herase
  refine ⟨fun t => ?_, fun r' => ?_, ?_, ?_, ?_, ?_, ?_⟩
  · have hcounted := h.counted t
    rw [Tally.sum, hlist, sum_split, Int32.ofInt_add] at hcounted
    have hvalue : t.value { s with memList := s.memList.eraseP (·.id = id), granted := s.granted.erase r } =
        t.value s := by cases t <;> rfl
    rw [freedState, value_countFreed, hvalue, hcounted, Int32.add_sub_cancel, Tally.sum, hlist']
  · have hheld := h.held r'
    rw [hlist, ranges_split hr] at hheld
    rw [freedState, hlist', hsame.granted, count_erase]
    split at hheld <;> simp_all
    omega
  · rw [freedState, hlist']
    exact fun m hm => h.sourced m (hmem m hm)
  · have hdistinct := h.distinct
    rw [hlist] at hdistinct
    rw [freedState, hlist']
    exact hdistinct.sublist ((Sublist.append_left (sublist_cons_self _ _) _).map _)
  · rw [freedState, hlist', hsame.next]
    exact fun m hm => h.numbered m (hmem m hm)
  · rw [freedState, hlist', hsame.next, hsame.kfreed]
    exact fun i hi => ⟨(h.gone i hi).1, fun m hm => (h.gone i hi).2 m (hmem m hm)⟩
  · rw [freedState, hlist', hsame.next, hsame.kfreed]
    intro i hi
    rcases mem_cons.mp hi with rfl | hi
    · exact ⟨hid ▸ h.numbered mem hlast, fun hgone => (h.gone i hgone).2 mem hlast hid, hout⟩
    · obtain ⟨hnext, hkfreed, hpending⟩ := h.waiting i hi
      exact ⟨hnext, hkfreed, fun m hm => hpending m (hmem m hm)⟩

/-- A block without its owners, which the invariant does not look at. -/
def bare (mem : CodecMm) : CodecMm := { mem with useCnt := 0, owner := Vector.replicate 8 none }

theorem Sound.relist (h : Sound env pending s) {l : List CodecMm}
    (hbare : l.map bare = s.memList.map bare) : Sound env pending { s with memList := l } := by
  have hmap : ∀ {β : Type} (f : CodecMm → β), (∀ m, f (bare m) = f m) → l.map f = s.memList.map f := by
    intro β f hf
    have hcomp := congrArg (List.map f) hbare
    rw [map_map, map_map] at hcomp
    simpa only [Function.comp_def, hf] using hcomp
  have hall : ∀ P : CodecMm → Prop, (∀ m, P (bare m) ↔ P m) → (∀ m ∈ s.memList, P m) → ∀ m ∈ l, P m := by
    intro P hP hs m hm
    have hin : bare m ∈ s.memList.map bare := hbare ▸ mem_map_of_mem hm
    obtain ⟨m0, hm0, heq⟩ := mem_map.mp hin
    exact (hP m).mp (heq ▸ (hP m0).mpr (hs m0 hm0))
  refine ⟨fun t => ?_, fun r => ?_, ?_, ?_, ?_, fun i hi => ?_, fun i hi => ?_⟩
  · have hvalue : t.value { s with memList := l } = t.value s := by cases t <;> rfl
    rw [hvalue, h.counted, Tally.sum, Tally.sum, hmap t.weight fun _ => by cases t <;> rfl]
  · have hranges : ranges env l = ranges env s.memList := by
      have hid : ∀ l : List CodecMm, ranges env l = (l.map (·.range env)).filterMap id := fun l => by
        rw [filterMap_map]
        rfl
      rw [hid, hid, hmap (·.range env) fun _ => rfl]
    rw [hranges]
    exact h.held r
  · exact hall (·.fromFlags ≠ .unset) (fun _ => .rfl) h.sourced
  · rw [hmap (·.id) fun _ => rfl]
    exact h.distinct
  · exact hall (·.id < s.nextBlock) (fun _ => .rfl) h.numbered
  · exact ⟨(h.gone i hi).1, hall (·.id ≠ i) (fun _ => .rfl) (h.gone i hi).2⟩
  · obtain ⟨hnext, hkfreed, hout⟩ := h.waiting i hi
    exact ⟨hnext, hkfreed, hall (·.id ≠ i) (fun _ => .rfl) hout⟩

theorem Sound.shared (h : Sound env pending s) {mem mem' : CodecMm} (hfind : s.memList.find? (·.id = id) = some mem)
    (hsame : bare mem' = bare mem) :
    Sound env pending { s with memList := s.memList.map fun m => if m.id = id then mem' else m } := by
  obtain ⟨front, behind, hlist, hfront, hbehind⟩ := lookup_split h.distinct hfind
  have hid : mem.id = id := by simpa using find?_some hfind
  have hnew := update_split (fun _ => mem') hid hfront hbehind
  rw [← hlist] at hnew
  refine h.relist ((congrArg _ hnew).trans ?_)
  simp only [hlist, map_append, map_cons, hsame]

/-- A block on its way out is passed to `kfree`. -/
theorem Sound.kfree (h : Sound env (id :: pending) s) (hid : id ∉ pending) :
    Sound env pending { s with kfreed := id :: s.kfreed } := by
  obtain ⟨hnext, _, hout⟩ := h.waiting id mem_cons_self
  refine ⟨fun t => ?_, h.held, h.sourced, h.distinct, h.numbered, forall_mem_cons.mpr ⟨⟨hnext, hout⟩, h.gone⟩,
    fun i hi => ?_⟩
  · have ht := h.counted t
    cases t <;> exact ht
  · obtain ⟨hnext', hkfreed, hout'⟩ := h.waiting i (mem_cons_of_mem _ hi)
    refine ⟨hnext', fun hmem => ?_, hout'⟩
    rcases mem_cons.mp hmem with rfl | hmem
    · exact hid hi
    · exact hkfreed hmem

/-! ### The functions of the manager -/

section Release
variable {unprotectAndRelease : MgtM Nat} (hun : ∀ pending, Keeps (Sound env pending) unprotectAndRelease)
include hun

theorem freeIn_spec {mem : CodecMm} {r : Range} (hr : mem.range env = some r) :
    Triple (fun s => Sound env pending (countFreed mem { s with granted := s.granted.erase r }))
      (codecMmFreeIn env unprotectAndRelease mem) fun _ => Sound env pending := by
  simp only [codecMmFreeIn, hr]
  refine .bind (R := fun _ s => Sound env pending (countFreed mem s)) (fun s h => h) fun _ => ?_
  refine .bind (R := fun _ => Sound env pending) (fun s h => h) fun _ => ?_
  refine Keeps.ite (Keeps.bind Keeps.get fun s => Keeps.ite ?_ (Keeps.pure _)) (Keeps.pure _)
  refine Keeps.bind (hun pending) fun ignored => Keeps.ite (Keeps.modify fun s h => ?_) (Keeps.pure _)
  exact h.frame ⟨rfl, rfl, rfl, rfl⟩ fun t => by cases t <;> rfl

theorem releaseWith_keeps (id : Nat) (who : String) :
    Keeps (Sound env pending) (codecMmReleaseWith env unprotectAndRelease id who) := by
  intro s h
  rw [release_eq]
  split
  · exact h
  next mem hfind =>
    generalize hrest : ({ mem with useCnt := mem.useCnt - 1, owner := releaseOwners mem.owner (mem.useCnt - 1) who } :
      CodecMm) = rest
    split
    · obtain ⟨r, hr⟩ := @range_isSome env mem (h.sourced mem (mem_of_find?_eq_some hfind))
      -- the number stays reserved until the block is passed to kfree
      have hfreed := h.freed hfind hr
      have hrange : rest.range env = some r := hrest ▸ hr
      subst hrest
      have hfree : Sound env (id :: pending) _ :=
        freeIn_spec hun hrange { s with memList := s.memList.eraseP (·.id = id) } hfreed
      refine hfree.kfree fun hpending => ?_
      have hid : mem.id = id := by simpa using find?_some hfind
      exact (h.waiting id hpending).2.2 mem (mem_of_find?_eq_some hfind) hid
    · exact h.shared hfind (hrest ▸ rfl)

end Release

theorem releasePoolMm_keeps (slot : PoolSlot) : Keeps (Sound env pending) (releasePoolMm env slot) :=
  releaseWith_keeps (fun _ => .pure _) _ _

theorem Sound.tvpPool (h : Sound env pending s) (slots : List PoolSlot) (totalSize : Int32) :
    Sound env pending { s with tvpPool := { s.tvpPool with slots := slots, totalSize := totalSize } } :=
  h.frame ⟨rfl, rfl, rfl, rfl⟩ fun t => by cases t <;> rfl

theorem releaseIdleSlots_keeps : Keeps (Sound env pending) (releaseIdleSlots env slots) := by
  induction slots with
  | nil => exact .pure _
  | cons slot rest ih =>
    refine .bind ask_keeps fun inUse => .ite (.bind ih fun kept => .pure _) ?_
    exact .bind (releasePoolMm_keeps slot) fun _ =>
      .bind (.modify fun s h => h.tvpPool _ _) fun _ => ih

theorem unprotectAndRelease_keeps : Keeps (Sound env pending) (codecMmTvpPoolUnprotectAndRelease env) :=
  .bind .get fun _ => .bind (releaseIdleSlots_keeps _) fun _ =>
    .bind (.modify fun _ h => h.tvpPool _ _) fun _ => .pure _

theorem release_keeps (id : Nat) (who : String) : Keeps (Sound env pending) (codecMmRelease env id who) :=
  releaseWith_keeps (fun _ => unprotectAndRelease_keeps) id who

theorem scatterFree_keeps (n : Nat) : Keeps (Sound env pending) (scatterFree env n) := by
  induction n with
  | zero => exact .pure _
  | succ n ih => exact .bind ask_keeps fun id => .bind (release_keeps _ _) fun _ => ih

theorem scatterFreeAll_keeps : Keeps (Sound env pending) (codecMmScatterFreeAllIgnorecache env) :=
  .bind ask_keeps fun n => scatterFree_keeps n

theorem addBlock_same (mem : CodecMm) (owner : String) (s : Mgt) :
    SameBlocks { s with memList := s.memList ++ [mem.owned owner s.globalMemid] } (addBlock mem owner s) := by
  have h := countAlloced_same (mem.owned owner s.globalMemid) { s with
    memList := s.memList ++ [mem.owned owner s.globalMemid], globalMemid := s.globalMemid + 1 }
  exact { h with }

/-- A block with its memory enters the list. -/
theorem Holding.add {mem : CodecMm} (h : Holding env (mem.id :: pending) mem s) (hne : mem.memHandle ≠ 0)
    (hid : mem.id ∉ pending) (owner : String) : Sound env pending (addBlock mem owner s) := by
  obtain ⟨hs, hholds⟩ := h
  obtain ⟨r, hr, hspare⟩ := hholds hne
  obtain ⟨hnext, hkfreed, hout⟩ := hs.waiting mem.id mem_cons_self
  have hsame := addBlock_same mem owner s
  have hall : ∀ P : CodecMm → Prop, (∀ m ∈ s.memList, P m) → P (mem.owned owner s.globalMemid) →
      ∀ m ∈ (addBlock mem owner s).memList, P m := by
    intro P hP hnew
    rw [hsame.list]
    exact forall_append_single hP hnew
  refine ⟨fun t => ?_, fun r' => ?_, ?_, ?_, ?_, fun i hi => ?_, fun i hi => ?_⟩
  · have hvalue : t.value { s with
        memList := s.memList ++ [mem.owned owner s.globalMemid], globalMemid := s.globalMemid + 1 } =
          t.value s := by cases t <;> rfl
    rw [addBlock, value_countAlloced, hvalue, hs.counted t, ← Int32.ofInt_add, Tally.sum, Tally.sum,
      (countAlloced_same _ _).list, map_append, sum_append]
    simp
  · rw [hsame.list, hsame.granted]
    have hcount := hspare r'
    have hrange : (mem.owned owner s.globalMemid).range env = some r := hr
    rw [ranges, filterMap_append, filterMap_cons, hrange, filterMap_nil, count_append]
    rw [count_cons] at hcount
    rw [count_cons, count_nil]
    exact (by simpa [Nat.add_comm, ranges] using hcount)
  · refine hall (·.fromFlags ≠ .unset) hs.sourced fun hunset => ?_
    rw [CodecMm.range, show mem.fromFlags = .unset from hunset] at hr
    cases hr
  · rw [hsame.list]
    exact keys_append_nodup hs.distinct hout
  · rw [hsame.next]
    exact hall (·.id < s.nextBlock) hs.numbered hnext
  · rw [hsame.next]
    rw [hsame.kfreed] at hi
    exact ⟨(hs.gone i hi).1, hall (·.id ≠ i) (hs.gone i hi).2 fun heq => hkfreed (heq ▸ hi)⟩
  · obtain ⟨hnext', hkfreed', hout'⟩ := hs.waiting i (mem_cons_of_mem _ hi)
    rw [hsame.next, hsame.kfreed]
    exact ⟨hnext', hkfreed', hall (·.id ≠ i) hout' fun heq => hid (heq ▸ hi)⟩

theorem Sound.reserve (h : Sound env pending s) :
    Sound env (s.nextBlock :: pending) { s with nextBlock := s.nextBlock + 1 } := by
  refine ⟨fun t => ?_, h.held, h.sourced, h.distinct, fun m hm => ?_, fun i hi => ?_, fun i hi => ?_⟩
  · have ht := h.counted t
    cases t <;> exact ht
  · exact Nat.lt_succ_of_lt (h.numbered m hm)
  · exact ⟨Nat.lt_succ_of_lt (h.gone i hi).1, (h.gone i hi).2⟩
  · rcases mem_cons.mp hi with rfl | hi
    · exact ⟨Nat.lt_succ_self _, fun hmem => Nat.lt_irrefl _ (h.gone _ hmem).1, fun m hm =>
        Nat.ne_of_lt (h.numbered m hm)⟩
    · obtain ⟨hnext, hkfreed, hout⟩ := h.waiting i hi
      exact ⟨Nat.lt_succ_of_lt hnext, hkfreed, hout⟩

section AllocWith
variable {bySlot : MgtM Int32} (hslot : ∀ pending, Keeps (Sound env pending) bySlot)
include hslot

theorem retryWithoutScatter_spec (got : Int × CodecMm) :
    Triple (fun s => Holding env pending got.2 s ∧ (got.1 < 0 ↔ got.2.memHandle = 0))
      (retryWithoutScatter env bySlot got) fun got' s =>
        Holding env pending got'.2 s ∧ got'.2.id = got.2.id ∧ (got'.1 < 0 ↔ got'.2.memHandle = 0) := by
  refine Triple.bind Keeps.get fun s => Triple.ite (fun hretry => ?_) fun _ s h => ⟨h.1, rfl, h.2⟩
  intro s h
  have hz : got.2.memHandle = 0 := h.2.mp hretry.1
  exact Triple.bind scatterFreeAll_keeps (fun _ => allocIn_spec hslot got.2 hz) s h.1.1

theorem allocBlock_spec (owner : String) (mem : CodecMm) (hz : mem.memHandle = 0) (hid : mem.id ∉ pending) :
    Triple (Sound env (mem.id :: pending)) (allocBlock env bySlot owner mem) fun _ => Sound env pending := by
  refine .bind (allocIn_spec hslot mem hz) fun got => ?_
  refine .bind (R := fun got' s => Holding env (mem.id :: pending) got'.2 s ∧ got'.2.id = mem.id ∧
    (got'.1 < 0 ↔ got'.2.memHandle = 0)) (fun s h => ?_) fun got' => .ite (fun _ s h => ?_) fun hok s h => ?_
  · obtain ⟨hholding, hsameId, hiff⟩ := retryWithoutScatter_spec hslot got s ⟨h.1, h.2.2⟩
    exact ⟨hholding, hsameId.trans h.2.1, hiff⟩
  · exact h.1.1.weaken
  · obtain ⟨hholding, hsameId, hiff⟩ := h
    rw [← hsameId] at hholding hid
    exact hholding.add (fun hz' => hok (hiff.mpr hz')) hid owner

theorem allocWith_keeps (owner : String) (size align2n : Int32) (memflags : UInt32) :
    Keeps (Sound env pending) (codecMmAllocWith env bySlot owner size align2n memflags) := by
  refine .bind ask_keeps fun kmalloc => .ite (.pure _) fun s h => ?_
  have hid : s.nextBlock ∉ pending := fun hmem => Nat.lt_irrefl _ (h.waiting _ hmem).1
  exact allocBlock_spec hslot owner
    (newBlock s.nextBlock size align2n (completeFlags s.tvpEnable memflags)) rfl hid _ h.reserve

end AllocWith

theorem releaseSlots_keeps : Keeps (Sound env pending) (releaseSlots env slots) := by
  induction slots with
  | nil => exact .pure _
  | cons slot rest ih =>
    exact .bind (releasePoolMm_keeps slot) fun _ =>
      .bind (.modify fun s h => h.tvpPool _ _) fun _ => ih

theorem releaseInner_keeps (start : Nat) : Keeps (Sound env pending) (codecMmExtpoolPoolReleaseInner env start) :=
  .bind .get fun _ => .bind (releaseSlots_keeps _) fun _ =>
    .modify fun _ h => h.tvpPool _ _

theorem allocByType_keeps (size : Int32) (type : UInt32) :
    Keeps (Sound env pending) (codecMmTvpPoolAllocByType env size type) := by
  refine .bind (allocWith_keeps (fun _ => .pure _) _ _ _ _) fun mem => ?_
  cases mem with
  | none => exact .pure _
  | some id =>
    refine .bind ask_keeps fun pool => .ite (.bind (release_keeps _ _) fun _ => .pure _) ?_
    refine .bind (.modify fun s h => ?_) fun _ => .bind .get fun s => ?_
    · exact h.frame ⟨rfl, rfl, rfl, rfl⟩ fun t => by cases t <;> rfl
    · refine .ite (.bind ask_keeps fun protect => .ite ?_ (.pure _)) (.pure _)
      exact .bind (releaseInner_keeps _) fun _ => .pure _

theorem segmentLoop_keeps (type : UInt32) (retry : Nat) (size : Int32) :
    Keeps (Sound env pending) (segmentLoop env type retry size) := by
  induction retry generalizing size with
  | zero => exact .pure _
  | succ retry ih =>
    refine .bind (allocByType_keeps _ _) fun failed => .ite ?_ (.pure _)
    exact .ite (.pure _) (ih _)

theorem segmentOf_keeps (type : UInt32) (size maxFreeSize : Int32) :
    Keeps (Sound env pending) (segmentOf env type size maxFreeSize) := by
  exact .ite (segmentLoop_keeps _ _ _) (.pure _)

theorem allocBySlot_keeps : Keeps (Sound env pending) (codecMmTvpPoolAllocBySlot env) := by
  refine .bind .get fun s => .ite (.pure _) (.ite (.pure _) ?_)
  refine .bind (segmentOf_keeps _ _ _) fun added => ?_
  cases added with
  | some added => exact .pure _
  | none => exact .bind (segmentOf_keeps _ _ _) fun _ => .pure _

theorem alloc_keeps (owner : String) (size align2n : Int32) (memflags : UInt32) :
    Keeps (Sound env pending) (codecMmAlloc env owner size align2n memflags) :=
  allocWith_keeps (fun _ => allocBySlot_keeps) owner size align2n memflags

theorem request_keeps (id : Nat) (who : String) : Keeps (Sound env pending) (codecMmRequestSharedMem id who) := by
  intro s h
  rw [request_eq]
  split
  · exact h
  next mem hfind =>
    split
    · exact h
    · exact h.shared hfind rfl

end Rules

/-! ## Runs -/

inductive MmOp
  | alloc (owner : String) (size align2n : Int32) (memflags : UInt32)
  | release (id : Nat) (who : String)
  | requestShared (id : Nat) (who : String)
  deriving DecidableEq, Repr

def mmStep (env : MmEnv) (s : Mgt) : MmOp → Mgt
  | .alloc owner size align2n memflags => (codecMmAlloc env owner size align2n memflags s).2
  | .release id who => (codecMmRelease env id who s).2
  | .requestShared id who => (codecMmRequestSharedMem id who s).2

def mmRun (env : MmEnv) (s : Mgt) (ops : List MmOp) : Mgt := ops.foldl (mmStep env) s

/-- The manager with its configuration and no block yet. -/
def idle (config : Mgt) : Mgt :=
  { config with
    memList := []
    tvpPool := { config.tvpPool with allocedSize := 0 }
    cmaResPool := { config.cmaResPool with allocedSize := 0 }
    totalAllocedSize := 0
    allocedResSize := 0
    allocedCmaSize := 0
    allocedSysSize := 0
    allocedForScSize := 0
    allocedForScCnt := 0
    kfreed := [] }

theorem idle_sound (env : MmEnv) (config : Mgt) : Sound env [] (idle config) := by
  refine ⟨fun t => ?_, fun r => Nat.zero_le _, ?_, nodup_nil, ?_, ?_, ?_⟩
  · cases t <;> rfl
  all_goals
    intro x hx
    exact absurd hx not_mem_nil

theorem mmStep_sound {env : MmEnv} {s : Mgt} (h : Sound env [] s) (op : MmOp) : Sound env [] (mmStep env s op) := by
  cases op with
  | alloc owner size align2n memflags => exact alloc_keeps owner size align2n memflags s h
  | release id who => exact release_keeps id who s h
  | requestShared id who => exact request_keeps id who s h

theorem mmRun_sound {env : MmEnv} {s : Mgt} (h : Sound env [] s) (ops : List MmOp) :
    Sound env [] (mmRun env s ops) := by
  induction ops generalizing s with
  | nil => exact h
  | cons op ops ih => exact ih (mmStep_sound h op)

/-- Every counter is the sum over its blocks, and the allocators have handed out what the
blocks would give back. -/
structure Accounted (env : MmEnv) (s : Mgt) : Prop where
  counted : ∀ t : Tally, t.value s = Int32.ofInt (t.sum s)
  /-- the counters have 32 bits -/
  fits : ∀ t : Tally, -2 ^ 31 ≤ t.sum s → t.sum s < 2 ^ 31 → (t.value s).toInt = t.sum s
  granted : ∀ mem ∈ s.memList, ∃ r, mem.range env = some r ∧ r ∈ s.granted
  apart : ∀ r, (s.memList.filterMap (·.range env)).count r ≤ s.granted.count r

/-- Over every run, whatever the allocators answer, the counters are the sums over the
blocks in the list, and freeing a block gives back the very range its allocator handed
out for it. -/
theorem codec_memory_accounted (env : MmEnv) (config : Mgt) (ops : List MmOp) :
    Accounted env (mmRun env (idle config) ops) := by
  have h := mmRun_sound (idle_sound env config) ops
  refine ⟨h.counted, fun t hlow hhigh => ?_, fun mem hmem => ?_, h.held⟩
  · rw [h.counted, Int32.toInt_ofInt_of_le hlow hhigh]
  · obtain ⟨r, hr⟩ := @range_isSome env mem (h.sourced mem hmem)
    have hin : r ∈ ranges env (mmRun env (idle config) ops).memList :=
      mem_filterMap.mpr ⟨mem, hmem, hr⟩
    exact ⟨r, hr, count_pos_iff.mp (Nat.lt_of_lt_of_le (count_pos_iff.mpr hin) (h.held r))⟩

/-- Memory from the contiguous area only; every request is answered. -/
def cmaConfig : Mgt where
  memList := []
  resPool := false
  tvpPool := ⟨[], 0, 0⟩
  cmaResPool := ⟨[], 0, 0⟩
  totalCodecMemSize := 0x10000000
  totalAllocedSize := 0
  totalCmaSize := 0x10000000
  totalReservedSize := 0
  maxUsedMemSize := 0
  allocedResSize := 0
  allocedCmaSize := 0
  allocedSysSize := 0
  allocedForScSize := 0
  allocedForScCnt := 0
  physVmapedPageCnt := 0
  allocFromSysPagesMax := 0
  enableKmallocOnNomem := false
  resMemFlags := 0
  globalMemid := 0
  tvpEnable := 0
  tvpUserCount := 0
  granted := []
  kfreed := []
  nextBlock := 1
  nextPool := 1
  tick := 0

def answering : MmEnv := ⟨fun n => n + 1, fun _ => 0, 0, true, false, fun _ => 0, 0⟩

example : (mmRun answering cmaConfig [.alloc "vdec" 5000 0 flagsCma]).allocedCmaSize = 8192 := by decide

end AmlogicV901d.Guarantees.CodecAccounting
