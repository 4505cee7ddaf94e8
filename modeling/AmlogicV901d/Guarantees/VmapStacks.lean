import Mathlib.Data.List.Nodup
import AmlogicV901d.Lib.Bitmap
import AmlogicV901d.Lib.Runs
import AmlogicV901d.Source.VmapStack

/-!
# Pages of the stacks that are mapped on demand

`check_sp_fault_again` maps the page below a stack pointer whether or not it is mapped, and so
does `handle_vmap_fault` on 64 bit. `aml_stack_free` stops at the first page of a stack that is
not mapped, whatever is mapped below. Neither looks at what `get_vmap_cached_page` and
`vmap_mmu_set` return.
-/
namespace AmlogicV901d.Guarantees.VmapStacks
open Lib.Bitmap List Function
open Source.VmapStack

variable {addr : Nat} {tables kmalloc : Bool}

variable {c : Config} {s s' : Sys} {v page t no k : Nat}

/-! ## What is asked -/

def mappedPages (c : Config) (s : Sys) : List Nat := ones (fun v => (s.pte v).isSome) c.pages

/-- A slot has one task at most, a page is in one place at most, and the size is that of what is mapped. -/
structure Kept (c : Config) (s : Sys) : Prop where
  slots : ∀ t t' bitmapNo, s.stack t = some (.slot bitmapNo) → s.stack t' = some (.slot bitmapNo) → t = t'
  mapped : ∀ v v' page, s.pte v = some page → s.pte v' = some page → v = v'
  apart : ∀ v page, s.pte v = some page → page ∉ s.list ++ s.given
  spare : (s.list ++ s.given).Nodup
  size : s.vmapStackSize = (mappedPages c s).length

def NotRemapped (s s' : Sys) : Prop := ∀ v page page', s.pte v = some page → s'.pte v = some page' → page' = page

def Unmapped (c : Config) (bitmapNo : Nat) (s : Sys) : Prop :=
  ∀ k < c.stackPages, s.pte (bitmapNo * c.stackPages + k) = none

/-- What is asked of a step. -/
structure StepKept (c : Config) (s : Sys) (ev : Event) (s' : Sys) : Prop where
  kept : Kept c s'
  notRemapped : NotRemapped s s'
  freed : ∀ t bitmapNo, ev = .free t → s.stack t = some (.slot bitmapNo) → Unmapped c bitmapNo s'

def RunKept (c : Config) (s : Sys) : List Event → Prop
  | [] => True
  | ev :: evs => ∃ s', step c s ev = some s' ∧ StepKept c s ev s' ∧ RunKept c s' evs

/-! ## When it is so -/

/-- The page that `check_sp_fault_again` maps for a stack pointer near the end of a page. -/
def PageBelow (c : Config) (sp v : Nat) : Prop :=
  let addr := sp - c.regsSize
  c.isVmapAddr addr = true ∧ sp ≠ 0 ∧ addr / pageSize ≠ sp / pageSize ∧ v = c.pageOf addr

/-- A fault in the area for which a page is mapped: not in the lowest page of a stack below one that is
not mapped, and, on 32 bit, not in a page that is mapped. -/
def Growth (c : Config) (s : Sys) (addr : Nat) : Prop :=
  c.isVmapAddr addr = true ∧ ¬ (c.stackFloorPage addr = true ∧ s.pte (c.pageOf (addr + pageSize)) = none) ∧
    (c.arm64 = true ∨ s.pte (c.pageOf addr) = none)

/-- The page that a fault maps. -/
def FaultMaps (c : Config) (s : Sys) (addr sp v : Nat) : Prop :=
  Growth c s addr ∧ v = c.pageOf addr ∨ ¬ Growth c s addr ∧ PageBelow c sp v

/-- The pages of a stack that are mapped are its upper ones. -/
def NoGap (c : Config) (bitmapNo n : Nat) (s : Sys) : Prop :=
  ∀ k, k + 1 < n → s.pte (bitmapNo * c.stackPages + k) ≠ none → s.pte (bitmapNo * c.stackPages + (k + 1)) ≠ none

/-- The slot that `aml_stack_alloc` finds. -/
def freeSlot (c : Config) (s : Sys) : Nat := findNextZeroBit s.bitmap c.maxTasks s.startBit

/-- A page is mapped only where none is, with page tables, and a stack is freed without a gap in it. -/
def Plain (c : Config) (s : Sys) : Event → Prop
  | .alloc _ page tables _ =>
    freeSlot c s < c.maxTasks → page = true → tables = true ∧ s.pte (c.topPage (freeSlot c s)) = none
  | .fault addr sp tables => ∀ v, FaultMaps c s addr sp v → tables = true ∧ s.list ≠ [] ∧ s.pte v = none
  | .free t => ∀ bitmapNo, s.stack t = some (.slot bitmapNo) → NoGap c bitmapNo c.stackPages s
  | .maintain _ => True

def RunPlain (c : Config) (s : Sys) : List Event → Prop
  | [] => True
  | ev :: evs => Plain c s ev ∧ ∀ s', step c s ev = some s' → RunPlain c s' evs

/-! ## Pages -/

/-- What is known of the pages. -/
structure Pages (c : Config) (s : Sys) : Prop where
  mapped : ∀ v v' page, s.pte v = some page → s.pte v' = some page → v = v'
  apart : ∀ v page, s.pte v = some page → page ∉ s.list ++ s.given
  spare : (s.list ++ s.given).Nodup
  size : s.vmapStackSize = (mappedPages c s).length
  inArea : ∀ v page, s.pte v = some page → v < c.pages
  known : ∀ v page, s.pte v = some page → page < s.fresh
  spareKnown : ∀ page ∈ s.list ++ s.given, page < s.fresh

theorem mappedPages_map (hv : v < c.pages) (hnone : s.pte v = none) (page : Nat)
    (hpte : s'.pte = update s.pte v (some page)) :
    (mappedPages c s').length = (mappedPages c s).length + 1 := by
  have hperm : (mappedPages c s').Perm (v :: mappedPages c s) := by
    apply ones_perm_cons hv
    · simp [hpte]
    · simp [hnone]
    · intro v' hne
      simp [hpte, hne]
  simpa using hperm.length_eq

theorem mappedPages_unmap (hv : v < c.pages) (hsome : s.pte v = some page)
    (hpte : s'.pte = update s.pte v none) : (mappedPages c s).length = (mappedPages c s').length + 1 := by
  refine mappedPages_map hv (by simp [hpte]) page ?_
  rw [hpte, update_idem, ← hsome, update_eq_self]

theorem update_some {α : Type} {f : Nat → Option α} {v v' : Nat} {entry : Option α} {a : α}
    (h : update f v entry v' = some a) : v' = v ∧ entry = some a ∨ v' ≠ v ∧ f v' = some a := by
  by_cases he : v' = v
  · subst he
    rw [update_self] at h
    exact .inl ⟨rfl, h⟩
  · rw [update_of_ne he] at h
    exact .inr ⟨he, h⟩

/-- New pages for the cache. -/
theorem Pages.add (h : Pages c s) (n : Nat) :
    Pages c { s with list := (List.range' s.fresh n).reverse ++ s.list, fresh := s.fresh + n } := by
  have hnew : ∀ page ∈ (List.range' s.fresh n).reverse, s.fresh ≤ page ∧ page < s.fresh + n := by
    intro page hpage
    simpa using hpage
  constructor
  case mapped => exact h.mapped
  case size => exact h.size
  case inArea => exact h.inArea
  case apart =>
    intro v page hpte hmem
    rw [append_assoc, mem_append] at hmem
    rcases hmem with hmem | hmem
    · have := hnew page hmem
      have := h.known v page hpte
      omega
    · exact h.apart v page hpte hmem
  case spare =>
    rw [append_assoc, nodup_append]
    refine ⟨nodup_reverse.mpr nodup_range', h.spare, ?_⟩
    rintro page hpage _ hmem rfl
    have := hnew page hpage
    have := h.spareKnown page hmem
    omega
  case known =>
    intro v page hpte
    have := h.known v page hpte
    dsimp only
    omega
  case spareKnown =>
    intro page hmem
    rw [append_assoc, mem_append] at hmem
    rcases hmem with hmem | hmem
    · exact (hnew page hmem).2
    · have := h.spareKnown page hmem
      dsimp only
      omega

/-- A cached page is mapped. -/
theorem Pages.map (h : Pages c s) {rest : List Nat} (hlist : s.list = page :: rest) (hv : v < c.pages)
    (hnone : s.pte v = none) :
    Pages c { s with
      list := rest
      pte := update s.pte v (some page)
      vmapStackSize := s.vmapStackSize + 1 } := by
  have hspare := h.spare
  have hapart := h.apart
  have hknown := h.spareKnown
  rw [hlist, cons_append] at hspare hapart hknown
  rw [nodup_cons] at hspare
  have hnew : ∀ v', s.pte v' ≠ some page := fun v' h' => hapart v' page h' (mem_cons_self ..)
  constructor
  case mapped =>
    intro v₁ v₂ p h₁ h₂
    rcases update_some h₁ with ⟨rfl, ⟨⟩⟩ | ⟨-, hold₁⟩
    · rcases update_some h₂ with ⟨rfl, -⟩ | ⟨-, hold₂⟩
      · rfl
      · exact absurd hold₂ (hnew v₂)
    · rcases update_some h₂ with ⟨rfl, ⟨⟩⟩ | ⟨-, hold₂⟩
      · exact absurd hold₁ (hnew v₁)
      · exact h.mapped v₁ v₂ p hold₁ hold₂
  case apart =>
    intro v' p hpte hmem
    rcases update_some hpte with ⟨-, ⟨⟩⟩ | ⟨-, hpte⟩
    · exact hspare.1 hmem
    · exact hapart v' p hpte (.tail _ hmem)
  case spare => exact hspare.2
  case size =>
    rw [mappedPages_map hv hnone page rfl, h.size]
    simp
  case inArea =>
    intro v' p hpte
    rcases update_some hpte with ⟨rfl, -⟩ | ⟨-, hpte⟩
    · exact hv
    · exact h.inArea v' p hpte
  case known =>
    intro v' p hpte
    rcases update_some hpte with ⟨-, ⟨⟩⟩ | ⟨-, hpte⟩
    · exact hknown page (mem_cons_self ..)
    · exact h.known v' p hpte
  case spareKnown => exact fun p hp => hknown p (.tail _ hp)

/-- A mapped page is unmapped and spare. -/
theorem Pages.unmap (h : Pages c s) (hsome : s.pte v = some page) (hpte : s'.pte = update s.pte v none)
    (hspare : (s'.list ++ s'.given).Perm (page :: (s.list ++ s.given)))
    (hsize : s'.vmapStackSize = s.vmapStackSize + -1) (hfresh : s'.fresh = s.fresh) : Pages c s' := by
  have hold : ∀ v' p, s'.pte v' = some p → v' ≠ v ∧ s.pte v' = some p := by
    intro v' p hpte'
    rw [hpte] at hpte'
    rcases update_some hpte' with ⟨-, ⟨⟩⟩ | hpte'
    exact hpte'
  constructor
  case mapped => exact fun v₁ v₂ p h₁ h₂ => h.mapped v₁ v₂ p (hold _ _ h₁).2 (hold _ _ h₂).2
  case apart =>
    intro v' p hpte' hmem
    obtain ⟨hne, hpte'⟩ := hold v' p hpte'
    rcases mem_cons.mp (hspare.mem_iff.mp hmem) with rfl | hmem
    · exact hne (h.mapped v' v p hpte' hsome)
    · exact h.apart v' p hpte' hmem
  case spare => exact hspare.nodup_iff.mpr (nodup_cons.mpr ⟨h.apart v page hsome, h.spare⟩)
  case size =>
    have hlength := mappedPages_unmap (h.inArea v page hsome) hsome hpte
    have hold := h.size
    omega
  case inArea => exact fun v' p hpte' => h.inArea v' p (hold _ _ hpte').2
  case known =>
    intro v' p hpte'
    rw [hfresh]
    exact h.known v' p (hold _ _ hpte').2
  case spareKnown =>
    intro p hmem
    rw [hfresh]
    rcases mem_cons.mp (hspare.mem_iff.mp hmem) with rfl | hmem
    · exact h.known v p hsome
    · exact h.spareKnown p hmem

/-! ## The loop of `aml_stack_free` -/

/-- The state in which the loop goes on after a page. -/
def unmapPage (c : Config) (page v : Nat) (s : Sys) : Sys :=
  updateVmapStack (-1) (putPage c page { s with pte := Function.update s.pte v none })

theorem unmapPage_pte : (unmapPage c page v s).pte = update s.pte v none := by
  unfold unmapPage updateVmapStack putPage
  split <;> rfl

theorem unmapPage_slots : (unmapPage c page v s).stack = s.stack ∧ (unmapPage c page v s).bitmap = s.bitmap := by
  unfold unmapPage updateVmapStack putPage
  split <;> exact ⟨rfl, rfl⟩

theorem Pages.unmapPage (h : Pages c s) (hsome : s.pte v = some page) : Pages c (unmapPage c page v s) := by
  unfold VmapStacks.unmapPage updateVmapStack putPage
  split
  · refine h.unmap hsome rfl ?_ rfl rfl
    rw [append_assoc]
    exact perm_middle
  · refine h.unmap hsome rfl ?_ rfl rfl
    rw [← append_assoc]
    exact perm_append_singleton ..

/-- What the loop leaves as it was. -/
structure Walked (s s' : Sys) : Prop where
  stack : s'.stack = s.stack
  bitmap : s'.bitmap = s.bitmap
  pte : ∀ v, s'.pte v = none ∨ s'.pte v = s.pte v

theorem freePages_walked (c : Config) (no n : Nat) (s : Sys) : Walked s (freePages c no n s) := by
  fun_induction freePages c no n s with
  | case1 | case2 => exact ⟨rfl, rfl, fun _ => .inr rfl⟩
  | case3 k s page _ hrest =>
    refine ⟨hrest.stack.trans unmapPage_slots.1, hrest.bitmap.trans unmapPage_slots.2, fun v => ?_⟩
    rcases hrest.pte v with hv | hv
    · exact .inl hv
    rw [hv, ← unmapPage, unmapPage_pte]
    by_cases he : v = no * c.stackPages + k
    · exact .inl (by rw [he, update_self])
    · exact .inr (update_of_ne he ..)

theorem freePages_pages (n : Nat) (h : Pages c s) : Pages c (freePages c no n s) := by
  fun_induction freePages c no n s with
  | case1 | case2 => exact h
  | case3 _ _ _ hpte ih => exact ih (h.unmapPage hpte)

theorem freePages_above (n : Nat) (s : Sys) {k : Nat} (hk : n ≤ k) :
    (freePages c no n s).pte (no * c.stackPages + k) = s.pte (no * c.stackPages + k) := by
  fun_induction freePages c no n s with
  | case1 | case2 => rfl
  | case3 _ _ _ _ ih => rw [ih (by omega), ← unmapPage, unmapPage_pte, update_of_ne (by omega)]

theorem mapped_above {n j : Nat} (hgap : NoGap c no n s) (hmapped : s.pte (no * c.stackPages + j) ≠ none)
    (m : Nat) (hm : j + m < n) : s.pte (no * c.stackPages + (j + m)) ≠ none := by
  induction m with
  | zero => exact hmapped
  | succ m ih => exact hgap (j + m) (by omega) (ih (by omega))

theorem freePages_iff (n : Nat) (s : Sys) :
    (∀ k < n, (freePages c no n s).pte (no * c.stackPages + k) = none) ↔ NoGap c no n s := by
  fun_induction freePages c no n s with
  | case1 => exact iff_of_true (by simp) (fun k hk => by omega)
  | case2 n s hpte =>
    constructor
    · intro hall k hk hne
      exact absurd (hall k (by omega)) hne
    · intro hgap k hk
      by_contra hne
      have habove := mapped_above hgap hne (n - k) (by omega)
      rw [Nat.add_sub_cancel' (by omega)] at habove
      exact habove hpte
  | case3 n s page hpte hrest =>
    rw [← unmapPage] at hrest ⊢
    have hlow : ∀ k < n, (unmapPage c page (no * c.stackPages + n) s).pte (no * c.stackPages + k) =
        s.pte (no * c.stackPages + k) := by
      intro k hk
      rw [unmapPage_pte, update_of_ne (by omega)]
    constructor
    · intro hall k hk hne
      by_cases hlast : k + 1 = n
      · rw [hlast, hpte]
        simp
      · have hgap := hrest.mp fun j hj => hall j (by omega)
        have hnext := hgap k (by omega) (by rwa [hlow k (by omega)])
        rwa [hlow (k + 1) (by omega)] at hnext
    · intro hgap k hk
      by_cases hlast : k = n
      · subst hlast
        rw [freePages_above _ _ (Nat.le_refl _), unmapPage_pte, update_self]
      apply hrest.mpr _ k (by omega)
      intro j hj hne
      rw [hlow j (by omega)] at hne
      rw [hlow (j + 1) (by omega)]
      exact hgap j (by omega) hne

/-! ## Slots -/

/-- The slots of tasks are marked, each for one. -/
structure Slots (s : Sys) : Prop where
  owner : ∀ t t' bitmapNo, s.stack t = some (.slot bitmapNo) → s.stack t' = some (.slot bitmapNo) → t = t'
  marked : ∀ t bitmapNo, s.stack t = some (.slot bitmapNo) → s.bitmap bitmapNo = true

theorem findZeroBit_clear (bitmap : Nat → Bool) (size n i : Nat) :
    findZeroBit bitmap size n i = size ∨ bitmap (findZeroBit bitmap size n i) = false := by
  induction n generalizing i with
  | zero => exact .inl rfl
  | succ n ih =>
    unfold findZeroBit
    split
    · exact ih (i + 1)
    · next hclear => exact .inr (by simpa using hclear)

/-- A task gets a slot that was not marked. -/
theorem Slots.give (h : Slots s) (hclear : s.bitmap no = false)
    (hstack : s'.stack = update s.stack t (some (.slot no)))
    (hbitmap : s'.bitmap = update s.bitmap no true) : Slots s' := by
  have hother : ∀ t', s.stack t' ≠ some (.slot no) := by
    intro t' ht'
    exact nomatch hclear.symm.trans (h.marked t' no ht')
  have hcases : ∀ t' b, s'.stack t' = some (.slot b) →
      t' = t ∧ b = no ∨ t' ≠ t ∧ s.stack t' = some (.slot b) ∧ b ≠ no := by
    intro t' b ht'
    rw [hstack] at ht'
    rcases update_some ht' with ⟨rfl, ⟨⟩⟩ | ⟨he, hold⟩
    · exact .inl ⟨rfl, rfl⟩
    · exact .inr ⟨he, hold, fun hb => hother t' (hb ▸ hold)⟩
  constructor
  · intro t₁ t₂ b h₁ h₂
    rcases hcases t₁ b h₁ with ⟨rfl, rfl⟩ | ⟨-, hold₁, hne⟩
    · rcases hcases t₂ b h₂ with ⟨rfl, -⟩ | ⟨-, -, hne⟩
      · rfl
      · exact absurd rfl hne
    · rcases hcases t₂ b h₂ with ⟨-, rfl⟩ | ⟨-, hold₂, -⟩
      · exact absurd rfl hne
      · exact h.owner t₁ t₂ b hold₁ hold₂
  · intro t' b ht'
    rw [hbitmap]
    rcases hcases t' b ht' with ⟨-, rfl⟩ | ⟨-, hold, hne⟩
    · exact update_self ..
    · rw [update_of_ne hne]
      exact h.marked t' b hold

theorem Slots.take (h : Slots s) (stack : Option Stack) (hslot : ∀ b, stack ≠ some (.slot b))
    (hstack : s'.stack = update s.stack t stack)
    (hbitmap : ∀ t' b, t' ≠ t → s.stack t' = some (.slot b) → s'.bitmap b = s.bitmap b) : Slots s' := by
  have hcases : ∀ t' b, s'.stack t' = some (.slot b) → t' ≠ t ∧ s.stack t' = some (.slot b) := by
    intro t' b ht'
    rw [hstack] at ht'
    exact (update_some ht').resolve_left fun hown => hslot b hown.2
  constructor
  · exact fun t₁ t₂ b h₁ h₂ => h.owner t₁ t₂ b (hcases t₁ b h₁).2 (hcases t₂ b h₂).2
  · intro t' b ht'
    obtain ⟨hne, hold⟩ := hcases t' b ht'
    rw [hbitmap t' b hne hold]
    exact h.marked t' b hold

/-! ## Steps -/

structure Inv (c : Config) (s : Sys) : Prop where
  pages : Pages c s
  slots : Slots s

theorem Inv.kept (h : Inv c s) : Kept c s where
  slots := h.slots.owner
  mapped := h.pages.mapped
  apart := h.pages.apart
  spare := h.pages.spare
  size := h.pages.size

theorem Pages.congr (h : Pages c s) (hs : s' = { s with startBit := s'.startBit, bitmap := s'.bitmap, stack := s'.stack }) :
    Pages c s' := by
  rw [hs]
  exact { h with }

theorem not_kept_of_lost (h : Pages c s) (hpte : s'.pte = s.pte) (hsize : s'.vmapStackSize = s.vmapStackSize + 1) :
    ¬ Kept c s' := by
  intro hkept
  have hmapped : mappedPages c s' = mappedPages c s := by simp only [mappedPages, hpte]
  have hcount := hkept.size
  rw [hsize, hmapped, h.size] at hcount
  omega

theorem notRemapped_of_eq (hpte : s'.pte = s.pte) : NotRemapped s s' := fun _ _ _ hp hp' =>
  Option.some.inj (hp'.symm.trans (hpte ▸ hp))

theorem notRemapped_map (hnone : s.pte v = none) (hpte : s'.pte = update s.pte v (some page)) :
    NotRemapped s s' := by
  intro v' p p' hp hp'
  rw [hpte] at hp'
  rcases update_some hp' with ⟨rfl, -⟩ | ⟨-, hold⟩
  · rw [hnone] at hp
    cases hp
  · exact Option.some.inj (hold.symm.trans hp)

/-! ### Faults -/

theorem pageOf_lt (h : c.isVmapAddr addr = true) : c.pageOf addr < c.pages := by
  simp only [Config.isVmapAddr, Bool.and_eq_true, decide_eq_true_eq] at h
  apply Nat.div_lt_of_lt_mul
  omega

theorem checkSp_cases (c : Config) (tables : Bool) (sp : Nat) (s : Sys) :
    (∃ v, PageBelow c sp v ∧ checkSpFaultAgain c tables sp s = mapCachedPage tables v s) ∨
      (∀ v, ¬ PageBelow c sp v) ∧ checkSpFaultAgain c tables sp s = some s := by
  unfold checkSpFaultAgain PageBelow
  by_cases hmaps : c.isVmapAddr (sp - c.regsSize) = true ∧ sp ≠ 0 ∧ (sp - c.regsSize) / pageSize ≠ sp / pageSize
  · exact .inl ⟨_, ⟨hmaps.1, hmaps.2.1, hmaps.2.2, rfl⟩, by simp [hmaps]⟩
  · refine .inr ⟨fun v hv => hmaps ⟨hv.1, hv.2.1, hv.2.2.1⟩, ?_⟩
    rw [if_neg]
    simpa [and_assoc] using hmaps

theorem map_result (x : Option Sys) (err : Int) : (x.map (·, err)).map Prod.fst = x := by
  cases x <;> rfl

theorem handleVmapFault_growth {sp : Nat} (h : Growth c s addr) :
    (handleVmapFault c tables addr sp s).map Prod.fst = mapCachedPage tables (c.pageOf addr) s := by
  obtain ⟨harea, hfloor, harm⟩ := h
  have hup : checkAddrUpFlow c addr s = false := by
    rw [Bool.eq_false_iff]
    simpa [checkAddrUpFlow, checkPteExist] using hfloor
  have hexist : (!c.arm64 && (checkPteExist c addr s).isSome) = false := by
    rcases harm with harm | hnone
    · simp [harm]
    · simp [checkPteExist, hnone]
  simp only [handleVmapFault, harea, hup, hexist, Bool.not_true, Bool.false_eq_true, if_false, map_result]

theorem handleVmapFault_else {sp : Nat} (h : ¬ Growth c s addr) :
    (handleVmapFault c tables addr sp s).map Prod.fst = checkSpFaultAgain c tables sp s := by
  unfold handleVmapFault
  by_cases harea : c.isVmapAddr addr = true
  · rw [if_neg (by simp [harea])]
    by_cases hup : checkAddrUpFlow c addr s = true
    · rw [if_pos hup, map_result]
    rw [if_neg hup]
    by_cases hexist : (!c.arm64 && (checkPteExist c addr s).isSome) = true
    · rw [if_pos hexist, map_result]
    exfalso
    apply h
    refine ⟨harea, by simpa [checkAddrUpFlow, checkPteExist] using hup, ?_⟩
    simpa [checkPteExist, or_iff_not_imp_left] using hexist
  · rw [if_pos (by simpa using harea), map_result]

theorem fault_cases (c : Config) (tables : Bool) (addr sp : Nat) (s : Sys) :
    (∃ v, FaultMaps c s addr sp v ∧ v < c.pages ∧ (∀ v', FaultMaps c s addr sp v' → v' = v) ∧
        step c s (.fault addr sp tables) = mapCachedPage tables v s) ∨
      (∀ v, ¬ FaultMaps c s addr sp v) ∧ step c s (.fault addr sp tables) = some s := by
  by_cases hgrowth : Growth c s addr
  · refine .inl ⟨_, .inl ⟨hgrowth, rfl⟩, pageOf_lt hgrowth.1, ?_, handleVmapFault_growth hgrowth⟩
    rintro v' (⟨-, hv'⟩ | ⟨hnot, -⟩)
    · exact hv'
    · exact absurd hgrowth hnot
  · rcases checkSp_cases c tables sp s with ⟨v, hbelow, heq⟩ | ⟨hnone, heq⟩
    · refine .inl ⟨v, .inr ⟨hgrowth, hbelow⟩, ?_, ?_, (handleVmapFault_else hgrowth).trans heq⟩
      · rw [hbelow.2.2.2]
        exact pageOf_lt hbelow.1
      · rintro v' (⟨hgrowth', -⟩ | ⟨-, hbelow'⟩)
        · exact absurd hgrowth' hgrowth
        · rw [hbelow.2.2.2, hbelow'.2.2.2]
    · refine .inr ⟨?_, (handleVmapFault_else hgrowth).trans heq⟩
      rintro v (⟨hgrowth', -⟩ | ⟨-, hbelow⟩)
      · exact hgrowth hgrowth'
      · exact hnone v hbelow

theorem mapCachedPage_some (hmap : mapCachedPage tables v s = some s') : ∃ page rest, s.list = page :: rest ∧
      s' = updateVmapStack 1 (vmapMmuSet tables page v { s with list := rest }) := by
  unfold mapCachedPage getVmapCachedPage at hmap
  cases hlist : s.list with
  | nil => simp [hlist] at hmap
  | cons page rest => exact ⟨page, rest, rfl, by simpa [hlist] using hmap.symm⟩

theorem mapCachedPage_inv (h : Inv c s) (hv : v < c.pages) (hlist : s.list ≠ []) (hnone : s.pte v = none) :
    ∃ s', mapCachedPage true v s = some s' ∧ Inv c s' ∧ NotRemapped s s' := by
  obtain ⟨page, rest, hlist⟩ := exists_cons_of_ne_nil hlist
  have hmap : mapCachedPage true v s = some { s with
      list := rest
      pte := update s.pte v (some page)
      vmapStackSize := s.vmapStackSize + 1 } := by
    simp [mapCachedPage, getVmapCachedPage, hlist, updateVmapStack, vmapMmuSet]
  refine ⟨_, hmap, ⟨h.pages.map hlist hv hnone, ?_⟩, ?_⟩
  · exact ⟨h.slots.owner, h.slots.marked⟩
  · exact notRemapped_map hnone rfl

theorem plain_of_mapCachedPage (h : Inv c s) (hmap : mapCachedPage tables v s = some s')
    (hkept : Kept c s') (hnot : NotRemapped s s') : tables = true ∧ s.list ≠ [] ∧ s.pte v = none := by
  obtain ⟨page, rest, hlist, rfl⟩ := mapCachedPage_some hmap
  cases tables with
  | false => exact absurd hkept (not_kept_of_lost h.pages rfl rfl)
  | true =>
    refine ⟨rfl, by simp [hlist], ?_⟩
    by_contra hsome
    obtain ⟨old, hold⟩ := Option.ne_none_iff_exists'.mp hsome
    have hsame := hnot v old page hold (by simp [updateVmapStack, vmapMmuSet])
    subst hsame
    exact h.pages.apart v page hold (by simp [hlist])

/-! ### Stacks -/

theorem topPage_lt (hb : no < c.maxTasks) : c.topPage no < c.pages := by
  have hpos : 0 < c.stackPages := by
    rw [Config.stackPages, Nat.one_shiftLeft]
    exact Nat.two_pow_pos _
  have hle : (no + 1) * c.stackPages ≤ c.maxTasks * c.stackPages := Nat.mul_le_mul_right _ hb
  rw [Nat.add_mul] at hle
  unfold Config.topPage Config.pages
  omega

theorem freeSlot_clear (hb : freeSlot c s < c.maxTasks) : s.bitmap (freeSlot c s) = false := by
  rcases findZeroBit_clear s.bitmap c.maxTasks (c.maxTasks - s.startBit) s.startBit with heq | hclear
  · exact absurd heq (Nat.ne_of_lt hb)
  · exact hclear

theorem alloc_full {page : Bool} (hb : ¬ freeSlot c s < c.maxTasks) : amlStackAlloc c t page tables kmalloc s = { s with
        startBit := freeSlot c s + 1
        stack := update s.stack t (if kmalloc then some .linear else none) } := by
  exact if_pos (Nat.le_of_not_lt hb)

theorem alloc_noPage (hb : freeSlot c s < c.maxTasks) : amlStackAlloc c t false tables kmalloc s =
      { s with startBit := freeSlot c s + 1, stack := update s.stack t none } := by
  exact if_neg (Nat.not_le_of_lt hb)

theorem alloc_page (hb : freeSlot c s < c.maxTasks) : amlStackAlloc c t true true kmalloc s = { s with
        startBit := freeSlot c s + 1
        pte := update s.pte (c.topPage (freeSlot c s)) (some s.fresh)
        vmapStackSize := s.vmapStackSize + 1
        fresh := s.fresh + 1
        bitmap := update s.bitmap (freeSlot c s) true
        stack := update s.stack t (some (.slot (freeSlot c s))) } := by
  exact if_neg (Nat.not_le_of_lt hb)

theorem alloc_inv (h : Inv c s) {page : Bool} (hplain : Plain c s (.alloc t page tables kmalloc)) :
    Inv c (amlStackAlloc c t page tables kmalloc s) ∧ NotRemapped s (amlStackAlloc c t page tables kmalloc s) := by
  by_cases hb : freeSlot c s < c.maxTasks
  · cases page with
    | true =>
      obtain ⟨rfl, hnone⟩ := hplain hb rfl
      rw [alloc_page hb]
      refine ⟨⟨?_, h.slots.give (freeSlot_clear hb) rfl rfl⟩, notRemapped_map hnone rfl⟩
      exact ((h.pages.add 1).map rfl (topPage_lt hb) hnone).congr rfl
    | false =>
      rw [alloc_noPage hb]
      exact ⟨⟨h.pages.congr rfl, h.slots.take _ (by simp) rfl fun _ _ _ _ => rfl⟩, notRemapped_of_eq rfl⟩
  · rw [alloc_full hb]
    refine ⟨⟨h.pages.congr rfl, h.slots.take _ ?_ rfl fun _ _ _ _ => rfl⟩, notRemapped_of_eq rfl⟩
    cases kmalloc <;> simp

theorem plain_of_alloc (h : Inv c s) {page : Bool} (hkept : Kept c (amlStackAlloc c t page tables kmalloc s))
    (hnot : NotRemapped s (amlStackAlloc c t page tables kmalloc s)) : Plain c s (.alloc t page tables kmalloc) := by
  intro hb hpage
  subst hpage
  cases tables with
  | false =>
    have hlost : (amlStackAlloc c t true false kmalloc s).pte = s.pte ∧
        (amlStackAlloc c t true false kmalloc s).vmapStackSize = s.vmapStackSize + 1 := by
      have hif := Nat.not_le_of_lt hb
      simp only [freeSlot] at hif
      simp [amlStackAlloc, hif, vmapMmuSet, updateVmapStack]
    exact absurd hkept (not_kept_of_lost h.pages hlost.1 hlost.2)
  | true =>
    refine ⟨rfl, ?_⟩
    rw [alloc_page hb] at hnot
    by_contra hsome
    obtain ⟨old, hold⟩ := Option.ne_none_iff_exists'.mp hsome
    have hsame := hnot _ old s.fresh hold (by simp)
    have := h.pages.known _ old hold
    omega

theorem free_inv (h : Inv c s) : Inv c (amlStackFree c t s) ∧ NotRemapped s (amlStackFree c t s) := by
  cases hstack : s.stack t with
  | none =>
    simp only [amlStackFree, hstack]
    exact ⟨h, notRemapped_of_eq rfl⟩
  | some stack =>
    cases stack with
    | linear =>
      simp only [amlStackFree, hstack]
      exact ⟨⟨h.pages.congr rfl, h.slots.take _ (by simp) rfl fun _ _ _ _ => rfl⟩, notRemapped_of_eq rfl⟩
    | slot no =>
      have hwalked := freePages_walked c no c.stackPages s
      rw [amlStackFree, hstack]
      refine ⟨⟨(freePages_pages c.stackPages h.pages).congr rfl, ?_⟩, ?_⟩
      · apply h.slots.take none (by simp)
        · rw [← hwalked.stack]
        · intro t' b hne hstack'
          have hother : b ≠ no := by
            rintro rfl
            exact hne (h.slots.owner t' t b hstack' hstack)
          dsimp only
          rw [update_of_ne hother, hwalked.bitmap]
      · intro v p p' hp hp'
        rcases hwalked.pte v with hnone | heq
        · rw [hnone] at hp'
          cases hp'
        · rw [heq] at hp'
          exact Option.some.inj (hp'.symm.trans hp)

theorem free_unmapped_iff (hstack : s.stack t = some (.slot no)) :
    Unmapped c no (amlStackFree c t s) ↔ NoGap c no c.stackPages s := by
  rw [amlStackFree, hstack]
  exact freePages_iff c.stackPages s

/-! ### Every event -/

theorem step_of_plain (h : Inv c s) {ev : Event} (hplain : Plain c s ev) :
    ∃ s', step c s ev = some s' ∧ Inv c s' ∧ StepKept c s ev s' := by
  cases ev with
  | alloc t page tables kmalloc =>
    obtain ⟨hinv, hnot⟩ := alloc_inv h hplain
    exact ⟨_, rfl, hinv, hinv.kept, hnot, by simp⟩
  | fault addr sp tables =>
    rcases fault_cases c tables addr sp s with ⟨v, hmaps, hv, -, hstep⟩ | ⟨-, hstep⟩
    · obtain ⟨rfl, hlist, hnone⟩ := hplain v hmaps
      obtain ⟨s', hmap, hinv, hnot⟩ := mapCachedPage_inv h hv hlist hnone
      exact ⟨s', hstep.trans hmap, hinv, hinv.kept, hnot, by simp⟩
    · exact ⟨s, hstep, h, h.kept, notRemapped_of_eq rfl, by simp⟩
  | free t =>
    obtain ⟨hinv, hnot⟩ := free_inv (t := t) h
    refine ⟨_, rfl, hinv, hinv.kept, hnot, ?_⟩
    rintro _ no ⟨⟩ hstack
    exact (free_unmapped_iff hstack).mpr (hplain no hstack)
  | maintain n =>
    have hinv : Inv c (pageCacheMaintainWork c n s) := ⟨h.pages.add _, ⟨h.slots.owner, h.slots.marked⟩⟩
    exact ⟨_, rfl, hinv, hinv.kept, notRemapped_of_eq rfl, by simp⟩

theorem plain_of_step (h : Inv c s) {ev : Event} (hstep : step c s ev = some s') (hkept : StepKept c s ev s') :
    Plain c s ev := by
  cases ev with
  | alloc t page tables kmalloc =>
    cases hstep
    exact plain_of_alloc h hkept.kept hkept.notRemapped
  | fault addr sp tables =>
    rcases fault_cases c tables addr sp s with ⟨v, -, -, hunique, hmap⟩ | ⟨hnone, -⟩
    · intro v' hv'
      rw [hunique v' hv']
      exact plain_of_mapCachedPage h (hmap.symm.trans hstep) hkept.kept hkept.notRemapped
    · exact fun v' hv' => absurd hv' (hnone v')
  | free t =>
    cases hstep
    intro no hstack
    exact (free_unmapped_iff hstack).mp (hkept.freed t no rfl hstack)
  | maintain n => exact trivial

/-! ## Runs -/

theorem inv_initial (c : Config) : Inv c (initial c) := by
  have hlist : ∀ page ∈ (List.range c.vmapCachePage).reverse ++ [], page < c.vmapCachePage := by simp
  refine ⟨⟨?_, ?_, ?_, ?_, ?_, ?_, hlist⟩, ?_, ?_⟩
  · simp [initial]
  · simp [initial]
  · simpa [initial] using nodup_range
  · simp [initial, mappedPages, ones_false]
  · simp [initial]
  · simp [initial]
  · simp [initial]
  · simp [initial]

theorem run_kept_iff (h : Inv c s) (evs : List Event) : RunKept c s evs ↔ RunPlain c s evs := by
  induction evs generalizing s with
  | nil => exact .rfl
  | cons ev evs ih =>
    refine Lib.Runs.step_iff (fun s' => plain_of_step h) fun hplain => ?_
    obtain ⟨s', hstep, hinv, hkept⟩ := step_of_plain h hplain
    exact ⟨s', hstep, hkept, ih hinv⟩

/-- Through a run slots, pages and the size are kept exactly if every page is mapped where none is, there
are cached pages and page tables for it, and every stack is freed without a gap. -/
theorem stacks_kept_iff (c : Config) (evs : List Event) : RunKept c (initial c) evs ↔ RunPlain c (initial c) evs :=
  run_kept_iff (inv_initial c) evs

/-! ## A gap, and a page that is mapped twice -/

/-- 64 bit, with four pages to a stack. -/
def arm64Config : Config := ⟨0x80000000, 2, 32768, 1, 32, 304, true⟩

/-- A state after some events, if none fails. -/
def after (c : Config) (evs : List Event) : Option Sys := evs.foldlM (step c) (initial c)

/-- The page below the second of the first stack faults, and the stack is freed: it stays mapped. And where
its third page is mapped, a fault elsewhere with the stack pointer at the end of the top page maps another
page there and counts it. -/
theorem stacks_lost : ((after arm64Config [.alloc 7 true true false, .fault 0x80001000 0x80003f00 true, .free 7]).map
        fun s => (s.stack 7, s.pte 1)) = some (none, some 31) ∧
      ((after arm64Config [.alloc 7 true true false, .fault 0x80002f00 0x80003f00 true,
          .fault 0x1000 0x80003010 true]).map
        fun s => (s.pte 2, s.vmapStackSize, s.given)) = some (some 30, 3, []) := by
  decide

end AmlogicV901d.Guarantees.VmapStacks
