import AmlogicV901d.Guarantees.ScatterConservation

/-!
# Page requests of a scatter

A request for pages is reported as met whenever it was not out of range, however many
pages the allocators had. So a scatter has the pages it asked for exactly if the caches,
the slots and the system had all that were missing.
-/
namespace AmlogicV901d.Guarantees.ScatterRequests
open Source.CodecMmScatter Lib.StateTriple Lib.KeyedList ScatterShapes ScatterLedger ScatterFree ScatterLife
open ScatterConservation

/-- The scatter has its first `want` pages. -/
def HoldsPages (n : Nat) (want : Int) (s : Sc) : Prop := ∃ m ∈ lookup Scatter.num n s.scatters,
  want ≤ m.pageCnt ∧ ∀ i < want.toNat, m.pagesList.getD i 0 ≠ 0

instance (n : Nat) (want : Int) (s : Sc) : Decidable (HoldsPages n want s) :=
  inferInstanceAs (Decidable (∃ m ∈ lookup Scatter.num n s.scatters, _))

section Requests
variable (env : ScEnv)

/-- A request that is reported as met is met. -/
def RequestBacked (n : Nat) (want : Int) (s : Sc) : Prop :=
  (codecMmScatterAllocWantPagesIn env n want s).1 = 0 → HoldsPages n want (codecMmScatterAllocWantPagesIn env n want s).2

instance (n : Nat) (want : Int) (s : Sc) : Decidable (RequestBacked env n want s) :=
  inferInstanceAs (Decidable (_ → _))

/-- A scatter that is handed out has the pages. -/
def AllocBacked (maxPage want : Int) (s : Sc) : Prop := ∀ n ∈ (codecMmScatterAlloc env maxPage want s).1,
  HoldsPages n want (codecMmScatterAlloc env maxPage want s).2

/-- What `codec_mm_page_alloc_all_locked` has for the missing pages of a scatter. -/
def pagesFound (m : Scatter) (want : Int) (s : Sc) : List Nat :=
  (codecMmPageAllocAllLocked env (want - m.pageCnt).toNat (s.isCacheSc m.num) (modifyScatter m.num (setUsed want) s).2).1

/-- No page is missing, or all that are missing are found; a request out of range is refused. -/
def Granted (n : Nat) (want : Int) (s : Sc) : Prop := ∀ m ∈ lookup Scatter.num n s.scatters,
  want ≤ m.pageMaxCnt → want ≤ m.pageCnt ∨ want - m.pageCnt ≤ (pagesFound env m want s).length

/-- The same of the scatter an allocation picks. -/
def AllocGranted (maxPage want : Int) (s : Sc) : Prop := ∀ n ∈ (scatterForAlloc env maxPage s).1,
  Granted env n want (scatterForAlloc env maxPage s).2

end Requests

section Proofs
variable {env : ScEnv} {t : Terms} {s : Sc}

theorem holdsPages_iff {n : Nat} {m : Scatter} {held : List Nat} (hm : lookup Scatter.num n s.scatters = some m)
    (hheld : Holds m held) (want : Int) : HoldsPages n want s ↔ want ≤ held.length := by
  have hcnt := hheld.cnt
  constructor
  · rintro ⟨m', hm', hle, _⟩
    obtain rfl := Option.some.inj (hm.symm.trans hm')
    omega
  · intro hle
    refine ⟨m, hm, by omega, fun i hi => ?_⟩
    exact (Holds.entry hheld i).mpr (by omega)

/-- Every request, in every state with a balanced ledger. -/
theorem requestBacked_of_balanced (h : Balanced t s) (n : Nat) (want : Int) :
    RequestBacked env n want s ↔ Granted env n want s := by
  rw [RequestBacked, Granted, codecMmScatterAllocWantPagesIn, get_bind]
  cases hm : lookup Scatter.num n s.scatters with
  | none => exact ⟨fun _ m hnone => absurd hnone (Option.not_mem_none m), fun _ hret => absurd hret (show (-1 : Int) ≠ 0 by decide)⟩
  | some m =>
    obtain rfl := key_of_lookup hm
    have hheld := h.shaped m (mem_of_lookup hm)
    have hcnt := hheld.cnt
    have hset := setUsed_balanced h m.num want
    have hlook := lookup_setUsed h hm want
    have hheld' : Holds (setUsed want m) (heldPages m) := hheld.frame rfl rfl rfl rfl
    dsimp only
    split
    next hmax =>
      exact ⟨fun _ b hb hle => absurd hle (Option.some.inj hb ▸ Int.not_le.mpr hmax),
        fun _ hret => absurd hret (show codecMmSErr 100 ≠ 0 by decide)⟩
    next hmax =>
      by_cases hmore : want > m.pageCnt
      · have hfill : Filled _ m.num (heldPages m) (pagesFound env m want s)
            (fillWanted env m want (modifyScatter m.num (setUsed want) s).2).2 :=
          fillWanted_spec (m := setUsed want m) hset hlook hheld' (Int.not_lt.mp hmax) hmore
        obtain ⟨m', hm', hall⟩ := hfill.holds
        have hiff := holdsPages_iff hm' hall want
        rw [List.length_append] at hiff
        rw [if_pos hmore]
        refine ⟨fun hback b hb _ => .inr ?_, fun hgrant _ => hiff.mpr ?_⟩
        · cases hb
          have := hiff.mp (hback (fillWanted_ret m want _))
          omega
        · have := hgrant m rfl (Int.not_lt.mp hmax)
          omega
      · rw [if_neg hmore]
        refine ⟨fun _ b hb _ => .inl (Option.some.inj hb ▸ Int.not_lt.mp hmore), fun _ _ => ?_⟩
        exact (holdsPages_iff hlook hheld' want).mpr (by omega)

theorem alloc_picked {maxPage want : Int} {k : Nat} {s1 : Sc} (hpick : scatterForAlloc env maxPage s = (some k, s1)) :
    codecMmScatterAlloc env maxPage want s = if (codecMmScatterAllocWantPagesIn env k want s1).1 < 0 then
      (none, (modifyScatter k disowned (codecMmScatterAllocWantPagesIn env k want s1).2).2)
      else (some k, (codecMmScatterAllocWantPagesIn env k want s1).2) := by
  rw [codecMmScatterAlloc, bind_run hpick]
  cases hwant : codecMmScatterAllocWantPagesIn env k want s1 with
  | mk ret s2 =>
    dsimp only
    rw [bind_run hwant]
    split <;> rfl

/-- An allocation answers as the request for the scatter it picked does. -/
theorem allocBacked_of_balanced (h : Balanced t s) (hquiet : t.Quiet) (maxPage want : Int) :
    AllocBacked env maxPage want s ↔ AllocGranted env maxPage want s := by
  have hspec := @scatterForAlloc_spec env _ _ h hquiet maxPage
  rw [AllocBacked, AllocGranted]
  cases hpick : scatterForAlloc env maxPage s with
  | mk picked s1 =>
    rw [hpick] at hspec
    cases picked with
    | none =>
      rw [codecMmScatterAlloc, bind_run hpick]
      exact ⟨fun _ n hn => absurd hn (Option.not_mem_none n), fun _ n hn => absurd hn (Option.not_mem_none n)⟩
    | some k =>
      obtain ⟨hnone, _⟩ | ⟨n, t', _, _, hb⟩ := hspec
      · cases hnone
      have hback := @requestBacked_of_balanced env _ _ hb k want
      rw [alloc_picked hpick]
      split
      next hneg =>
        have hgrant := hback.mp fun hzero => absurd hneg (hzero ▸ Int.lt_irrefl 0)
        exact ⟨fun _ n hn => Option.some.inj hn ▸ hgrant, fun _ n hn => absurd hn (Option.not_mem_none n)⟩
      next hpos =>
        have hzero : (codecMmScatterAllocWantPagesIn env k want s1).1 = 0 := by
          rcases wantPages_spec hb k want with ⟨hneg, _⟩ | ⟨hzero, _⟩
          · exact absurd hneg hpos
          · exact hzero
        exact ⟨fun hall n hn => Option.some.inj hn ▸ hback.mp fun _ => hall k rfl,
          fun hgrant n hn => Option.some.inj hn ▸ hback.mpr (hgrant k rfl) hzero⟩

end Proofs

end AmlogicV901d.Guarantees.ScatterRequests
