import AmlogicV901d.Guarantees.ScatterFree

/-!
# Making and freeing scatters

What every operation of a manager does to its scatters and to the lists they are in, with
the ledger balanced throughout.
-/
namespace AmlogicV901d.Guarantees.ScatterLife
open Source.CodecMmScatter Lib.StateTriple Lib.KeyedList ScatterShapes ScatterLedger ScatterPages ScatterFree List
open Scatter (num)

variable {m : Scatter} {n : Nat} {g f : Scatter → Scatter}

/-! ## Lists of scatters -/

def unlinked (l : Lives) (n : Nat) (notInMgt : Bool) : Lives :=
  { l with
    scatterList := l.scatterList.filter (· ≠ n)
    scattersCnt := if notInMgt then l.scattersCnt else l.scattersCnt - 1
    scmap := if notInMgt then l.scmap else codecMmScatterMapDelLocked n l.scmap }

/-- A scatter is gone. -/
def without (l : Lives) (n : Nat) (notInMgt : Bool) : Lives := { unlinked l n notInMgt with freed := n :: l.freed }

/-- The number of a new scatter is used up. -/
def numbered (l : Lives) : Lives := { l with nextScatter := l.nextScatter + 1 }

def enlisted (l : Lives) (n : Nat) : Lives :=
  { l with
    scatterList := l.scatterList ++ [n]
    scattersCnt := l.scattersCnt + 1
    scmap := codecMmScatterMapAddLocked n l.scmap }

def live (t : Terms) (l : Lives) (scatters : List Scatter) : Terms := { t with lives := l, scatters }

section Life
variable {env : ScEnv} {t : Terms} {s : Sc}

/-! ## Freeing a scatter -/

theorem freePagesOf_spec (h : Balanced t s) (hquiet : t.Quiet)
    (hm : Has s m.num m) : ∃ f, (∀ b, (f b).num = b.num) ∧ Holds (f m) [] ∧
      Balanced (t.on (update num m.num f s.scatters)) (freePagesOf m s).2 := by
  have hheld := h.shaped m (mem_of_lookup hm)
  have hcnt := hheld.cnt
  rw [freePagesOf]
  split
  next hpos =>
    obtain ⟨f, hf, htrim, hfree⟩ := freeTail_slow 0 0 h hquiet hm
    exact ⟨f, hf.num, (htrim.pages (Int.le_refl 0) hpos).1, hfree⟩
  next hnone =>
    refine ⟨fun m => m, fun _ => rfl, ?_, ?_⟩
    · rwa [length_eq_zero_iff.mp (by omega : (heldPages m).length = 0)] at hheld
    · rw [update_self, on_stand h]
      exact h

theorem growSysBlocks_books (free : Int) (s : Sc) : books (growSysBlocks free s) = books s := by
  rw [growSysBlocks]
  split <;> rfl

theorem freeScatter_spec (h : Balanced t s) (hquiet : t.Quiet)
    (hm : Has s m.num m) (notInMgt : Bool) :
    Balanced (live t (without t.lives m.num notInMgt) (remove num m.num t.scatters))
      (freeScatter m notInMgt s).2 := by
  have hlives : lives (unlinkScatter m.num notInMgt s) = unlinked t.lives m.num notInMgt := by
    rw [← h.alive]
    rfl
  have hunlink : Balanced { t with lives := unlinked t.lives m.num notInMgt } (unlinkScatter m.num notInMgt s) :=
    hlives ▸ h.relive _ rfl rfl rfl rfl fun n hn => h.cachesUnlisted n (mem_filter.mp hn).1
  obtain ⟨f, hnum, hnone, hpages⟩ := freePagesOf_spec hunlink hquiet hm
  have hgrow := hpages.frame (growSysBlocks_books m.pageCnt _)
  show Balanced _ ((fun s' : Sc => { s' with
    scatters := remove num m.num s'.scatters, freed := m.num :: s'.freed })
      (growSysBlocks m.pageCnt (freePagesOf m (unlinkScatter m.num notInMgt s)).2))
  generalize growSysBlocks m.pageCnt (freePagesOf m (unlinkScatter m.num notInMgt s)).2 = s' at hgrow ⊢
  have hstand : s'.scatters = update num m.num f s.scatters := hgrow.stand
  have hfreed : s'.freed = t.lives.freed := congrArg Lives.freed hgrow.alive
  have hlook : lookup num m.num s'.scatters = some (f m) := by
    rw [hstand]
    exact lookup_update_self (hnum m) h.scatterNums hm
  have hdrop := @Balanced.dropScatter (f m) m.num _ _ (m.num :: s'.freed) hgrow hlook hnone
  have hgone : remove num m.num s'.scatters = remove num m.num t.scatters := by
    rw [hstand, remove_update fun b hb => (hnum b).trans hb, h.same]
  rw [hgone, hfreed] at hdrop
  dsimp only
  rw [hgone, hfreed]
  exact hdrop

theorem freeOnNouser_spec (h : Balanced t s) (hquiet : t.Quiet) (notInMgt : Bool) :
    Balanced t (codecMmScatterFreeOnNouserExt n notInMgt s).2 ∨
      ∃ m, lookup num n t.scatters = some m ∧ ¬ m.userCnt > 0 ∧
        Balanced (live t (without t.lives n notInMgt) (remove num n t.scatters))
          (codecMmScatterFreeOnNouserExt n notInMgt s).2 := by
  rw [codecMmScatterFreeOnNouserExt, get_bind]
  cases hm : lookup num n s.scatters with
  | none => exact .inl h
  | some m =>
    dsimp only
    split
    next => exact .inl h
    next hidle =>
      obtain rfl := key_of_lookup hm
      exact .inr ⟨m, h.same ▸ hm, hidle, freeScatter_spec h hquiet hm notInMgt⟩

/-! ## Pages for a scatter -/

theorem allocAll_spec (num : Nat) (iscache : Bool) : Triple (Balanced t) (codecMmPageAllocAllLocked env num iscache)
    fun pages s => ∃ g, (iscache = true → g = fun m => m) ∧ CacheOnly t.lives g ∧
      Supplied (t.on (t.scatters.map g)) pages num s := by
  cases iscache with
  | true =>
    refine (allocAllLoop_noCache (num + 3) (by decide) num).imp (fun _ h => h) fun pages s h => ?_
    exact ⟨_, fun _ => rfl, CacheOnly.id _, (Terms.on_self t).symm ▸ h⟩
  | false =>
    refine (allocAllLoop_spec (num + 3) .scatter num).imp (fun _ h => h) fun pages s h => ?_
    obtain ⟨g, hg, hs⟩ := h
    exact ⟨g, fun htrue => Bool.noConfusion htrue, hg, hs⟩

theorem pageChange_of_cacheOnly {l : Lives} (h : CacheOnly l g) : PageChange g :=
  ⟨⟨h.num, h.userCnt⟩, fun m hm => (h.pageUsed m).symm ▸ hm⟩

theorem usersKept_comp {g' : Scatter → Scatter} (h : UsersKept g) (h' : UsersKept g') : UsersKept fun m => g' (g m) :=
  ⟨fun m => (h'.num _).trans (h.num m), fun m => (h'.userCnt _).trans (h.userCnt m)⟩

theorem usersKept_ite (h : UsersKept f) (n : Nat) : UsersKept fun m => if m.num = n then f m else m where
  num m := by
    split
    · exact h.num m
    · rfl
  userCnt m := by
    split
    · exact h.userCnt m
    · rfl

theorem pageChange_ite (h : PageChange f) (n : Nat) : PageChange fun m => if m.num = n then f m else m :=
  ⟨usersKept_ite h.toUsersKept n, fun m hm => by
    split
    · exact h.used m hm
    · exact hm⟩

/-- The scatter of a request, and the pages the allocators had for it. -/
structure Filled (t : Terms) (n : Nat) (held pages : List Nat) (s : Sc) : Prop where
  moved : ∃ g, UsersKept g ∧ (∀ m, (g m).pageUsed = m.pageUsed) ∧ Balanced (t.on (t.scatters.map g)) s
  holds : ∃ m, lookup Scatter.num n s.scatters = some m ∧ Holds m (held ++ pages)

theorem fillWanted_spec {held : List Nat} {want : Int} (h : Balanced t s)
    (hm : Has s m.num m) (hheld : Holds m held) (hmax : want ≤ m.pageMaxCnt)
    (hmore : m.pageCnt < want) :
    Filled t m.num held (codecMmPageAllocAllLocked env (want - m.pageCnt).toNat (s.isCacheSc m.num) s).1
      (fillWanted env m want s).2 := by
  obtain ⟨g, hid, hg, hs⟩ := @allocAll_spec env t (want - m.pageCnt).toNat (s.isCacheSc m.num) s h
  have hlook : lookup num m.num (t.scatters.map g) = some m := by
    rw [Has, h.same] at hm
    cases hc : s.isCacheSc m.num with
    | true => rwa [hid hc, map_id']
    | false => exact hg.lookup_eq (isCacheSc_eq h _ ▸ hc) hm
  have hcnt := hheld.cnt
  rw [fillWanted, get_bind]
  generalize s.isCacheSc m.num = iscache at hs ⊢
  rcases hgot : codecMmPageAllocAllLocked env (want - m.pageCnt).toNat iscache s with ⟨pages, s1⟩
  rw [hgot] at hs
  rw [bind_run hgot]
  have hstand : s1.scatters = t.scatters.map g := hs.balanced.stand
  rw [← hstand] at hlook
  split
  next hnone =>
    have hb := hs.balanced
    rw [length_eq_zero_iff.mp hnone, Terms.plus_nil] at hb
    rw [show (([] : List Nat).length : Int) = 0 from rfl, Terms.ahead_zero] at hb
    refine ⟨⟨g, ⟨hg.num, hg.userCnt⟩, hg.pageUsed, hb⟩, m, hlook, ?_⟩
    rwa [length_eq_zero_iff.mp hnone, append_nil]
  next =>
    have hfew : pages.length ≤ _ := hs.few
    have hroom : (held.length : Int) + pages.length ≤ m.pageMaxCnt := by omega
    have hpush := pushCounted (t := t.on (t.scatters.map g)) hs.balanced h.flying hlook hheld hs.filled hroom
    refine ⟨⟨fun b => if (g b).num = m.num then (g b).push pages else g b,
      usersKept_comp ⟨hg.num, hg.userCnt⟩ (usersKept_ite (f := (·.push pages)) ⟨fun _ => rfl, fun _ => rfl⟩ m.num), fun b => ?_, ?_⟩, m.push pages, ?_,
      hheld.push hs.filled hroom⟩
    · dsimp only
      split <;> exact hg.pageUsed b
    · have hmap : update num m.num (·.push pages) s1.scatters =
          t.scatters.map fun b => if (g b).num = m.num then (g b).push pages else g b := by
        rw [hstand, update, map_map]
        rfl
      rw [hmap] at hpush
      show Balanced (t.on (t.scatters.map fun b => if (g b).num = m.num then (g b).push pages else g b)) { s1 with
        scatters := update num m.num (·.push pages) s1.scatters
        cachedPages := if s1.isCacheSc m.num then s1.cachedPages + pages.length else s1.cachedPages }
      rw [hmap]
      exact hpush
    · exact lookup_update_self (show m.num = m.num from rfl) hs.balanced.scatterNums hlook

theorem fillWanted_ret (m : Scatter) (want : Int) (s : Sc) : (fillWanted env m want s).1 = 0 := by
  have hret : Triple (fun _ => True) (fillWanted env m want) fun ret _ => ret = 0 :=
    .bind .get fun _ => .bind (R := fun _ _ => True) (fun _ _ => trivial) fun _ =>
      .ite (fun _ _ _ => rfl) fun _ _ _ => rfl
  exact hret s trivial

theorem usersKept_setUsed (want : Int) : UsersKept (setUsed want) := ⟨fun _ => rfl, fun _ => rfl⟩

/-- A request: refused and without effect, or met with the pages there are. -/
theorem wantPages_spec (h : Balanced t s) (n : Nat) (want : Int) :
    ((codecMmScatterAllocWantPagesIn env n want s).1 < 0 ∧ (codecMmScatterAllocWantPagesIn env n want s).2 = s) ∨
    ((codecMmScatterAllocWantPagesIn env n want s).1 = 0 ∧ ∃ g, UsersKept g ∧ (0 ≤ want → PageChange g) ∧
      Balanced (t.on (t.scatters.map g)) (codecMmScatterAllocWantPagesIn env n want s).2) := by
  rw [codecMmScatterAllocWantPagesIn, get_bind]
  cases hm : lookup num n s.scatters with
  | none => exact .inl ⟨show (-1 : Int) < 0 by decide, rfl⟩
  | some m =>
    obtain rfl := key_of_lookup hm
    dsimp only
    split
    next => exact .inl ⟨show codecMmSErr 100 < 0 by decide, rfl⟩
    next hmax =>
      refine .inr ?_
      have hset := setUsed_balanced h m.num want
      have hkept := usersKept_ite (usersKept_setUsed want) m.num
      have hpage : 0 ≤ want → PageChange fun b => if b.num = m.num then setUsed want b else b :=
        fun hw => pageChange_ite ⟨usersKept_setUsed want, fun _ _ => hw⟩ m.num
      by_cases hmore : want > m.pageCnt
      · rw [if_pos hmore]
        have hheld := h.shaped m (mem_of_lookup hm)
        obtain ⟨⟨g, hg, hgused, hb⟩, _⟩ := @fillWanted_spec (setUsed want m) env _ _ _ _ hset
          (lookup_setUsed h hm want) (hheld.frame rfl rfl rfl rfl) (Int.not_lt.mp hmax) hmore
        refine ⟨fillWanted_ret m want _, _, usersKept_comp hkept hg, fun hw => ⟨usersKept_comp hkept hg, fun b hb => ?_⟩, ?_⟩
        · rw [hgused]
          exact (hpage hw).used b hb
        · have hmap : (update num m.num (setUsed want) s.scatters).map g =
              t.scatters.map fun b => g (if b.num = m.num then setUsed want b else b) := by
            rw [h.same, update, map_map]
            rfl
          have hb : Balanced (t.on ((update num m.num (setUsed want) s.scatters).map g)) _ := hb
          rw [hmap] at hb
          exact hb
      · rw [if_neg hmore]
        have hb : Balanced (t.on (update num m.num (setUsed want) t.scatters))
            { s with scatters := update num m.num (setUsed want) s.scatters } := by
          rw [← h.same]
          exact hset
        exact ⟨rfl, _, hkept, hpage, hb⟩

/-! ## Making a scatter -/

def owned (m : Scatter) : Scatter := { m with userCnt := ownerWeight, pageUsed := m.pageCnt }

theorem enlist_balanced (h : Balanced t s) (hplain : t.lives.isCache n = false) :
    Balanced (live t (enlisted t.lives n) (update num n owned t.scatters)) (enlistScatter n s) := by
  have htouch := h.touchScatter (n := n) (f := owned) (fun _ => rfl) fun _ _ hb => hb.frame rfl rfl rfl rfl
  have hrelive := htouch.relive (enlistScatter n s) rfl rfl rfl rfl fun k hk => by
    rcases mem_append.mp (show k ∈ s.scatterList ++ [n] from hk) with hin | hin
    · exact h.cachesUnlisted k hin
    · rw [mem_singleton.mp hin]
      exact (isCacheSc_eq h n).trans hplain
  have hlives : lives (enlistScatter n s) = enlisted t.lives n := by
    rw [← h.alive]
    rfl
  rw [hlives] at hrelive
  rw [← h.same]
  exact hrelive

/-- A new scatter, or none; the pages for one that was given up again are back. -/
def Made (t : Terms) (pageNum : Int) : Option Nat → Sc → Prop
  | none, s => ∃ g, CacheOnly t.lives g ∧ (Balanced (t.on (t.scatters.map g)) s ∨
      Balanced (live t (without (numbered t.lives) t.lives.nextScatter true) (t.scatters.map g)) s)
  | some n, s => n = t.lives.nextScatter ∧ ∃ g m, CacheOnly t.lives g ∧ m.num = n ∧ m.userCnt = ownerWeight ∧
      0 ≤ m.pageUsed ∧ (pageNum ≤ 0 → m.pageCnt = 0) ∧
      Balanced (live t (enlisted (numbered t.lives) n) (t.scatters.map g ++ [m])) s

/-- The scatter that is made next. -/
def fresh (t : Terms) (maxPage : Int) : Scatter := newScatter t.lives.nextScatter maxPage

section New
variable {maxPage : Int}

section
variable (h : Balanced t s)
include h

theorem map_new (hg : CacheOnly t.lives g) : ∀ b ∈ t.scatters.map g, b.num ≠ t.lives.nextScatter := by
  intro c hc
  obtain ⟨b, hb, rfl⟩ := mem_map.mp hc
  rw [hg.num]
  have hstand : s.scatters = t.scatters := h.stand
  have hlt := h.scatterNumbered b (show b ∈ s.scatters from hstand.symm ▸ hb)
  rw [h.alive] at hlt
  exact Nat.ne_of_lt hlt

theorem new_not_cache : t.lives.isCache t.lives.nextScatter = false := by
  rw [← Bool.not_eq_true]
  intro hc
  have hlt := h.cachesNumbered t.lives.nextScatter (h.alive.symm ▸ hc)
  rw [h.alive] at hlt
  exact Nat.lt_irrefl _ hlt

theorem addScatter_balanced (hmax : 0 ≤ maxPage) :
    Balanced (live t (numbered t.lives) (t.scatters ++ [fresh t maxPage]))
      { s with scatters := s.scatters ++ [newScatter s.nextScatter maxPage], nextScatter := s.nextScatter + 1 } := by
  have hadd := h.addScatter hmax
  have hnext : s.nextScatter = t.lives.nextScatter := congrArg Lives.nextScatter h.alive
  have hterms : live t (numbered t.lives) (t.scatters ++ [fresh t maxPage]) =
      { t with lives := { t.lives with nextScatter := s.nextScatter + 1 }
               scatters := s.scatters ++ [newScatter s.nextScatter maxPage] } := by
    rw [h.same, hnext]
    rfl
  rw [hterms]
  exact hadd

theorem enlistNew_made (hg : CacheOnly t.lives g)
    (hnum : m.num = t.lives.nextScatter) (hcnt : 0 ≤ m.pageCnt) {pageNum : Int} (hnone : pageNum ≤ 0 → m.pageCnt = 0)
    {s' : Sc} (hs : Balanced (live t (numbered t.lives) (t.scatters.map g ++ [m])) s') :
    Made t pageNum (some t.lives.nextScatter) (enlistScatter t.lives.nextScatter s') := by
  refine ⟨rfl, g, owned m, hg, hnum, rfl, hcnt, hnone, ?_⟩
  have henlist := enlist_balanced hs (n := t.lives.nextScatter) (new_not_cache h)
  have hold := map_new h hg
  have hsplit : update num t.lives.nextScatter owned (t.scatters.map g ++ [m]) = t.scatters.map g ++ [owned m] :=
    update_split owned hnum hold (nofun)
  rw [← hsplit]
  exact henlist

omit h in
theorem mem_single_new : ∀ b ∈ ([] : List Scatter), b.num ≠ n :=
  nofun

/-- Without pages the new scatter is freed again, and with some it enters the lists. -/
theorem fillNew_spec {pages : List Nat} {pageNum : Int}
    (hquiet : t.Quiet) (hpos : 0 < pageNum) (hmax : pageNum ≤ maxPage) (hg : CacheOnly t.lives g) {s' : Sc}
    (hs : Supplied (live t (numbered t.lives) (t.scatters.map g ++ [fresh t maxPage])) pages
      pageNum.toNat s') :
    Made t pageNum (fillNew t.lives.nextScatter pages s').1 (fillNew t.lives.nextScatter pages s').2 := by
  have hold := map_new h hg
  have hnum : (fresh t maxPage).num = t.lives.nextScatter := rfl
  have hstand : s'.scatters = t.scatters.map g ++ [fresh t maxPage] := hs.balanced.stand
  have hlook : lookup num t.lives.nextScatter s'.scatters = some (fresh t maxPage) := by
    rw [hstand]
    exact lookup_append_new (b := fresh t maxPage) hold
  rw [fillNew]
  split
  next hnone =>
    have hb := hs.balanced
    rw [length_eq_zero_iff.mp hnone, Terms.plus_nil, show (([] : List Nat).length : Int) = 0 from rfl,
      Terms.ahead_zero] at hb
    refine ⟨g, hg, .inr ?_⟩
    have hgone : remove num t.lives.nextScatter (t.scatters.map g ++ [fresh t maxPage]) =
        t.scatters.map g := by
      rw [remove_split hnum hold mem_single_new, append_nil]
    have hfree := freeScatter_spec (m := fresh t maxPage) hb hquiet hlook true
    have hrun : codecMmScatterFreeOnNouserExt t.lives.nextScatter true s' =
        freeScatter (fresh t maxPage) true s' := by
      rw [codecMmScatterFreeOnNouserExt, get_bind, hlook]
      rfl
    show Balanced _ (codecMmScatterFreeOnNouserExt t.lives.nextScatter true s').2
    rw [hrun, ← hgone]
    exact hfree
  next =>
    have hfew := hs.few
    have hpush := hs.balanced.pushScatter (t := live t (numbered t.lives) (t.scatters.map g ++ [_])) h.flying hlook
      (newScatter_holds _ (by omega)) hs.filled (show ((0 : Nat) : Int) + pages.length ≤ maxPage by omega)
    have hplain : s'.isCacheSc t.lives.nextScatter = false := (isCacheSc_eq hs.balanced _).trans (new_not_cache h)
    have hsplit : update num t.lives.nextScatter (·.push pages)
        (t.scatters.map g ++ [fresh t maxPage]) =
        t.scatters.map g ++ [(fresh t maxPage).push pages] :=
      update_split (·.push pages) hnum hold mem_single_new
    rw [hplain, if_neg (by decide), Terms.cacheAhead_zero, hstand, hsplit] at hpush
    have hcnt : 0 ≤ ((fresh t maxPage).push pages).pageCnt :=
      Int.add_nonneg (Int.le_refl 0) (Int.natCast_nonneg _)
    have hmade := @enlistNew_made ((fresh t maxPage).push pages) _ _ _ h hg
      hnum hcnt pageNum (fun hle => absurd hle (Int.not_le.mpr hpos)) _ hpush
    show Made t pageNum (some _) (enlistScatter t.lives.nextScatter { s' with
      scatters := update num t.lives.nextScatter (·.push pages) s'.scatters })
    rw [hstand, hsplit]
    exact hmade

theorem allocNew_spec (hquiet : t.Quiet) (pageNum : Int) :
    Made t pageNum (codecMmScatterAllocNew env maxPage pageNum s).1
      (codecMmScatterAllocNew env maxPage pageNum s).2 := by
  have hnone : ∀ s', Balanced t s' → Made t pageNum none s' := fun s' hs =>
    ⟨_, CacheOnly.id _, .inl ((Terms.on_self t).symm ▸ hs)⟩
  rw [codecMmScatterAllocNew]
  split
  next => exact hnone s h
  next hmax =>
    have hask : Balanced t (ask env s).2 := ask_keeps s h
    have hadd := @addScatter_balanced _ _ maxPage hask (by omega)
    have hnext : (ask env s).2.nextScatter = t.lives.nextScatter := congrArg Lives.nextScatter h.alive
    have hplain : (ask env s).2.isCacheSc t.lives.nextScatter = false := (isCacheSc_eq hask _).trans (new_not_cache h)
    refine Triple.bind (P := (· = s)) (R := fun _ s1 => s1 = (ask env s).2)
      (Q := fun made s' => Made t pageNum made s') (by rintro _ rfl; rfl) (fun vmalloc => ?_) s rfl
    rintro s1 rfl
    rw [get_bind, hnext, hplain]
    split
    next => exact hnone _ hask
    next =>
      refine Triple.bind (P := (· = (ask env s).2)) (R := fun _ s2 => Balanced
        (live t (numbered t.lives) (t.scatters ++ [fresh t maxPage])) s2)
        (Q := fun made s' => Made t pageNum made s') ?_ (fun _ => ?_) _ rfl
      · rintro _ rfl
        exact hadd
      · refine Triple.ite (fun hpos => Triple.bind (allocAll_spec pageNum.toNat false) fun pages s' hs => ?_)
          fun _ s2 hs => ?_
        · obtain ⟨g, _, hg, hs⟩ := hs
          have hcache : CacheOnly t.lives g := { hg with }
          have hmap : (t.scatters ++ [fresh t maxPage]).map g =
              t.scatters.map g ++ [fresh t maxPage] := by
            rw [map_append, map_singleton, hcache.rest _ (new_not_cache h)]
          have hs : Supplied (live t (numbered t.lives) ((t.scatters ++ [fresh t maxPage]).map g))
            pages pageNum.toNat s' := hs
          rw [hmap] at hs
          exact fillNew_spec h hquiet hpos (by omega) hcache hs
        · rw [← map_id' t.scatters] at hs
          exact enlistNew_made (m := fresh t maxPage) h (CacheOnly.id _) rfl (Int.le_refl 0)
            (fun _ => rfl) hs

end

end New

/-! ## Allocation -/

def revived (m : Scatter) : Scatter := { m with userCnt := m.userCnt + ownerWeight, pageUsed := m.pageCnt }

def disowned (m : Scatter) : Scatter := { m with userCnt := m.userCnt - ownerWeight }

/-- The scatter of an allocation: an idle one of the list, or a new one. -/
inductive Picked (t : Terms) (n : Nat) : Terms → Prop
  | idle (m : Scatter) (hlist : n ∈ t.lives.scatterList) (hm : lookup Scatter.num n t.scatters = some m)
      (hidle : m.userCnt = 0) : Picked t n (t.on (update Scatter.num n revived t.scatters))
  | made (g : Scatter → Scatter) (m : Scatter) (hn : n = t.lives.nextScatter) (hg : CacheOnly t.lives g)
      (hnum : m.num = n) (huser : m.userCnt = ownerWeight) (hused : 0 ≤ m.pageUsed) :
      Picked t n (live t (enlisted (numbered t.lives) n) (t.scatters.map g ++ [m]))

theorem touch_balanced (h : Balanced t s) (n : Nat) (hnum : ∀ b, (f b).num = b.num)
    (hholds : ∀ b held, Holds b held → Holds (f b) held) :
    Balanced (t.on (update num n f t.scatters)) (modifyScatter n f s).2 := by
  have htouch := h.touchScatter (n := n) hnum hholds
  rw [← h.same]
  exact htouch

theorem idleScatter_some {maxPage : Int} (h : idleScatter s maxPage = some n) :
    n ∈ s.scatterList ∧ ∃ m, Has s n m ∧ m.userCnt = 0 := by
  have hin := mem_of_find?_eq_some h
  have hany := find?_some h
  refine ⟨mem_reverse.mp hin, ?_⟩
  cases hm : lookup num n s.scatters with
  | none =>
    rw [hm] at hany
    exact Bool.noConfusion hany
  | some m =>
    rw [hm, Option.any_some, Bool.and_eq_true, beq_iff_eq] at hany
    exact ⟨m, hm, hany.2⟩

theorem scatterForAlloc_spec (h : Balanced t s) (hquiet : t.Quiet) (maxPage : Int) :
    ((scatterForAlloc env maxPage s).1 = none ∧ Made t 0 none (scatterForAlloc env maxPage s).2) ∨
      ∃ n t', (scatterForAlloc env maxPage s).1 = some n ∧ Picked t n t' ∧
        Balanced t' (scatterForAlloc env maxPage s).2 := by
  have hlist : s.scatterList = t.lives.scatterList := congrArg Lives.scatterList h.alive
  rw [scatterForAlloc, get_bind]
  cases hidle : idleScatter s maxPage with
  | some n =>
    obtain ⟨hin, m, hm, huser⟩ := idleScatter_some hidle
    exact .inr ⟨n, _, rfl, .idle m (hlist ▸ hin) (h.same ▸ hm) huser,
      touch_balanced h n (fun _ => rfl) fun _ _ hb => hb.frame rfl rfl rfl rfl⟩
  | none =>
    have hmade := @allocNew_spec env _ _ maxPage h hquiet 0
    dsimp only
    generalize codecMmScatterAllocNew env maxPage 0 s = got at hmade ⊢
    obtain ⟨made, s'⟩ := got
    cases made with
    | none => exact .inl ⟨rfl, hmade⟩
    | some n =>
      obtain ⟨hn, g, m, hg, hnum, huser, hused, _, hb⟩ := hmade
      exact .inr ⟨n, _, rfl, .made g m hn hg hnum huser hused, hb⟩

/-- An allocation: nothing was to be had; or a scatter was picked and given back, since the
request was refused; or it was picked and has the pages there were. -/
inductive Alloced (t : Terms) (pageNum : Int) : Option Nat → Sc → Prop
  | none {s : Sc} (hmade : Made t 0 none s) : Alloced t pageNum none s
  | refused {n : Nat} {t' : Terms} {s : Sc} (hpick : Picked t n t')
      (hb : Balanced (t'.on (update Scatter.num n disowned t'.scatters)) s) : Alloced t pageNum none s
  | some {n : Nat} {t' : Terms} {g : Scatter → Scatter} {s : Sc} (hpick : Picked t n t') (hg : UsersKept g)
      (hpage : 0 ≤ pageNum → PageChange g) (hb : Balanced (t'.on (t'.scatters.map g)) s) : Alloced t pageNum (some n) s

theorem alloc_spec (h : Balanced t s) (hquiet : t.Quiet) (maxPage pageNum : Int) :
    Alloced t pageNum (codecMmScatterAlloc env maxPage pageNum s).1 (codecMmScatterAlloc env maxPage pageNum s).2 := by
  refine Triple.bind (P := (· = s)) (R := fun picked s1 => (picked = none ∧ Made t 0 none s1) ∨
      ∃ n t', picked = some n ∧ Picked t n t' ∧ Balanced t' s1) (Q := fun made s' => Alloced t pageNum made s')
    (by rintro _ rfl; exact scatterForAlloc_spec h hquiet maxPage) (fun picked => ?_) s rfl
  cases picked with
  | none =>
    rintro s1 (⟨_, hmade⟩ | ⟨n, t', hnone, _⟩)
    · exact .none hmade
    · cases hnone
  | some n =>
    rintro s1 (⟨hnone, _⟩ | ⟨k, t', hk, hpick, hb⟩)
    · cases hnone
    · cases hk
      refine Triple.bind (P := (· = s1)) (R := fun ret s2 => (ret < 0 ∧ s2 = s1) ∨ (ret = 0 ∧ ∃ g, UsersKept g ∧
          (0 ≤ pageNum → PageChange g) ∧ Balanced (t'.on (t'.scatters.map g)) s2))
        (Q := fun made s' => Alloced t pageNum made s') (by rintro _ rfl; exact wantPages_spec hb n pageNum)
        (fun ret => .ite (fun hneg s2 hs => ?_) fun hpos s2 hs => ?_) s1 rfl
      · rcases hs with ⟨_, rfl⟩ | ⟨hzero, _⟩
        · exact .refused hpick (touch_balanced hb n (fun _ => rfl) fun _ _ hb => hb.frame rfl rfl rfl rfl)
        · omega
      · rcases hs with ⟨hneg, _⟩ | ⟨_, g, hg, hpage, hb⟩
        · exact absurd hneg hpos
        · exact .some hpick hg hpage hb

end Life

end AmlogicV901d.Guarantees.ScatterLife
