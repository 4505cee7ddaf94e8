import AmlogicV901d.Source.Crypto.ShaState

/-!
# Exported hash states

The exported record has the addresses of the digest buffer and of the page for descriptors, and
not what is in them. It is the state of the request as long as the request does not go on. When
the request comes to its end both are given back, and the request that imports the record has
neither.
-/
namespace AmlogicV901d.Guarantees.HashSnapshot
open Source.Crypto.Sha (Dsc ReqCtx Scatterlist amlShaInit hashMessage ending blockSize nbytes amlShaUpdate)
open Source.Crypto Source.Crypto.ShaState List

variable {σ : Type} {e : Engine σ} {r r' : Request} {m m' : Memory σ} {state : σ} {dscs : List Dsc} {ctx ctx' : ReqCtx}

/-! ## What is asked -/

def message (sgs : List Scatterlist) (last : Option Scatterlist) : List UInt8 :=
  sgs.flatten.flatten ++ (last.getD []).flatten

/-- The descriptors of a whole message. -/
structure Spells (dscs : List Dsc) (message : List UInt8) : Prop where
  nonempty : dscs ≠ []
  bytes : (dscs.map Dsc.src).flatten = message
  lengths : ∀ d ∈ dscs, d.length = d.src.length
  blocks : ∀ d ∈ dscs.dropLast, d.length % blockSize = 0
  first : ∀ i d, dscs[i]? = some d → (d.first = true ↔ i = 0)
  last : ∀ i d, dscs[i]? = some d → (d.last = true ↔ i + 1 = dscs.length)

/-- Both requests have the digests of their messages, and all memory was given back once. -/
def Independent (e : Engine σ) (sgs : List Scatterlist) (a : Option Continuation) (b : Continuation) : Prop :=
  ∃ first second m, exported e sgs a b = some (first, second, m) ∧
    first = a.map (fun c => e.digest (message (sgs ++ c.sgs) c.last)) ∧
    second = e.digest (message (sgs ++ b.sgs) b.last) ∧
    ∀ address < m.next, m.released.count (.digest address) = 1 ∧ m.released.count (.descriptor address) = 1

/-! ## The engine -/

/-- Descriptors up to the end of a message. -/
theorem foldl_feed (d : Dsc) (more : List Dsc) (state : σ) (hlengths : ∀ x ∈ d :: more, x.length = x.src.length)
    (hblocks : ∀ x ∈ (d :: more).dropLast, x.length % blockSize = 0) (hfirst : ∀ x ∈ more, x.first = false)
    (hlast : ∀ i x, (d :: more)[i]? = some x → (x.last = true ↔ i + 1 = (d :: more).length)) :
    (d :: more).foldl e.feed state =
      e.close (if d.first then e.initial else state) ((d :: more).map Dsc.src).flatten := by
  induction more generalizing d state with
  | nil =>
    have hd : d.last = true := (hlast 0 d rfl).mpr rfl
    simp [Engine.feed, hd, hlengths d (by simp)]
  | cons next others ih =>
    have hd : d.last = false := by
      by_contra hclosed
      have hend := (hlast 0 d rfl).mp (by simpa using hclosed)
      simp at hend
    have hblock : d.src.length % blockSize = 0 := by
      rw [← hlengths d (by simp)]
      exact hblocks d (by simp)
    have hfeed : e.feed state d = e.absorb (if d.first then e.initial else state) d.src := by
      simp [Engine.feed, hd, hlengths d (by simp)]
    rw [foldl_cons, hfeed, ih, hfirst next (by simp), if_neg (by simp), e.close_absorb _ _ _ hblock]
    · simp
    · exact fun x hx => hlengths x (.tail _ hx)
    · intro x hx
      apply hblocks x
      exact .tail _ hx
    · exact fun x hx => hfirst x (.tail _ hx)
    · intro i x hx
      have hiff := hlast (i + 1) x hx
      rw [hiff, length_cons]
      omega

theorem foldl_spells {bytes : List UInt8} (h : Spells dscs bytes) (state : σ) : dscs.foldl e.feed state = e.digest bytes := by
  obtain ⟨d, more, rfl⟩ := exists_cons_of_ne_nil h.nonempty
  have hd : d.first = true := (h.first 0 d rfl).mpr rfl
  have hmore : ∀ x ∈ more, x.first = false := by
    intro x hx
    obtain ⟨i, hi⟩ := mem_iff_getElem?.mp hx
    have hiff := h.first (i + 1) x hi
    by_contra hbegin
    exact absurd (hiff.mp (by simpa using hbegin)) (by simp)
  rw [foldl_feed d more state h.lengths h.blocks hmore h.last, hd, if_pos rfl, h.bytes, Engine.digest]

/-! ## A request that has its memory -/

/-- The digest buffer with its state, and the page. -/
structure Held (r : Request) (m : Memory σ) (state : σ) : Prop where
  digest : m.digests r.digest = some state
  descriptor : m.descriptors r.descriptor = true

/-- What a request does to memory it leaves alone. -/
structure Frame (m m' : Memory σ) : Prop where
  next : m'.next = m.next
  released : m'.released = m.released

theorem Frame.trans {m'' : Memory σ} (h : Frame m m') (h' : Frame m' m'') : Frame m m'' :=
  ⟨h'.next.trans h.next, h'.released.trans h.released⟩

variable {run : ReqCtx → Option (ReqCtx × List Dsc)}

theorem serve_held (h : Held r m state) (hrun : run r.ctx = some (ctx, dscs)) :
    ∃ m', serve e run r m = some ({ r with ctx := ctx }, m') ∧ Held { r with ctx := ctx } m' (dscs.foldl e.feed state) ∧
      Frame m m' := by
  have hrestore : amlShaStateRestore r m = some () := by
    unfold amlShaStateRestore
    simp [h.digest, h.descriptor]
  by_cases hnone : dscs = []
  · refine ⟨m, ?_, ?_, rfl, rfl⟩
    · simp [serve, hrestore, hrun, transfer, hnone]
    · rw [hnone]
      exact ⟨h.digest, h.descriptor⟩
  · refine ⟨m.setDigest r.digest (dscs.foldl e.feed state), ?_, ⟨?_, h.descriptor⟩, rfl, rfl⟩
    · simp [serve, hrestore, hrun, transfer, hnone, h.digest, h.descriptor]
    · simp [Memory.setDigest]

variable (sgs : List Scatterlist)

theorem updates_held (h : Held r m state) (hrun : Sha.updates sgs r.ctx = some (ctx, dscs)) :
    ∃ m', updates e sgs r m = some ({ r with ctx := ctx }, m') ∧ Held { r with ctx := ctx } m' (dscs.foldl e.feed state) ∧
      Frame m m' := by
  induction sgs generalizing r m state dscs with
  | nil =>
    cases hrun
    exact ⟨m, rfl, h, rfl, rfl⟩
  | cons sg sgs ih =>
    simp only [Sha.updates, Option.bind_eq_bind, Option.bind_eq_some_iff, Option.pure_def, Option.some.injEq] at hrun
    obtain ⟨⟨ctx', done⟩, hupdate, ⟨ctx'', more⟩, hmore, heq⟩ := hrun
    cases heq
    have hone : ∃ m', update e sg r m = some ({ r with ctx := ctx' }, m') ∧
        Held { r with ctx := ctx' } m' (done.foldl e.feed state) ∧ Frame m m' := by
      unfold update
      by_cases hbytes : nbytes sg = 0
      · rw [amlShaUpdate, if_pos hbytes] at hupdate
        cases hupdate
        exact ⟨m, if_pos hbytes, h, rfl, rfl⟩
      · rw [if_neg hbytes]
        exact serve_held h hupdate
    obtain ⟨m', hserved, hheld, hframe⟩ := hone
    obtain ⟨m'', hrest, hheld', hframe'⟩ := ih hheld hmore
    refine ⟨m'', ?_, ?_, hframe.trans hframe'⟩
    · simp [updates, hserved, hrest]
    · rwa [foldl_append]

theorem finishWith_held (c : Continuation) (h : Held r m state) (hrun : hashMessage c.sgs c.last r.ctx = some (ctx, dscs)) :
    ∃ m', finishWith e c r m = some (dscs.foldl e.feed state, m') ∧ m'.next = m.next ∧
      m'.released = m.released ++ [.digest r.digest, .descriptor r.descriptor] := by
  simp only [hashMessage, Option.bind_eq_bind, Option.bind_eq_some_iff, Option.pure_def, Option.some.injEq] at hrun
  obtain ⟨⟨ctx', done⟩, hupdates, ⟨ctx'', more⟩, hending, heq⟩ := hrun
  cases heq
  obtain ⟨m', hrest, hheld, hframe⟩ := updates_held (e := e) c.sgs h hupdates
  obtain ⟨m'', hserved, hheld', hframe'⟩ := serve_held (e := e) hheld hending
  have hboth := hframe.trans hframe'
  refine ⟨m''.release r, ?_, hboth.next, ?_⟩
  · simp [finishWith, hrest, hserved, amlShaFinish, hheld'.digest, hheld'.descriptor, Memory.release]
  · rw [← hboth.released]
    rfl

/-! ## A request that has lost its memory -/

/-- The digest buffer of the request was given back. -/
def Lost (r : Request) (m : Memory σ) : Prop := m.digests r.digest = none

theorem serve_keeps (h : serve e run r m = some (r', m')) : r'.digest = r.digest ∧ (Lost r m → Lost r' m') := by
  simp only [serve, Option.bind_eq_bind, Option.bind_eq_some_iff, Option.pure_def, Option.some.injEq] at h
  obtain ⟨-, -, ⟨ctx, dscs⟩, -, m'', htransfer, heq⟩ := h
  cases heq
  refine ⟨rfl, ?_⟩
  intro hlost
  unfold Lost at hlost ⊢
  unfold transfer at htransfer
  split at htransfer
  · cases htransfer
    exact hlost
  · simp [hlost] at htransfer

theorem updates_keeps (h : updates e sgs r m = some (r', m')) : r'.digest = r.digest ∧ (Lost r m → Lost r' m') := by
  induction sgs generalizing r m with
  | nil =>
    cases h
    exact ⟨rfl, id⟩
  | cons sg sgs ih =>
    simp only [updates, Option.bind_eq_bind, Option.bind_eq_some_iff] at h
    obtain ⟨⟨r'', m''⟩, hupdate, hrest⟩ := h
    have hone : r''.digest = r.digest ∧ (Lost r m → Lost r'' m'') := by
      unfold update at hupdate
      split at hupdate
      · cases hupdate
        exact ⟨rfl, id⟩
      · exact serve_keeps hupdate
    obtain ⟨hdigest, hlost⟩ := ih hrest
    exact ⟨hdigest.trans hone.1, hlost ∘ hone.2⟩

theorem finishWith_some {c : Continuation} {digest : σ} (h : finishWith e c r m = some (digest, m')) :
    ¬ Lost r m ∧ Lost r m' := by
  simp only [finishWith, Option.bind_eq_bind, Option.bind_eq_some_iff] at h
  obtain ⟨⟨r₁, m₁⟩, hupdates, ⟨r₂, m₂⟩, hserve, hfinish⟩ := h
  obtain ⟨hdigest₁, hlost₁⟩ := updates_keeps c.sgs hupdates
  obtain ⟨hdigest₂, hlost₂⟩ := serve_keeps hserve
  have hheld : ¬ Lost r₂ m₂ := by
    intro hlost
    unfold Lost at hlost
    simp [amlShaFinish, hlost] at hfinish
  refine ⟨fun hlost => hheld (hlost₂ (hlost₁ hlost)), ?_⟩
  simp only [amlShaFinish, Option.bind_eq_bind, Option.bind_eq_some_iff] at hfinish
  obtain ⟨state, -, hrelease⟩ := hfinish
  split at hrelease
  · obtain ⟨-, rfl⟩ := Prod.mk.inj (Option.some.inj hrelease)
    simp [Lost, Memory.release, hdigest₂, hdigest₁]
  · cases hrelease

/-! ## The exported state -/

theorem exported_some (e : Engine σ) (sgs : List Scatterlist) (a b : Continuation) : exported e sgs (some a) b = none := by
  by_contra hsome
  obtain ⟨result, hresult⟩ := Option.ne_none_iff_exists'.mp hsome
  simp only [exported, Option.bind_eq_bind, Option.bind_eq_some_iff, Option.map_eq_some_iff, Option.pure_def] at hresult
  obtain ⟨⟨r, m⟩, -, ⟨first, m'⟩, ⟨⟨digest, m''⟩, hfirst, heq⟩, ⟨second, m₂⟩, hsecond, -⟩ := hresult
  obtain ⟨-, rfl⟩ := Prod.mk.inj heq
  exact (finishWith_some hsecond).1 (finishWith_some hfirst).2

theorem updates_append {xs ys : List Scatterlist} (h : Sha.updates (xs ++ ys) ctx = some (ctx', dscs)) :
    ∃ mid done more, Sha.updates xs ctx = some (mid, done) ∧ Sha.updates ys mid = some (ctx', more) ∧ dscs = done ++ more := by
  induction xs generalizing ctx dscs with
  | nil => exact ⟨ctx, [], dscs, rfl, h, rfl⟩
  | cons sg xs ih =>
    simp only [cons_append, Sha.updates, Option.bind_eq_bind, Option.bind_eq_some_iff, Option.pure_def, Option.some.injEq] at h
    obtain ⟨⟨ctx₁, first⟩, hupdate, ⟨ctx₂, others⟩, hothers, heq⟩ := h
    cases heq
    obtain ⟨mid, done, more, hxs, hys, rfl⟩ := ih hothers
    refine ⟨mid, first ++ done, more, ?_, hys, by simp⟩
    simp [Sha.updates, hupdate, hxs]

theorem hashMessage_append {xs ys : List Scatterlist} {last : Option Scatterlist}
    (h : hashMessage (xs ++ ys) last ctx = some (ctx', dscs)) :
    ∃ mid done more, Sha.updates xs ctx = some (mid, done) ∧ hashMessage ys last mid = some (ctx', more) ∧ dscs = done ++ more := by
  simp only [hashMessage, Option.bind_eq_bind, Option.bind_eq_some_iff, Option.pure_def, Option.some.injEq] at h
  obtain ⟨⟨ctx₁, first⟩, hupdates, ⟨ctx₂, others⟩, hending, heq⟩ := h
  cases heq
  obtain ⟨mid, done, more, hxs, hys, rfl⟩ := updates_append hupdates
  refine ⟨mid, done, more ++ others, hxs, ?_, by simp⟩
  simp [hashMessage, hys, hending]

theorem exported_none (b : Continuation) (h : hashMessage (sgs ++ b.sgs) b.last amlShaInit = some (ctx, dscs)) :
    ∃ m, exported e sgs none b = some (none, dscs.foldl e.feed e.zeroed, m) ∧ m.next = 1 ∧
      m.released = [.digest 0, .descriptor 0] := by
  obtain ⟨ctx', done, more, hprefix, hmore, rfl⟩ := hashMessage_append h
  have hinit : Held (init e .empty).1 (init e .empty).2 e.zeroed :=
    ⟨by simp [init, Memory.setDigest, Memory.empty], by simp [init, Memory.empty]⟩
  obtain ⟨m, hupdates, hheld, hframe⟩ := updates_held (e := e) sgs hinit hprefix
  obtain ⟨m', hfinish, hnext, hreleased⟩ := finishWith_held (e := e) b hheld hmore
  refine ⟨m', ?_, hnext.trans hframe.next, ?_⟩
  · simp [exported, hupdates, amlShaExport, amlShaImport, hfinish, foldl_append]
  · rw [hreleased, hframe.released]
    rfl

theorem not_independent (e : Engine σ) (sgs : List Scatterlist) (a b : Continuation) : ¬ Independent e sgs (some a) b := by
  rintro ⟨first, second, m, hrun, -⟩
  rw [exported_some] at hrun
  cases hrun

/-- The exported state is a snapshot only if the request does not go on, and then it is, of a message that is
spelled out to the engine. -/
theorem snapshot_independent (e : Engine σ) (sgs : List Scatterlist) (a : Option Continuation) (b : Continuation) :
    (Independent e sgs a b → a = none) ∧ ∀ ctx dscs, hashMessage (sgs ++ b.sgs) b.last amlShaInit = some (ctx, dscs) →
        Spells dscs (message (sgs ++ b.sgs) b.last) → a = none → Independent e sgs a b := by
  constructor
  · intro hindependent
    cases a with
    | none => rfl
    | some a => exact absurd hindependent (not_independent e sgs a b)
  · rintro ctx dscs hmessage hspells rfl
    obtain ⟨m, hrun, hnext, hreleased⟩ := exported_none (e := e) sgs b hmessage
    refine ⟨none, _, m, hrun, rfl, foldl_spells hspells _, ?_⟩
    intro address haddress
    obtain rfl : address = 0 := by omega
    simp [hreleased]

/-- An engine of which the state is the message itself. -/
def plainEngine : Engine (List UInt8) where
  initial := []
  zeroed := []
  absorb := (· ++ ·)
  close := (· ++ ·)
  close_absorb := fun state blocks rest _ => List.append_assoc state blocks rest

/-- A state exported after two bytes and imported by a request that ends the message. -/
theorem snapshot_independent_moved :
    (hashMessage ([[[1, 2]]] ++ []) (some [[3]]) amlShaInit).map Prod.snd = some [⟨[1, 2, 3], 3, true, true⟩] ∧
      Independent plainEngine [[[1, 2]]] none ⟨[], some [[3]]⟩ := by
  refine ⟨by decide, (snapshot_independent plainEngine _ _ ⟨[], some [[3]]⟩).2 _ [⟨[1, 2, 3], 3, true, true⟩] rfl ?_ rfl⟩
  constructor
  case first | last => rintro (_ | i) d ⟨⟩; simp
  all_goals decide

/-- A request is exported after a byte and ended, and another one with the exported state is ended. -/
theorem snapshot_lost : (exported plainEngine [[[1]]] (some ⟨[], none⟩) ⟨[], none⟩).isNone = true ∧
      ¬ Independent plainEngine [[[1]]] (some ⟨[], none⟩) ⟨[], none⟩ :=
  ⟨by decide +kernel, not_independent plainEngine _ _ _⟩

end AmlogicV901d.Guarantees.HashSnapshot
