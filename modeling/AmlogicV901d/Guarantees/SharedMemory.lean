import Mathlib.Data.List.Basic
import Mathlib.Data.List.Count
import Mathlib.Data.Option.Basic
import AmlogicV901d.Lib.ReplaceByLast
import AmlogicV901d.Guarantees.CodecAccounting

/-!
# References of a shared block

The references of a block are the entries of its owner array below `use_cnt`. Beside
them runs the list of references that are really outstanding: the allocating owner,
and every owner whose request returned 0. They agree as long as a request finds the
block with room for one more reference, and a release is made by an owner with a single
reference or by the owner in the last entry.
-/
namespace AmlogicV901d.Guarantees.SharedMemory
open Source.CodecMm Lib.StateTriple Lib.ReplaceByLast CodecAccounting

/-! ## Runs -/

inductive ShareOp
  | request (who : String)
  | release (who : String)
  deriving DecidableEq, Repr

/-- The manager and the outstanding references of a block. -/
structure Shared where
  mgt : Mgt
  refs : List String

section Runs
variable (env : MmEnv) (id : Nat)

def shareStep (st : Shared) : ShareOp → Shared
  | .request who =>
    let got := codecMmRequestSharedMem id who st.mgt
    ⟨got.2, if got.1 = 0 then who :: st.refs else st.refs⟩
  | .release who => ⟨(codecMmRelease env id who st.mgt).2, st.refs.erase who⟩

/-- A release is made by an owner that holds a reference. -/
def Legal (st : Shared) : ShareOp → Prop
  | .request _ => True
  | .release who => who ∈ st.refs

/-- The count, the owners and the life of the block are those of the references. -/
structure Tracks (st : Shared) : Prop where
  count : ∀ mem, st.mgt.memList.find? (·.id = id) = some mem → mem.useCnt = st.refs.length
  owner : ∀ who, codecMmHasOwner st.mgt id who = 1 ↔ who ∈ st.refs
  listed : st.mgt.memList.find? (·.id = id) = none ↔ st.refs = []
  freed : id ∈ st.mgt.kfreed ↔ st.refs = []

/-- A request finds the block with room, and a release takes the only reference of its
owner or the last entry. -/
def Careful (st : Shared) : ShareOp → Prop
  | .request _ => ∃ mem, st.mgt.memList.find? (·.id = id) = some mem ∧ mem.useCnt ≤ 7
  | .release who => st.refs.count who = 1 ∨
    ∃ mem, st.mgt.memList.find? (·.id = id) = some mem ∧ mem.owner.getD (mem.useCnt - 1) none = some who

/-- A property of every operation of a run, in the state before it. -/
def AtEach (P : Shared → ShareOp → Prop) : Shared → List ShareOp → Prop
  | _, [] => True
  | st, op :: ops => P st op ∧ AtEach P (shareStep env id st op) ops

/-- A property of every state of a run. -/
def Always (P : Shared → Prop) : Shared → List ShareOp → Prop
  | st, [] => P st
  | st, op :: ops => P st ∧ Always P (shareStep env id st op) ops

instance (st : Shared) : DecidablePred (Legal st)
  | .request _ => isTrue trivial
  | .release who => inferInstanceAs (Decidable (who ∈ st.refs))

instance instDecidableAtEach (P : Shared → ShareOp → Prop) [∀ st, DecidablePred (P st)] :
    (st : Shared) → (ops : List ShareOp) → Decidable (AtEach env id P st ops)
  | _, [] => isTrue trivial
  | st, op :: ops =>
    have := instDecidableAtEach P (shareStep env id st op) ops
    inferInstanceAs (Decidable (P st op ∧ AtEach env id P (shareStep env id st op) ops))

end Runs

/-! ## Owner arrays -/

variable (a : Vector (Option String) 8)

theorem owners_take_succ {index : Nat} (h : index < 8) :
    a.toList.take (index + 1) = a.toList.take index ++ [a.getD index none] := by
  have hlen : index < a.toList.length := by simpa using h
  rw [List.take_succ_eq_append_getElem hlen]
  simp [Vector.getD, h]

theorem releaseOwners_take (index : Nat) (who : String) : (releaseOwners a index who).toList.take index =
      replaceByLast (a.toList.take index) (a.getD index none) (some who) := by
  apply List.ext_getElem (by simp [replaceByLast])
  intro i hi hi'
  rw [List.length_take] at hi
  have hlt : i < index := Nat.lt_of_lt_of_le hi (Nat.min_le_left _ _)
  simp [replaceByLast, releaseOwners, hlt, Nat.ne_of_lt hlt]

theorem setOwner_take {n : Nat} (h : n < 8) (who : String) :
    (a.setIfInBounds n (some who)).toList.take (n + 1) = a.toList.take n ++ [some who] := by
  rw [owners_take_succ _ h]
  congr 1
  · apply List.ext_getElem (by simp)
    intro i hi hi'
    rw [List.length_take] at hi
    have hne : n ≠ i := Nat.ne_of_gt (Nat.lt_of_lt_of_le hi (Nat.min_le_left _ _))
    simp [hne]
  · simp [Vector.getD, h]

theorem find_replace {l : List CodecMm} {id : Nat} {mem mem' : CodecMm} (hd : (l.map (·.id)).Nodup)
    (h : l.find? (·.id = id) = some mem) (hid : mem'.id = id) :
    (l.map fun m => if m.id = id then mem' else m).find? (·.id = id) = some mem' :=
  Lib.KeyedList.lookup_update_self (f := fun _ => mem') hid hd h

/-! ## The invariant -/

/-- The entries below the count are the outstanding references, in some order. -/
structure Listed (id : Nat) (mem : CodecMm) (st : Shared) : Prop where
  found : st.mgt.memList.find? (·.id = id) = some mem
  count : mem.useCnt = st.refs.length
  room : mem.useCnt ≤ 8
  some_ref : st.refs ≠ []
  entries : (mem.owner.toList.take mem.useCnt).Perm (st.refs.map some)

/-- The block is in the list with its references, or has none and has been freed. -/
structure Exact (env : MmEnv) (id : Nat) (st : Shared) : Prop where
  sound : Sound env [] st.mgt
  state : (∃ mem, Listed id mem st) ∨ st.refs = [] ∧ st.mgt.memList.find? (·.id = id) = none ∧ id ∈ st.mgt.kfreed

section Steps
variable {env : MmEnv} {id : Nat} {st : Shared}

variable {mem : CodecMm}

theorem hasOwner_of_found {s : Mgt} (h : s.memList.find? (·.id = id) = some mem) (who : String) :
    codecMmHasOwner s id who = 1 ↔ some who ∈ mem.owner.toList.take mem.useCnt := by
  rw [codecMmHasOwner, h, ← List.contains_iff_mem]
  dsimp only
  split
  next hc => exact iff_of_true rfl hc
  next hc => exact iff_of_false (by decide) hc

theorem Listed.hasOwner (h : Listed id mem st) (who : String) : codecMmHasOwner st.mgt id who = 1 ↔ who ∈ st.refs := by
  rw [hasOwner_of_found h.found, h.entries.mem_iff]
  simp

section
variable (h : Exact env id st)
include h

theorem Exact.tracks : Tracks id st := by
  obtain ⟨mem, hlisted⟩ | ⟨hrefs, hnone, hfreed⟩ := h.state
  · refine ⟨fun m hm => ?_, hlisted.hasOwner, ?_, ?_⟩
    · rw [hlisted.found] at hm
      exact Option.some.inj hm ▸ hlisted.count
    · rw [hlisted.found]
      exact iff_of_false (by simp) hlisted.some_ref
    · refine iff_of_false (fun hmem => ?_) hlisted.some_ref
      have hid : mem.id = id := by simpa using List.find?_some hlisted.found
      exact (h.sound.gone id hmem).2 mem (List.mem_of_find?_eq_some hlisted.found) hid
  · refine ⟨fun m hm => ?_, fun who => ?_, iff_of_true hnone hrefs, iff_of_true hfreed hrefs⟩
    · rw [hnone] at hm
      cases hm
    · have hzero : codecMmHasOwner st.mgt id who = 0 := by rw [codecMmHasOwner, hnone]
      rw [hzero, hrefs]
      exact iff_of_false (by decide) List.not_mem_nil

/-! ### A request -/

theorem request_exact (who : String) (hc : Careful id st (.request who)) :
    Exact env id (shareStep env id st (.request who)) := by
  obtain ⟨mem, hfind, hroom⟩ := hc
  have hsound := request_keeps id who st.mgt h.sound
  obtain ⟨mem', hlisted⟩ | ⟨_, hnone, _⟩ := h.state
  case inr =>
    rw [hnone] at hfind
    cases hfind
  have hsame : mem' = mem := Option.some.inj (hlisted.found.symm.trans hfind)
  subst hsame
  have hid : mem'.id = id := by simpa using List.find?_some hfind
  refine ⟨hsound, .inl ⟨{ mem' with
    useCnt := mem'.useCnt + 1, owner := mem'.owner.setIfInBounds mem'.useCnt (some who) }, ?_⟩⟩
  simp only [shareStep, request_eq, hfind, if_neg (show ¬ mem'.useCnt > 7 by omega)]
  refine ⟨find_replace h.sound.distinct hfind hid, ?_, ?_, ?_, ?_⟩
  · rw [if_true, List.length_cons, hlisted.count]
  · exact Nat.succ_le_succ hroom
  · exact List.cons_ne_nil _ _
  · rw [if_true, setOwner_take _ (by omega), List.map_cons]
    exact (List.perm_append_singleton _ _).trans (hlisted.entries.cons _)

theorem request_tracks (who : String)
    (ht : Tracks id (shareStep env id st (.request who))) : Careful id st (.request who) := by
  obtain ⟨mem, hlisted⟩ | ⟨hrefs, hnone, _⟩ := h.state
  · refine ⟨mem, hlisted.found, Nat.le_of_not_lt fun hfull => ?_⟩
    have hcount := ht.count
    simp only [shareStep, request_eq, hlisted.found, if_pos hfull] at hcount
    have hlen := hcount mem rfl
    rw [if_true, List.length_cons, ← hlisted.count] at hlen
    omega
  · have hgone := ht.listed
    simp only [shareStep, request_eq, hnone] at hgone
    exact absurd (hgone.mp trivial) (by simp)

/-! ### A release -/

omit h in
theorem Listed.careful_iff (h : Listed id mem st) (who : String) :
    Careful id st (.release who) ↔ mem.owner.getD (mem.useCnt - 1) none = some who ∨
      (mem.owner.toList.take mem.useCnt).count (some who) = 1 := by
  have hcount : (mem.owner.toList.take mem.useCnt).count (some who) = st.refs.count who := by
    rw [h.entries.count_eq, List.count_map_of_injective _ _ (Option.some_injective String)]
  rw [hcount, Careful, or_comm]
  refine or_congr ⟨fun hlast => ?_, fun hlast => ⟨mem, h.found, hlast⟩⟩ .rfl
  obtain ⟨mem', hfind, hlast⟩ := hlast
  rw [h.found] at hfind
  exact Option.some.inj hfind ▸ hlast

omit h in
theorem Listed.entries_last (h : Listed id mem st) : mem.owner.toList.take mem.useCnt =
      mem.owner.toList.take (mem.useCnt - 1) ++ [mem.owner.getD (mem.useCnt - 1) none] := by
  have hpos : 0 < mem.useCnt := by
    rw [h.count]
    exact List.length_pos_iff.mpr h.some_ref
  have hroom := h.room
  rw [← owners_take_succ _ (by omega), Nat.sub_add_cancel hpos]

variable {who : String}

theorem release_last_exact (hl : Listed id mem st) (hlast : mem.useCnt - 1 = 0)
    (hwho : who ∈ st.refs) : Exact env id (shareStep env id st (.release who)) := by
  have hsound := release_keeps id who st.mgt h.sound
  have hfreed : id ∈ (codecMmRelease env id who st.mgt).2.kfreed := by
    rw [codecMmRelease, release_eq, hl.found]
    dsimp only
    rw [if_pos hlast]
    exact .head _
  refine ⟨hsound, .inr ⟨?_, ?_, hfreed⟩⟩
  · have hlen : (st.refs.erase who).length = 0 := by
      rw [List.length_erase_of_mem hwho, ← hl.count, hlast]
    exact List.length_eq_zero_iff.mp hlen
  · exact List.find?_eq_none.mpr fun m hm => by simpa using (hsound.gone id hfreed).2 m hm

theorem release_shared_exact (hl : Listed id mem st) (hmore : mem.useCnt - 1 ≠ 0)
    (hwho : who ∈ st.refs) (hc : Careful id st (.release who)) : Exact env id (shareStep env id st (.release who)) := by
  have hsound := release_keeps id who st.mgt h.sound
  have hid : mem.id = id := by simpa using List.find?_some hl.found
  have hroom := hl.room
  refine ⟨hsound, .inl ⟨{ mem with
    useCnt := mem.useCnt - 1, owner := releaseOwners mem.owner (mem.useCnt - 1) who }, ?_⟩⟩
  simp only [shareStep, codecMmRelease, release_eq, hl.found, if_neg hmore]
  have hlen : (st.refs.erase who).length = mem.useCnt - 1 := by
    rw [List.length_erase_of_mem hwho, hl.count]
  refine ⟨find_replace h.sound.distinct hl.found hid, hlen.symm, by dsimp only; omega, ?_, ?_⟩
  · refine List.ne_nil_of_length_pos ?_
    rw [hlen]
    exact Nat.pos_of_ne_zero hmore
  · have hone := (hl.careful_iff who).mp hc
    rw [hl.entries_last] at hone
    rw [releaseOwners_take, List.map_erase (Option.some_injective String)]
    refine (replaceByLast_perm hone).trans ?_
    rw [← hl.entries_last]
    exact hl.entries.erase _

theorem release_exact (hwho : who ∈ st.refs) (hc : Careful id st (.release who)) :
    Exact env id (shareStep env id st (.release who)) := by
  obtain ⟨mem, hl⟩ | ⟨hrefs, _⟩ := h.state
  · by_cases hlast : mem.useCnt - 1 = 0
    · exact release_last_exact h hl hlast hwho
    · exact release_shared_exact h hl hlast hwho hc
  · rw [hrefs] at hwho
    exact nomatch hwho

/-- An owner with two references that is not in the last entry loses both. -/
theorem release_tracks (hwho : who ∈ st.refs)
    (ht : Tracks id (shareStep env id st (.release who))) : Careful id st (.release who) := by
  obtain ⟨mem, hl⟩ | ⟨hrefs, _⟩ := h.state
  case inr =>
    rw [hrefs] at hwho
    exact nomatch hwho
  by_cases hone : st.refs.count who = 1
  · exact .inl hone
  refine (hl.careful_iff who).mpr (.inl (Decidable.not_not.mp fun hlast => ?_))
  have htwo : 1 < st.refs.count who := Nat.lt_of_le_of_ne (List.count_pos_iff.mpr hwho) (Ne.symm hone)
  have hmore : mem.useCnt - 1 ≠ 0 := by
    have hle := @List.count_le_length _ _ who st.refs
    rw [← hl.count] at hle
    omega
  have hstill : who ∈ st.refs.erase who := by
    rw [← List.count_pos_iff, List.count_erase_self]
    omega
  have hid : mem.id = id := by simpa using List.find?_some hl.found
  have howner := ht.owner who
  simp only [shareStep, codecMmRelease, release_eq, hl.found, if_neg hmore] at howner
  have hfind := @find_replace _ id mem { mem with
    useCnt := mem.useCnt - 1, owner := releaseOwners mem.owner (mem.useCnt - 1) who }
    h.sound.distinct hl.found hid
  have hmem := (hasOwner_of_found hfind who).mp (howner.mpr hstill)
  rw [releaseOwners_take] at hmem
  exact not_mem_replaceByLast hlast hmem

/-! ### Runs -/

theorem step_exact_iff {op : ShareOp} (hlegal : Legal st op) :
    (Careful id st op → Exact env id (shareStep env id st op)) ∧
      (Tracks id (shareStep env id st op) → Careful id st op) := by
  cases op with
  | request who => exact ⟨request_exact h who, request_tracks h who⟩
  | release who => exact ⟨release_exact h hlegal, release_tracks h hlegal⟩

omit h in
theorem Always.head {P : Shared → Prop} {ops : List ShareOp} (h : Always env id P st ops) : P st := by
  cases ops with
  | nil => exact h
  | cons op ops => exact h.1

theorem run_tracks_iff {ops : List ShareOp} (hlegal : AtEach env id Legal st ops) :
    Always env id (Tracks id) st ops ↔ AtEach env id (Careful id) st ops := by
  induction ops generalizing st with
  | nil => exact iff_of_true h.tracks trivial
  | cons op ops ih =>
    obtain ⟨hkeep, hneed⟩ := step_exact_iff h hlegal.1
    constructor
    · intro hall
      have hcareful := hneed hall.2.head
      exact ⟨hcareful, (ih (hkeep hcareful) hlegal.2).mp hall.2⟩
    · intro hcareful
      exact ⟨h.tracks, (ih (hkeep hcareful.1) hlegal.2).mpr hcareful.2⟩

end

end Steps

/-! ## Allocated blocks -/

theorem alloc_listed (env : MmEnv) (owner : String) (size align2n : Int32) (memflags : UInt32) :
    Triple (fun _ => True) (codecMmAlloc env owner size align2n memflags) fun got s =>
      ∀ id, got = some id → ∃ mem ∈ s.memList, mem.id = id ∧ mem.useCnt = 1 ∧
        mem.owner.toList.take 1 = [some owner] := by
  refine .bind (R := fun _ _ => True) (fun _ _ => trivial) fun kmalloc => .ite (fun _ _ _ id hid => ?_)
    fun _ => ?_
  · cases hid
  refine .bind (R := fun _ _ => True) (fun _ _ => trivial) fun s => ?_
  refine .bind (R := fun _ _ => True) (fun _ _ => trivial) fun _ => ?_
  refine .bind (R := fun _ _ => True) (fun _ _ => trivial) fun _ => ?_
  refine .bind (R := fun _ _ => True) (fun _ _ => trivial) fun got => .ite (fun _ _ _ id hid => ?_)
    fun _ s _ id hid => ?_
  · cases hid
  · refine ⟨got.2.owned owner s.globalMemid, ?_, Option.some.inj hid, rfl, ?_⟩
    · exact (addBlock_same got.2 owner s).list ▸ List.mem_append_right _ (List.mem_singleton.mpr rfl)
    · rw [owners_take_succ _ (by decide)]
      simp [CodecMm.owned, Vector.getD]

/-- The states of a block from its allocation on. -/
def afterAlloc (env : MmEnv) (s : Mgt) (owner : String) (size align2n : Int32) (memflags : UInt32) : Shared :=
  ⟨(codecMmAlloc env owner size align2n memflags s).2, [owner]⟩

theorem afterAlloc_exact {env : MmEnv} {s : Mgt} (h : Sound env [] s) {owner : String} {size align2n : Int32}
    {memflags : UInt32} {id : Nat} (hid : (codecMmAlloc env owner size align2n memflags s).1 = some id) :
    Exact env id (afterAlloc env s owner size align2n memflags) := by
  have hsound := alloc_keeps owner size align2n memflags s h
  obtain ⟨mem, hmem, rfl, hcnt, howner⟩ := alloc_listed env owner size align2n memflags s trivial id hid
  refine ⟨hsound, .inl ⟨mem, Lib.KeyedList.lookup_of_mem hsound.distinct hmem, hcnt, ?_, List.cons_ne_nil _ _, ?_⟩⟩
  · rw [hcnt]
    decide
  · rw [hcnt, howner]
    exact List.Perm.refl _

/-- A block and its references agree in every state of a run exactly as long as the requests
find room and no owner with further references releases from before the last entry. -/
theorem shared_block_tracked (env : MmEnv) (config : Mgt) (before : List MmOp) (owner : String) (size align2n : Int32)
    (memflags : UInt32) (id : Nat)
    (hid : (codecMmAlloc env owner size align2n memflags (mmRun env (idle config) before)).1 = some id)
    (ops : List ShareOp)
    (hlegal : AtEach env id Legal (afterAlloc env (mmRun env (idle config) before) owner size align2n memflags) ops) :
    Always env id (Tracks id) (afterAlloc env (mmRun env (idle config) before) owner size align2n memflags) ops ↔
      AtEach env id (Careful id) (afterAlloc env (mmRun env (idle config) before) owner size align2n memflags) ops :=
  run_tracks_iff (afterAlloc_exact (mmRun_sound (idle_sound env config) before) hid) hlegal

/-- A page from the contiguous area, which is block 1. -/
def decoderBlock : Shared :=
  afterAlloc answering (mmRun answering (idle cmaConfig) []) "decoder" 4096 0 flagsCma

def shareRun (ops : List ShareOp) : Shared := ops.foldl (shareStep answering 1) decoderBlock

/-- The decoder shares its block and then gives up its own reference. -/
theorem decoderBlock_tracked :
    AtEach answering 1 Legal decoderBlock [.request "display", .release "decoder", .release "display"] ∧
      Always answering 1 (Tracks 1) decoderBlock [.request "display", .release "decoder", .release "display"] := by
  have hlegal : AtEach answering 1 Legal decoderBlock
      [.request "display", .release "decoder", .release "display"] := by decide
  refine ⟨hlegal, (shared_block_tracked answering cmaConfig [] "decoder" 4096 0 flagsCma 1 (by decide) _
    hlegal).mpr ⟨⟨_, rfl, by decide⟩, .inl (by decide), .inl (by decide), trivial⟩⟩

/-- An owner with two references loses both names with the first release. A ninth reference
is granted in words only: when its owner gives it up, the block is freed while the
allocating owner still holds it. -/
theorem owner_lost_and_block_freed_early :
    (AtEach answering 1 Legal decoderBlock [.request "decoder", .request "display", .release "decoder"] ∧
      "decoder" ∈ (shareRun [.request "decoder", .request "display", .release "decoder"]).refs ∧
      codecMmHasOwner (shareRun [.request "decoder", .request "display", .release "decoder"]).mgt 1
        "decoder" = 0) ∧
    (AtEach answering 1 Legal decoderBlock
        (List.replicate 8 (.request "display") ++ List.replicate 8 (.release "display")) ∧
      (shareRun (List.replicate 8 (.request "display") ++ List.replicate 8 (.release "display"))).refs = ["decoder"] ∧
      1 ∈ (shareRun (List.replicate 8 (.request "display") ++ List.replicate 8 (.release "display"))).mgt.kfreed) := by
  refine ⟨⟨?_, ?_, ?_⟩, ?_, ?_, ?_⟩ <;> decide +kernel

end AmlogicV901d.Guarantees.SharedMemory
