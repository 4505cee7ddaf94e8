import AmlogicV901d.Lib.ParentChain
import AmlogicV901d.Source.Configs
import Mathlib.Algebra.Group.Basic
import Mathlib.Algebra.Group.Int.Defs
import Mathlib.Algebra.Group.Pi.Basic
import Mathlib.Data.List.Count
import Mathlib.Data.List.TakeWhile

/-!
# Walks in the configuration tree

What the functions of the configuration tree do to a tree, its paths and its reference
counters. `Step` says it of a function that leaves the tree as it is, `Drifts` of one
that may add a node, both with a number per counter. A path is followed from a node as
far as its names are found (`trail`); the chain of the node it reaches is that trail
backwards, so `configs_put_node` can be compared with what the path took.
-/
namespace AmlogicV901d.Guarantees.ConfigPaths
open Lib.ParentChain Source.Configs List Function Option Nat

variable {d e : Nat → Int}

variable {V : Type} {s s' s'' : Nodes V} {n m p : Nat} {l : List Nat} {names : List (List Char)} {nodeName : List Char}

def up (s : Nodes V) (n : Nat) : Option Nat := (s.node n).parentNode

structure Tree (s : Nodes V) : Prop where
  chain : ∀ n, ∃ l, Chain (up s) n l
  son : ∀ n, ∀ m ∈ (s.node n).sonNodeList, up s m = some n
  top : up s rootNode = none
  root : rootNode < s.count
  bound : ∀ n p, up s n = some p → n < s.count ∧ p < s.count
  number : ∀ n, (s.node n).sonNodeNum = (s.node n).sonNodeList.length

/-- The nodes as `configs_init_new_node` leaves them, before any of them is registered. -/
structure Unregistered (s : Nodes V) : Prop where
  root : rootNode < s.count
  up : ∀ n, up s n = none
  sons : ∀ n, (s.node n).sonNodeList = []
  number : ∀ n, (s.node n).sonNodeNum = 0
  refs : ∀ n, (s.node n).refCnt = 0
  depth : ∀ n, (s.node n).depth = 0
  nodePrefix : ∀ n, (s.node n).nodePrefix = []

theorem Unregistered.tree (h : Unregistered s) : Tree s where
  chain n := ⟨[], .top (h.up n)⟩
  son n m hm := nomatch h.sons n ▸ hm
  top := h.up rootNode
  root := h.root
  bound n p hp := absurd ((h.up n).symm.trans hp) (by simp)
  number n := by rw [h.number, h.sons]; rfl

def Below (s : Nodes V) (n : Nat) : Prop := ∃ l, Chain (up s) n l ∧ rootNode ∈ l

/-- A reference can be taken: the counter is not negative, and does not become so. -/
def Room (s : Nodes V) (n : Nat) : Prop := 0 ≤ (s.node n).refCnt.toInt ∧ (s.node n).refCnt.toInt < 2 ^ 31 - 1

/-! ## What a call does to the counters -/

/-- Nothing but references and items changed. -/
structure Same (s s' : Nodes V) : Prop where
  count : s'.count = s.count
  node : ∀ n, ∃ configs refCnt, s'.node n = { s.node n with configs, refCnt }

theorem Same.refl (s : Nodes V) : Same s s := ⟨rfl, fun _ => ⟨_, _, rfl⟩⟩

theorem Same.trans (h : Same s s') (h' : Same s' s'') : Same s s'' := by
  refine ⟨h'.count.trans h.count, fun n => ?_⟩
  obtain ⟨configs, refCnt, hnode⟩ := h.node n
  obtain ⟨configs', refCnt', hnode'⟩ := h'.node n
  exact ⟨configs', refCnt', by rw [hnode', hnode]⟩

theorem same_modify {f : MconfigNode V → MconfigNode V} (h : ∃ configs refCnt, f (s.node n) = { s.node n with configs, refCnt }) :
    Same s (s.modify n f) := by
  refine ⟨rfl, fun m => ?_⟩
  unfold Nodes.modify
  by_cases hm : m = n
  · subst hm
    simpa using h
  · exact ⟨_, _, update_of_ne hm _ _⟩

section Same
variable (h : Same s s')
include h

theorem Same.name : (s'.node n).name = (s.node n).name := by
  obtain ⟨_, _, hnode⟩ := h.node n
  rw [hnode]

theorem Same.active : (s'.node n).active = (s.node n).active := by
  obtain ⟨_, _, hnode⟩ := h.node n
  rw [hnode]

theorem Same.sons : (s'.node n).sonNodeList = (s.node n).sonNodeList := by
  obtain ⟨_, _, hnode⟩ := h.node n
  rw [hnode]

theorem Same.sonNum : (s'.node n).sonNodeNum = (s.node n).sonNodeNum := by
  obtain ⟨_, _, hnode⟩ := h.node n
  rw [hnode]

theorem Same.depth : (s'.node n).depth = (s.node n).depth := by
  obtain ⟨_, _, hnode⟩ := h.node n
  rw [hnode]

theorem Same.nodePrefix : (s'.node n).nodePrefix = (s.node n).nodePrefix := by
  obtain ⟨_, _, hnode⟩ := h.node n
  rw [hnode]

theorem Same.rwFlags : (s'.node n).rwFlags = (s.node n).rwFlags := by
  obtain ⟨_, _, hnode⟩ := h.node n
  rw [hnode]

theorem Same.up : up s' = up s := by
  funext n
  obtain ⟨_, _, hnode⟩ := h.node n
  rw [ConfigPaths.up, ConfigPaths.up, hnode]

theorem Same.tree (ht : Tree s) : Tree s' where
  chain n := h.up ▸ ht.chain n
  son n m hm := by
    rw [h.sons] at hm
    rw [h.up]
    exact ht.son n m hm
  top := h.up ▸ ht.top
  root := h.count ▸ ht.root
  bound n p hp := by
    rw [h.up] at hp
    rw [h.count]
    exact ht.bound n p hp
  number n := by
    rw [h.sonNum, h.sons]
    exact ht.number n

end Same

structure Step (s s' : Nodes V) (d : Nat → Int) : Prop where
  same : Same s s'
  refs : ∀ n, (s'.node n).refCnt = (s.node n).refCnt + Int32.ofInt (d n)

/-- How often a node is on a list. -/
def occ (l : List Nat) (n : Nat) : Int := l.count n

@[simp] theorem occ_nil : occ [] n = 0 := rfl

theorem occ_append (l m : List Nat) : occ (l ++ m) = occ l + occ m := by
  funext n
  simp [occ]

theorem Step.refl (s : Nodes V) : Step s s (occ []) := ⟨.refl s, fun _ => (Int32.add_zero _).symm⟩

theorem Step.trans (h : Step s s' d) (h' : Step s' s'' e) : Step s s'' (d + e) := by
  refine ⟨h.same.trans h'.same, fun n => ?_⟩
  rw [h'.refs, h.refs, Pi.add_apply, Int32.ofInt_add, Int32.add_assoc]

theorem inc_step : Step s (configsIncNodeRef s n) (occ [n]) := by
  refine ⟨same_modify ⟨_, _, rfl⟩, fun m => ?_⟩
  unfold configsIncNodeRef Nodes.modify
  by_cases hm : m = n
  · subst hm
    simp [occ]
  · simp [occ, update_of_ne hm, Ne.symm hm]

theorem dec_step : Step s (configsDecNodeRef s n) (-occ [n]) := by
  refine ⟨same_modify ⟨_, _, rfl⟩, fun m => ?_⟩
  unfold configsDecNodeRef Nodes.modify
  by_cases hm : m = n
  · subst hm
    simp [occ, Int32.sub_eq_add_neg]
  · simp [occ, update_of_ne hm, Ne.symm hm]

/-! ## Paths through the tree -/

/-- The active son that a name stands for. -/
def son (s : Nodes V) (p : Nat) (nodeName : List Char) : Option Nat :=
  ((s.node p).sonNodeList.find? fun snode => (s.node snode).name = nodeName).filter fun snode => (s.node snode).active

/-- The nodes that names lead through, as far as they are found. -/
def trail (s : Nodes V) : Nat → List (List Char) → List Nat
  | _, [] => []
  | p, nodeName :: names =>
    match son s p nodeName with
    | none => []
    | some m => m :: trail s m names

def reach (s : Nodes V) (p : Nat) (names : List (List Char)) : Nat := (trail s p names).getLastD p

def Followed (s : Nodes V) (p : Nat) (names : List (List Char)) : Prop := (trail s p names).length = names.length

instance : Decidable (Followed s p names) := inferInstanceAs (Decidable (_ = _))

theorem trail_cons_none (h : son s p nodeName = none) : trail s p (nodeName :: names) = [] := by simp only [trail, h]

theorem trail_cons_some (h : son s p nodeName = some m) : trail s p (nodeName :: names) = m :: trail s m names := by
  simp only [trail, h]

theorem son_mem (h : son s p nodeName = some m) : m ∈ (s.node p).sonNodeList := by
  rw [son, filter_eq_some_iff] at h
  exact mem_of_find?_eq_some h.1

theorem Same.find (h : Same s s') : ((s'.node p).sonNodeList.find? fun snode => (s'.node snode).name = nodeName) =
    (s.node p).sonNodeList.find? fun snode => (s.node snode).name = nodeName := by
  simp only [h.sons, h.name]

theorem Same.son (h : Same s s') : son s' p nodeName = son s p nodeName := by
  simp only [ConfigPaths.son, h.find, h.active]

theorem Same.trail (h : Same s s') : trail s' p names = trail s p names := by
  fun_induction ConfigPaths.trail s p names with
  | case1 => rfl
  | case2 _ _ _ hson => exact trail_cons_none (h.son.trans hson)
  | case3 _ _ _ _ hson ih => rw [trail_cons_some (h.son.trans hson), ih]

theorem reach_cons (h : son s p nodeName = some m) : reach s p (nodeName :: names) = reach s m names := by
  rw [reach, trail_cons_some h, getLastD_cons, reach]

theorem followed_cons (h : son s p nodeName = some m) : Followed s p (nodeName :: names) ↔ Followed s m names := by
  rw [Followed, trail_cons_some h, length_cons, length_cons, succ_inj, Followed]

theorem reach_chain (ht : Tree s) (hp : Chain (up s) p l) :
    ∃ m, Chain (up s) (reach s p names) m ∧ reach s p names :: m = (trail s p names).reverse ++ p :: l := by
  fun_induction trail s p names generalizing l with
  | case1 => exact ⟨l, hp, rfl⟩
  | case2 _ _ _ hson =>
    rw [reach, trail_cons_none hson]
    exact ⟨l, hp, rfl⟩
  | case3 p _ _ m hson ih =>
    obtain ⟨r, hr, heq⟩ := ih (.above (ht.son p m (son_mem hson)) hp)
    rw [reach_cons hson, reverse_cons, append_assoc]
    exact ⟨r, hr, heq⟩

/-! ## Taking and dropping references -/

theorem lookup_none (h : son s p nodeName = none) : configsGetNodeWithName s p nodeName = (none, s) := by
  rw [son, filter_eq_none_iff] at h
  unfold configsGetNodeWithName
  split
  · rfl
  · rename_i need hneed
    rw [if_neg (h need hneed)]

theorem room_inc (h : Room s n) : ¬ (s.node n).refCnt + 1 < 0 := by
  rw [Int32.lt_iff_toInt_lt, Int32.toInt_add]
  have h1 := h.1
  have h2 := h.2
  rw [show (1 : Int32).toInt = 1 from rfl, show (0 : Int32).toInt = 0 from rfl, Int.bmod_eq_of_le (by omega) (by omega)]
  omega

theorem lookup_some (h : son s p nodeName = some m) (hroom : Room s m) :
    configsGetNodeWithName s p nodeName = (some m, configsIncNodeRef s m) := by
  rw [son, filter_eq_some_iff] at h
  unfold configsGetNodeWithName
  rw [h.1]
  dsimp only
  rw [if_pos h.2, if_neg]
  have hinc := room_inc hroom
  unfold configsIncNodeRef Nodes.modify
  simpa using hinc

/-- Every node more than `height` below its top has room. -/
def RoomBelow (s : Nodes V) (height : Nat) : Prop := ∀ n l, Chain (up s) n l → height < l.length → Room s n

theorem Step.room_of_ne (h : Step s s' d) (hd : d n = 0) (hroom : Room s n) : Room s' n := by
  rw [Room, h.refs, hd, show Int32.ofInt 0 = 0 from rfl, Int32.add_zero]
  exact hroom

theorem walkNames_spec (ht : Tree s) (hp : Chain (up s) p l) (hroom : RoomBelow s l.length) :
    ∃ s', walkNames s p names = (if Followed s p names then .ok (reach s p names) else .error (reach s p names), s') ∧
      Step s s' (occ (trail s p names)) := by
  induction names generalizing s p l with
  | nil => exact ⟨s, rfl, .refl s⟩
  | cons nodeName names ih =>
    cases hson : son s p nodeName with
    | none =>
      refine ⟨s, ?_, ?_⟩
      · rw [walkNames, lookup_none hson, if_neg, reach, trail_cons_none hson]
        · rfl
        · rw [Followed, trail_cons_none hson]
          exact (succ_ne_zero _).symm
      · rw [trail_cons_none hson]
        exact .refl s
    | some m =>
      have hm : Chain (up s) m (p :: l) := .above (ht.son p m (son_mem hson)) hp
      have hinc : Step s (configsIncNodeRef s m) (occ [m]) := inc_step
      -- the nodes further down keep their room
      have hroom' : RoomBelow (configsIncNodeRef s m) (p :: l).length := by
        intro n r hr hlt
        rw [hinc.same.up] at hr
        have hne : m ≠ n := by
          rintro rfl
          rw [hr.unique hm] at hlt
          exact Nat.lt_irrefl _ hlt
        exact hinc.room_of_ne (by simp [occ, hne]) (hroom n r hr (lt_of_succ_lt hlt))
      obtain ⟨s', hwalk, hstep⟩ := ih (hinc.same.tree ht) (hinc.same.up ▸ hm) hroom'
      refine ⟨s', ?_, ?_⟩
      · rw [walkNames, lookup_some hson (hroom m _ hm (lt_succ_self _))]
        dsimp only
        rw [hwalk]
        simp only [Followed, reach, hinc.same.trail, trail_cons_some hson, length_cons, succ_inj, getLastD_cons]
      · rw [hinc.same.trail] at hstep
        rw [trail_cons_some hson, ← singleton_append, occ_append]
        exact hinc.trans hstep

/-- The parents up to `top`. -/
def upTo (top : Option Nat) (l : List Nat) : List Nat := l.takeWhile fun p => some p ≠ top

variable {top : Option Nat}

theorem putParents_spec {fuel : Nat} (hn : Chain (up s) n l) (hfuel : l.length ≤ fuel) :
    ∃ s', putParents top fuel (up s n) s = some s' ∧ Step s s' (-occ (upTo top l)) := by
  induction l generalizing s n fuel with
  | nil =>
    rw [hn.up_eq_head]
    exact ⟨s, by cases fuel <;> rfl, .refl s⟩
  | cons b l ih =>
    obtain ⟨fuel, rfl⟩ : ∃ k, fuel = k + 1 := ⟨fuel - 1, by rw [length_cons] at hfuel; omega⟩
    have hb : Chain (up s) b l := by
      cases hn with
      | above _ hl => exact hl
    rw [hn.up_eq_head, head?_cons, putParents]
    by_cases htop : some b = top
    · refine ⟨s, if_pos htop, ?_⟩
      rw [upTo, takeWhile_cons_of_neg (by simpa using htop)]
      exact .refl s
    have hdec : Step s (configsDecNodeRef s b) (-occ [b]) := dec_step
    obtain ⟨s', hput, hstep⟩ := ih (hdec.same.up ▸ hb) (le_of_succ_le_succ hfuel)
    refine ⟨s', ?_, ?_⟩
    · rw [hdec.same.up] at hput
      rw [if_neg htop]
      exact hput
    · rw [upTo, takeWhile_cons_of_pos (by simpa using htop), ← singleton_append, occ_append, neg_add]
      exact hdec.trans hstep

theorem chain_bound (ht : Tree s) (hn : Chain (up s) n l) : ∀ b ∈ l, b < s.count := by
  induction hn with
  | top => exact nofun
  | above h _ ih => exact forall_mem_cons.mpr ⟨(ht.bound _ _ h).2, ih⟩

theorem chain_length_le (ht : Tree s) (hn : Chain (up s) n l) : l.length ≤ s.count := by
  cases hn with
  | top => exact Nat.zero_le _
  | above h hl =>
    have hbound := chain_bound ht (.above h hl)
    exact Nat.le_of_lt ((Chain.above h hl).length_lt (forall_mem_cons.mpr ⟨(ht.bound _ _ h).1, hbound⟩))

theorem putNode_spec (ht : Tree s) (hn : Chain (up s) n l) :
    ∃ s', configsPutNode s (some n) true top = some s' ∧ Step s s' (-occ (n :: upTo top l)) := by
  have hdec : Step s (configsDecNodeRef s n) (-occ [n]) := dec_step
  have hn' : Chain (up (configsDecNodeRef s n)) n l := hdec.same.up ▸ hn
  obtain ⟨s', hput, hstep⟩ := putParents_spec hn' (chain_length_le (hdec.same.tree ht) hn')
  refine ⟨s', hput, ?_⟩
  rw [← singleton_append, occ_append, neg_add]
  exact hdec.trans hstep

/-! ## Where a path leads -/

def components (path : List Char) : List (List Char) × Option (List Char) := parsePath path.length path

def wholeNames (path : List Char) : List (List Char) := (components path).1 ++ (components path).2.toList

/-- The path is the name of the root. -/
def NamesRoot (s : Nodes V) (path : List Char) : Prop := components path = ([], some (s.node rootNode).name)

instance {path : List Char} : Decidable (NamesRoot s path) := inferInstanceAs (Decidable (_ = _))

/-- The nodes below the root that a path leads through. -/
def endTrail (s : Nodes V) (path : List Char) : List Nat := if NamesRoot s path then [] else trail s rootNode (wholeNames path)

/-- The node that a path leads to. -/
def target (s : Nodes V) (path : List Char) : Option Nat :=
  if NamesRoot s path then some rootNode
  else if (components path).2.isSome ∧ Followed s rootNode (wholeNames path) then some (reach s rootNode (wholeNames path))
  else none

theorem mem_trail_ne_root (ht : Tree s) (hm : m ∈ trail s p names) : m ≠ rootNode := by
  fun_induction trail s p names with
  | case1 | case2 => exact nomatch hm
  | case3 p _ _ n hson ih =>
    rcases mem_cons.mp hm with rfl | hm
    · rintro rfl
      exact absurd (ht.top.symm.trans (ht.son p _ (son_mem hson))) (by simp)
    · exact ih hm

theorem reach_mem (h : trail s p names ≠ []) : reach s p names ∈ trail s p names := by
  rw [reach]
  cases htrail : trail s p names with
  | nil => exact absurd htrail h
  | cons m t =>
    exact getLast_mem _

theorem reach_eq_root (ht : Tree s) (h : reach s rootNode names = rootNode) : trail s rootNode names = [] := by
  by_contra hne
  exact mem_trail_ne_root ht (reach_mem hne) h

theorem walkNames_concat : walkNames s p (names ++ [nodeName]) =
    match walkNames s p names with
    | (.error q, s) => (.error q, s)
    | (.ok q, s) =>
      match configsGetNodeWithName s q nodeName with
      | (none, s) => (.error q, s)
      | (some m, s) => (.ok m, s) := by
  induction names generalizing s p with
  | nil => rfl
  | cons first names ih =>
    rw [cons_append, walkNames, walkNames]
    rcases configsGetNodeWithName s p first with ⟨_ | m, s'⟩
    · rfl
    · exact ih

/-- But for the name of the root, the last name is looked up as those before it. -/
theorem endNode_eq {path : List Char} (hlast : (components path).2 = some nodeName)
    (hnot : ∀ t, walkNames s rootNode (components path).1 = (.ok rootNode, t) → (t.node rootNode).name ≠ nodeName) :
    configsGetNodePathEndNode s none (some path) =
      ((walkNames s rootNode (wholeNames path)).1.toOption, (walkNames s rootNode (wholeNames path)).2) := by
  rw [wholeNames, hlast, toList_some, walkNames_concat]
  unfold configsGetNodePathEndNode
  dsimp only
  rw [getD_none, show (parsePath path.length path).2 = _ from hlast, show (parsePath path.length path).1 = (components path).1 from rfl]
  rcases hwalk : walkNames s rootNode (components path).1 with ⟨_ | q, t⟩
  · rfl
  · dsimp only
    rw [if_neg (by rintro ⟨-, rfl, hname⟩; exact hnot t hwalk hname)]
    rcases configsGetNodeWithName t q nodeName with ⟨_ | m, t'⟩ <;> rfl

theorem endNode_spec {path : List Char} (ht : Tree s) (hroom : RoomBelow s 0) :
    ∃ s', configsGetNodePathEndNode s none (some path) = (target s path, s') ∧ Step s s' (occ (endTrail s path)) := by
  have hroot : Chain (up s) rootNode [] := .top ht.top
  by_cases htop : NamesRoot s path
  · refine ⟨s, ?_, by rw [endTrail, if_pos htop]; exact .refl s⟩
    unfold configsGetNodePathEndNode
    dsimp only
    rw [show parsePath path.length path = _ from htop, target, if_pos htop]
    exact if_pos ⟨rfl, rfl, rfl⟩
  obtain ⟨s', hwalk, hstep⟩ := @walkNames_spec V s rootNode [] (wholeNames path) ht hroot hroom
  refine ⟨s', ?_, by rw [endTrail, if_neg htop]; exact hstep⟩
  rw [target, if_neg htop]
  cases hlast : (components path).2 with
  | none =>
    have hwhole : wholeNames path = (parsePath path.length path).1 := by rw [wholeNames, hlast]; exact append_nil _
    unfold configsGetNodePathEndNode
    dsimp only
    rw [getD_none, ← hwhole, hwalk, show (parsePath path.length path).2 = none from hlast]
    split <;> simp_all
  | some nodeName =>
    rw [endNode_eq hlast, hwalk]
    · by_cases hfollow : Followed s rootNode (wholeNames path) <;> simp [hfollow, Except.toOption]
    -- the walk ends at the root only if there is no name before the last one
    intro t hfirst hname
    obtain ⟨t', hwalk', hsame⟩ := @walkNames_spec V s rootNode [] (components path).1 ht hroot hroom
    rw [hwalk', Prod.mk.injEq] at hfirst
    split at hfirst
    · next hfollow =>
      have hnil := reach_eq_root ht (Except.ok.inj hfirst.1)
      rw [Followed, hnil] at hfollow
      rw [← hfirst.2, hsame.same.name] at hname
      exact htop (Prod.ext (eq_nil_of_length_eq_zero hfollow.symm) (hlast.trans (congrArg some hname.symm)))
    · exact nomatch hfirst.1

theorem target_chain {path : List Char} (ht : Tree s) (h : target s path = some m) :
    ∃ r, Chain (up s) m r ∧ m :: r = (endTrail s path).reverse ++ [rootNode] := by
  unfold target at h
  unfold endTrail
  by_cases htop : NamesRoot s path
  · rw [if_pos htop] at h ⊢
    cases h
    exact ⟨[], .top ht.top, rfl⟩
  rw [if_neg htop] at h ⊢
  split at h
  · cases h
    exact reach_chain ht (.top ht.top)
  · exact absurd h (by simp)

/-! ## Calls on an item -/

/-- What a call does to the counters below the root, with the condition under which that is nothing. -/
structure Fits (s : Nodes V) (clean : Prop) (d : Nat → Int) : Prop where
  neutral : clean → ∀ n ≠ rootNode, d n = 0
  leaks : ¬ clean → ∃ n, Below s n ∧ (d n = 1 ∨ d n = -1)

/-- A path to an item drops what it took: a name on the way is not found, or it has a node and an
item, or it is empty, or it is an item of the root. -/
def ItemClean (s : Nodes V) (topnode : Option Nat) : Option (List Char) → Prop
  | none => True
  | some path =>
    ¬ Followed s (topnode.getD rootNode) (components path).1 ∨
    if (components path).1 = [] then (components path).2 = none ∨ topnode.getD rootNode = rootNode
    else (components path).2.isSome

instance {topnode : Option Nat} {path : Option (List Char)} : Decidable (ItemClean s topnode path) :=
  match path with
  | none => inferInstanceAs (Decidable True)
  | some _ => inferInstanceAs (Decidable (_ ∨ _))

/-- The node a call starts from: the root or a node below it. -/
def Registered (s : Nodes V) (n : Nat) : Prop := n = rootNode ∨ Below s n

theorem Registered.above (ht : Tree s) (h : Registered s p) (hm : up s m = some p) : Below s m := by
  rcases h with rfl | ⟨l, hl, hroot⟩
  · exact ⟨[rootNode], .above hm (.top ht.top), .head _⟩
  · exact ⟨p :: l, .above hm hl, .tail _ hroot⟩

theorem Below.ne_root (h : Below s n) : n ≠ rootNode := by
  rintro rfl
  obtain ⟨l, hl, hmem⟩ := h
  exact hl.not_mem hmem

section Trail
variable (ht : Tree s) (hl : Chain (up s) p l)
include ht hl

theorem trail_nodup : ((trail s p names).reverse ++ p :: l).Nodup := by
  obtain ⟨r, hr, heq⟩ := reach_chain ht hl
  exact heq ▸ hr.nodup

theorem start_not_mem_trail : p ∉ trail s p names := fun h =>
  disjoint_of_nodup_append (trail_nodup ht hl) (mem_reverse.mpr h) mem_cons_self

theorem reach_ne_start (h : trail s p names ≠ []) : reach s p names ≠ p := by
  intro heq
  have hmem := reach_mem h
  rw [heq] at hmem
  exact start_not_mem_trail ht hl hmem

end Trail

theorem trail_leaks (ht : Tree s) (hp : Registered s p) (h : trail s p names ≠ []) :
    ∃ n, Below s n ∧ occ (trail s p names) n = 1 := by
  obtain ⟨l, hl⟩ := ht.chain p
  have hnodup : (trail s p names).Nodup := nodup_reverse.mp (.of_append_left (trail_nodup ht hl))
  cases names with
  | nil => exact absurd rfl h
  | cons nodeName names =>
    cases hson : son s p nodeName with
    | none => exact absurd (trail_cons_none hson) h
    | some m =>
      refine ⟨m, hp.above ht (ht.son p m (son_mem hson)), ?_⟩
      rw [occ, count_eq_one_of_mem hnodup (by rw [trail_cons_some hson]; exact .head _)]
      rfl

/-- The parameter of `configs_put_node` that ends the walk at the node `p`. -/
def Ends (top : Option Nat) (p : Nat) : Prop := top = some p ∨ top = none ∧ p = rootNode

section Dropped
variable {top : Option Nat} {r : List Nat}

theorem dropped_trail (ht : Tree s) (htop : Ends top p) (hr : Chain (up s) (reach s p names) r) (h : trail s p names ≠ [])
    (hn : n ≠ rootNode) :
    occ (reach s p names :: upTo top r) n = occ (trail s p names) n := by
  obtain ⟨l, hl⟩ := ht.chain p
  obtain ⟨r', hr', heq⟩ := reach_chain ht hl
  obtain rfl := hr.unique hr'
  rcases htop with rfl | ⟨rfl, rfl⟩
  · have hids : reach s p names :: upTo (some p) r = (trail s p names).reverse := by
      rw [upTo, ← takeWhile_cons_of_pos (by simpa using reach_ne_start ht hl h), heq,
        takeWhile_append_of_pos, takeWhile_cons_of_neg (by simp), append_nil]
      intro b hb
      have hne : b ≠ p := fun hbp => start_not_mem_trail ht hl (hbp ▸ mem_reverse.mp hb)
      simpa using hne
    rw [hids, occ, occ, count_reverse]
  · have hall : upTo none r = r := takeWhile_eq_self_iff.mpr fun b _ => by simp
    have hnil : l = [] := hl.unique (.top ht.top)
    rw [hall, heq, hnil, occ, occ, count_append, count_reverse, count_singleton, if_neg (by simpa using Ne.symm hn)]
    rfl

theorem dropped_start (hr : Chain (up s) (reach s p names) r) (h : trail s p names = []) : occ (reach s p names :: upTo top r) p = 1 := by
  have hreach : reach s p names = p := by rw [reach, h, getLastD_nil]
  rw [hreach] at hr ⊢
  have hnot : p ∉ upTo top r := fun hmem => hr.not_mem ((takeWhile_sublist _).mem hmem)
  rw [occ, count_cons_self, count_eq_zero.mpr hnot]
  rfl

theorem dropped_root (ht : Tree s) (hr : Chain (up s) (reach s p names) r) (h : trail s p names = [])
    (hp : p = rootNode) (hn : n ≠ rootNode) : occ (reach s p names :: upTo top r) n = 0 := by
  have hreach : reach s p names = rootNode := by rw [reach, h, getLastD_nil, hp]
  rw [hreach] at hr ⊢
  have hnil : r = [] := hr.unique (.top ht.top)
  rw [hnil, occ, upTo, takeWhile_nil, count_singleton, if_neg (by simpa using Ne.symm hn)]
  rfl

end Dropped

section Item
variable {topnode : Option Nat} {path : List Char}

theorem followed_trail_nil (h : Followed s p names) : trail s p names = [] ↔ names = [] := by
  rw [← length_eq_zero_iff, h, length_eq_zero_iff]

/-- A path that has its item and whose references were dropped by `configs_put_node`. -/
theorem item_fits {r : List Nat} (ht : Tree s) (hp : topnode.getD rootNode = p) (hnames : (components path).1 = names)
    (hreg : Registered s p) (htop : Ends top p) (hr : Chain (up s) (reach s p names) r) (hfollow : Followed s p names)
    (hlast : (components path).2.isSome)
    (hd : ∀ n, d n = occ (trail s p names) n - occ (reach s p names :: upTo top r) n) :
    Fits s (ItemClean s topnode (some path)) d := by
  subst hp hnames
  have hnil := followed_trail_nil hfollow
  by_cases hnames : (components path).1 = []
  · have hclean : ItemClean s topnode (some path) ↔ topnode.getD rootNode = rootNode := by
      rw [ItemClean, if_pos hnames]
      simp only [hfollow, not_true_eq_false, false_or, or_iff_right_iff_imp]
      intro hnone
      rw [hnone] at hlast
      exact absurd hlast (by simp)
    rw [hclean]
    have hempty := hnil.mpr hnames
    constructor
    · intro hroot n hn
      rw [hd, dropped_root ht hr hempty hroot hn, hempty]
      rfl
    · intro hroot
      refine ⟨_, hreg.resolve_left hroot, .inr ?_⟩
      rw [hd, dropped_start hr hempty, hempty]
      rfl
  · have hclean : ItemClean s topnode (some path) := by
      rw [ItemClean, if_neg hnames]
      exact .inr hlast
    refine ⟨fun _ n hn => ?_, fun h => absurd hclean h⟩
    rw [hd, dropped_trail ht htop hr (fun h => hnames (hnil.mp h)) hn, Int.sub_self]

theorem getNodeConfig_cases {node : Nat} {item : List Char} : configsGetNodeConfig s node item = (none, s) ∨
      ∃ i, configsGetNodeConfig s node item = (some i, configsIncNodeRef s node) := by
  unfold configsGetNodeConfig
  split
  · exact .inl rfl
  · exact .inr ⟨_, rfl⟩

/-- `configs_get_node_path_config` fails with the references dropped, or finds an item and holds them. -/
theorem getNodePathConfig_spec {set : Bool} (ht : Tree s) (hp : topnode.getD rootNode = p)
    (hnames : (components path).1 = names) (hreg : Registered s p) (hl : Chain (up s) p l)
    (hroom : RoomBelow s l.length) :
    (∃ err s' d, configsGetNodePathConfig s topnode (some path) set = some (err, none, s') ∧ Step s s' d ∧
      Fits s (ItemClean s topnode (some path)) d) ∨ (Followed s p names ∧ (components path).2.isSome ∧
      ∃ i s', configsGetNodePathConfig s topnode (some path) set = some (0, some (reach s p names, i), s') ∧
        Step s s' (occ (trail s p names) + occ [reach s p names])) := by
  obtain ⟨s', hwalk, hstep⟩ := walkNames_spec ht hl hroom
  obtain ⟨r, hr, -⟩ := reach_chain ht hl
  have hout : ∃ s'', configsPutNode s' (some (reach s p names)) true
      (some p) = some s'' ∧ Step s s'' (occ (trail s p names) + -occ (reach s p names :: upTo (some p) r)) := by
    obtain ⟨s'', hput, hdrop⟩ := putNode_spec (hstep.same.tree ht) (hstep.same.up ▸ hr)
    exact ⟨s'', hput, hstep.trans hdrop⟩
  obtain ⟨s'', hput, hdrop⟩ := hout
  unfold configsGetNodePathConfig
  dsimp only
  rw [hp, show (parsePath path.length path).1 = names from hnames, hwalk,
    show (parsePath path.length path).2 = (components path).2 from rfl]
  by_cases hfollow : Followed s p names
  · rw [if_pos hfollow]
    cases hlast : (components path).2 with
    | none =>
      refine .inl ⟨-1, s', _, rfl, hstep, ?_⟩
      have hclean : ItemClean s topnode (some path) ↔ names = [] := by
        rw [ItemClean, hlast]
        simp [hp, hnames, hfollow]
      rw [hclean, ← followed_trail_nil hfollow]
      refine ⟨fun hnil n _ => by rw [hnil]; rfl, fun hne => ?_⟩
      obtain ⟨n, hn, hocc⟩ := trail_leaks ht hreg hne
      exact ⟨n, hn, .inl hocc⟩
    | some item =>
      have hsome : (components path).2.isSome := by rw [hlast]; rfl
      have hfits := item_fits ht hp hnames hreg (.inl rfl) hr hfollow hsome fun n => rfl
      dsimp only
      split
      · exact .inl ⟨-2, s'', _, by rw [hput]; rfl, hdrop, hfits⟩
      split
      · exact .inl ⟨-1, s'', _, by rw [hput]; rfl, hdrop, hfits⟩
      rcases getNodeConfig_cases (s := s') with hget | ⟨i, hget⟩
      · rw [hget]
        dsimp only
        exact .inl ⟨-1, s'', _, by rw [hput]; rfl, hdrop, hfits⟩
      · rw [hget]
        exact .inr ⟨hfollow, rfl, i, _, rfl, hstep.trans inc_step⟩
  · rw [if_neg hfollow]
    have hclean : ItemClean s topnode (some path) := .inl (hp ▸ hnames ▸ hfollow)
    dsimp only
    by_cases hstart : reach s p names = p
    · have hnil : trail s p names = [] := by
        by_contra hne
        exact reach_ne_start ht hl hne hstart
      rw [if_neg (not_not_intro hstart)]
      exact .inl ⟨-2, s', _, rfl, hstep, fun _ n _ => by rw [hnil]; rfl, fun h => absurd hclean h⟩
    · have hne : trail s p names ≠ [] := by
        intro hnil
        rw [reach, hnil] at hstart
        exact hstart rfl
      rw [if_pos hstart, hput]
      refine .inl ⟨-1, s'', _, rfl, hdrop, fun _ n hn => ?_, fun h => absurd hclean h⟩
      rw [Pi.add_apply, Pi.neg_apply, dropped_trail ht (.inl rfl) hr hne hn]
      omega

theorem actOnItem_step {node i : Nat} {act : V → V × Int32} : Step s (s.actOnItem node i act).2 (occ []) := by
  unfold Nodes.actOnItem
  split
  · exact .refl s
  dsimp only
  refine ⟨same_modify ⟨_, _, rfl⟩, fun n => ?_⟩
  unfold Nodes.modify
  by_cases hn : n = node
  · subst hn
    simp
  · simp [update_of_ne hn]

theorem onPathConfig_spec {set : Bool} {act : V → V × Int32} {path : Option (List Char)} (ht : Tree s)
    (hreg : Registered s (topnode.getD rootNode)) (hl : Chain (up s) (topnode.getD rootNode) l) (hroom : RoomBelow s l.length) :
    ∃ ret s' d, onPathConfig s topnode path set act = some (ret, s') ∧ Step s s' d ∧ Fits s (ItemClean s topnode path) d := by
  cases path with
  | none => exact ⟨-5, s, occ [], rfl, .refl s, fun _ _ _ => rfl, fun h => absurd trivial h⟩
  | some path =>
    rcases getNodePathConfig_spec ht rfl rfl hreg hl hroom with
      ⟨err, s', d, hget, hstep, hfits⟩ | ⟨hfollow, hlast, i, s', hget, hstep⟩
    · refine ⟨err, s', d, ?_, hstep, hfits⟩
      rw [onPathConfig, hget]
      rfl
    · obtain ⟨r, hr, -⟩ := @reach_chain V s (topnode.getD rootNode) l (components path).1 ht hl
      have hact := hstep.trans (@actOnItem_step V s' (reach s (topnode.getD rootNode) (components path).1) i act)
      rcases hres : s'.actOnItem (reach s (topnode.getD rootNode) (components path).1) i act with ⟨ret, s2⟩
      rw [hres] at hact
      have hdec := hact.trans (@dec_step V s2 (reach s (topnode.getD rootNode) (components path).1))
      obtain ⟨s'', hput, hdrop⟩ := @putNode_spec V _ _ r topnode (hdec.same.tree ht) (hdec.same.up ▸ hr)
      have htop : Ends topnode (topnode.getD rootNode) := by
        cases topnode with
        | none => exact .inr ⟨rfl, rfl⟩
        | some _ => exact .inl rfl
      refine ⟨ret, s'', _, ?_, hdec.trans hdrop, item_fits ht rfl rfl hreg htop hr hfollow hlast fun n => ?_⟩
      · rw [onPathConfig, hget, bind_eq_bind, bind_some]
        dsimp only
        rw [hres]
        rw [show configsPutNode s2 (some _) false topnode = some (configsDecNodeRef s2 _) from rfl, bind_eq_bind,
          bind_some, hput]
        rfl
      · simp only [Pi.add_apply, Pi.neg_apply, occ_nil]
        omega

end Item

/-! ## Registering a node -/

/-- The tree may have more nodes and items. -/
structure Grows (s s' : Nodes V) : Prop where
  count : s'.count = s.count
  name : ∀ n, (s'.node n).name = (s.node n).name
  active : ∀ n, (s.node n).active → (s'.node n).active
  sons : ∀ n, (s.node n).sonNodeList <+: (s'.node n).sonNodeList
  up : ∀ n p, up s n = some p → up s' n = some p

theorem Grows.refl (s : Nodes V) : Grows s s := ⟨rfl, fun _ => rfl, fun _ h => h, fun _ => prefix_rfl, fun _ _ h => h⟩

theorem Grows.trans (h : Grows s s') (h' : Grows s' s'') : Grows s s'' where
  count := h'.count.trans h.count
  name n := (h'.name n).trans (h.name n)
  active n hn := h'.active n (h.active n hn)
  sons n := (h.sons n).trans (h'.sons n)
  up n p hp := h'.up n p (h.up n p hp)

theorem Same.grows (h : Same s s') : Grows s s' where
  count := h.count
  name _ := h.name
  active _ hn := h.active.trans hn
  sons _ := h.sons ▸ prefix_rfl
  up _ _ hp := h.up ▸ hp

/-- What a call does to the tree and to the counters. -/
structure Drifts (s s' : Nodes V) (d : Nat → Int) : Prop where
  grows : Grows s s'
  tree : Tree s'
  refs : ∀ n, (s'.node n).refCnt = (s.node n).refCnt + Int32.ofInt (d n)

theorem Step.drifts (h : Step s s' d) (ht : Tree s) : Drifts s s' d := ⟨h.same.grows, h.same.tree ht, h.refs⟩

theorem Drifts.trans (h : Drifts s s' d) (h' : Drifts s' s'' e) : Drifts s s'' (d + e) := by
  refine ⟨h.grows.trans h'.grows, h'.tree, fun n => ?_⟩
  rw [h'.refs, h.refs, Pi.add_apply, Int32.ofInt_add, Int32.add_assoc]

/-- A node that can be registered: it exists, and is neither the root nor registered yet. -/
structure Fresh (s : Nodes V) (n : Nat) : Prop where
  ne_root : n ≠ rootNode
  exists_ : n < s.count
  free : up s n = none

theorem fresh_not_above {q : Nat} (ht : Tree s) (hq : Fresh s q) (hp : Registered s p) (hl : Chain (up s) p l) : q ∉ p :: l := by
  intro hmem
  have hroot : rootNode ∈ p :: l := by
    rcases hp with rfl | ⟨l', hl', hroot⟩
    · exact .head _
    · rw [hl.unique hl']
      exact .tail _ hroot
  exact hq.ne_root (hl.top_unique hmem hroot hq.free ht.top)

theorem Fresh.ne_parent {q : Nat} (hq : Fresh s q) (ht : Tree s) (hp : Registered s p) : q ≠ p := by
  obtain ⟨l, hl⟩ := ht.chain p
  exact fun h => fresh_not_above ht hq hp hl (h ▸ .head _)

section Attach
variable {q : Nat}

theorem attach_new (hne : q ≠ p) : (s.attach p q).node q = { s.node q with
    depth := (s.node p).depth + 1
    nodePrefix := sonPrefix (s.node p) (s.node q)
    parentNode := some p
    rwFlags := (s.node p).rwFlags &&& (s.node q).rwFlags
    active := true } := by
  simp [Nodes.attach, Nodes.modify, update_of_ne hne]

theorem attach_parent (hne : q ≠ p) : (s.attach p q).node p = { s.node p with
    sonNodeList := (s.node p).sonNodeList ++ [q]
    sonNodeNum := (s.node p).sonNodeNum + 1 } := by
  simp [Nodes.attach, Nodes.modify, update_of_ne (Ne.symm hne)]

theorem attach_other (hq : n ≠ q) (hp : n ≠ p) : (s.attach p q).node n = s.node n := by
  simp [Nodes.attach, Nodes.modify, update_of_ne hq, update_of_ne hp]

variable (hne : q ≠ p)
include hne

theorem attach_of_ne (hn : n ≠ q) : ∃ sonNodeList sonNodeNum, (s.attach p q).node n = { s.node n with sonNodeList, sonNodeNum } := by
  by_cases hp : n = p
  · subst hp
    exact ⟨_, _, attach_parent hne⟩
  · exact ⟨_, _, attach_other hn hp⟩

theorem attach_up_new : up (s.attach p q) q = some p := by rw [up, attach_new hne]

theorem attach_up_of_ne (hn : n ≠ q) : up (s.attach p q) n = up s n := by
  obtain ⟨_, _, hnode⟩ := attach_of_ne hne hn
  rw [up, hnode, up]

theorem attach_keeps : ((s.attach p q).node n).name = (s.node n).name ∧ ((s.attach p q).node n).refCnt = (s.node n).refCnt ∧
    ((s.node n).active → ((s.attach p q).node n).active) := by
  by_cases hq : n = q
  · subst hq
    rw [attach_new hne]
    exact ⟨rfl, rfl, fun _ => rfl⟩
  · obtain ⟨_, _, hnode⟩ := attach_of_ne hne hq
    rw [hnode]
    exact ⟨rfl, rfl, id⟩

theorem attach_sons_of_ne (hp : n ≠ p) : ((s.attach p q).node n).sonNodeList = (s.node n).sonNodeList ∧
    ((s.attach p q).node n).sonNodeNum = (s.node n).sonNodeNum := by
  by_cases hq : n = q
  · subst hq
    simp [attach_new hne]
  · simp [attach_other hq hp]

end Attach

theorem attach_tree {q : Nat} (ht : Tree s) (hq : Fresh s q) (hp : Registered s p) : Tree (s.attach p q) := by
  obtain ⟨l, hl⟩ := ht.chain p
  have hnot := fresh_not_above ht hq hp hl
  have hne := hq.ne_parent ht hp
  have hframe : ∀ b ≠ q, up (s.attach p q) b = up s b := fun b hb => attach_up_of_ne hne hb
  refine ⟨fun n => ?_, fun n m hm => ?_, ?_, ht.root, fun n r hr => ?_, fun n => ?_⟩
  · obtain ⟨r, hr⟩ := ht.chain n
    by_cases hmem : q ∈ n :: r
    · exact ⟨_, .link hframe hq.free (attach_up_new hne) hl hnot hr hmem⟩
    · exact ⟨r, hr.link_frame hframe hmem⟩
  · have hold : m ∈ (s.node n).sonNodeList → up (s.attach p q) m = some n := by
      intro hm
      have hup := ht.son n m hm
      have hmq : m ≠ q := by
        rintro rfl
        exact absurd (hq.free.symm.trans hup) (by simp)
      rw [hframe m hmq, hup]
    by_cases hnp : n = p
    · subst hnp
      rw [attach_parent hne] at hm
      rcases mem_append.mp hm with hm | hm
      · exact hold hm
      · rw [mem_singleton.mp hm, attach_up_new hne]
    · rw [(attach_sons_of_ne hne hnp).1] at hm
      exact hold hm
  · rw [hframe _ (.symm hq.ne_root), ht.top]
  · by_cases hnq : n = q
    · subst hnq
      rw [attach_up_new hne] at hr
      cases hr
      refine ⟨hq.exists_, ?_⟩
      rcases hp with rfl | ⟨r, hr, hroot⟩
      · exact ht.root
      · cases hr with
        | top => exact nomatch hroot
        | above h _ => exact (ht.bound _ _ h).1
    · rw [hframe n hnq] at hr
      exact ht.bound n r hr
  · by_cases hnp : n = p
    · subst hnp
      rw [attach_parent hne]
      simp [ht.number]
    · rw [(attach_sons_of_ne hne hnp).1, (attach_sons_of_ne hne hnp).2, ht.number]

theorem attach_drifts {q : Nat} (ht : Tree s) (hq : Fresh s q) (hp : Registered s p) : Drifts s (s.attach p q) (occ []) := by
  have hne := hq.ne_parent ht hp
  refine ⟨⟨rfl, fun n => (attach_keeps hne).1, fun n => (attach_keeps hne).2.2, fun n => ?_, fun n r hr => ?_⟩, attach_tree ht hq hp,
    fun n => ?_⟩
  · by_cases hnp : n = p
    · subst hnp
      rw [attach_parent hne]
      exact prefix_append _ _
    · simp only [(attach_sons_of_ne hne hnp).1, prefix_rfl]
  · rw [attach_up_of_ne hne, hr]
    rintro rfl
    exact absurd (hq.free.symm.trans hr) (by simp)
  · rw [(attach_keeps hne).2.1]
    exact (Int32.add_zero _).symm

/-- No active son of the parent has the name, or the call returns before it looks. -/
def RegisterClean (s : Nodes V) (parent newNode : Nat) : Prop :=
  (s.node parent).depth ≥ maxDepth ∨
  (s.node parent).nodePrefix.length + (s.node parent).name.length ≥ maxPrefixName - 2 ∨
  son s parent (s.node newNode).name = none

instance {parent newNode : Nat} : Decidable (RegisterClean s parent newNode) := inferInstanceAs (Decidable (_ ∨ _ ∨ _))

theorem registerNode_spec {parent : Option Nat} {q : Nat} (ht : Tree s) (hq : Fresh s q) (hp : Registered s (parent.getD rootNode))
    (hl : Chain (up s) (parent.getD rootNode) l) (hroom : RoomBelow s l.length) :
    ∃ ret s' d, configsRegisterNode s parent q = (ret, s') ∧ Drifts s s' d ∧
      Fits s (RegisterClean s (parent.getD rootNode) q) d := by
  have hrefl : Drifts s s (occ []) := (Step.refl s).drifts ht
  have hzero : ∀ {clean : Prop}, clean → Fits s clean (occ []) := fun h => ⟨fun _ _ _ => rfl, fun hnot => absurd h hnot⟩
  unfold configsRegisterNode
  rw [if_neg (hq.ne_parent ht hp)]
  split
  · rename_i hdepth
    exact ⟨-1, s, occ [], rfl, hrefl, hzero (.inl hdepth)⟩
  rename_i hdepth
  split
  · rename_i hlong
    exact ⟨-2, s, occ [], rfl, hrefl, hzero (.inr (.inl hlong))⟩
  rename_i hlong
  cases hson : son s (parent.getD rootNode) (s.node q).name with
  | none =>
    rw [lookup_none hson]
    exact ⟨0, _, occ [], rfl, attach_drifts ht hq hp, hzero (.inr (.inr hson))⟩
  | some m =>
    have hup := ht.son _ m (son_mem hson)
    rw [lookup_some hson (hroom m _ (.above hup hl) (lt_succ_self _))]
    refine ⟨-3, _, _, rfl, inc_step.drifts ht, fun hclean => ?_, fun _ => ⟨m, hp.above ht hup, .inl ?_⟩⟩
    · rcases hclean with h | h | h
      · exact absurd h hdepth
      · exact absurd h hlong
      · exact absurd (hson.symm.trans h) (by simp)
    · simp [occ]

end AmlogicV901d.Guarantees.ConfigPaths
